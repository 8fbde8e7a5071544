import Rumble.Proofs.DescriptorLayout
import Rumble.Proofs.NumeralGrammar
import Rumble.Proofs.Performance

namespace Rumble

namespace Json

/-! ### Integers -/

def Number.ofInt (z : Int) : Number := ⟨decide (z < 0), Text.decimal z.natAbs, [], none⟩

def ofInt (z : Int) : Json := .number (.ofInt z)

theorem Number.isInteger_ofInt (z : Int) : (Number.ofInt z).IsInteger := ⟨⟨_, rfl⟩, rfl, rfl⟩

theorem Number.ofInt_natCast (n : Nat) : Number.ofInt n = .ofNat n := by
  rw [ofInt, ofNat, Int.natAbs_natCast, decide_eq_false (by omega)]

theorem Number.text_ofInt (z : Int) : (Number.ofInt z).text = (toString z).toList := by
  cases z with
  | ofNat n =>
    have hs : (toString (Int.ofNat n)).toList = Text.decimal n := String.toList_ofList
    rw [hs, Int.ofNat_eq_natCast, ofInt_natCast]
    simp [text, ofNat]
  | negSucc n =>
    have hs : (toString (Int.negSucc n)).toList = '-' :: Text.decimal (n + 1) := by
      show ("-" ++ String.ofList (Nat.toDigits 10 (n + 1))).toList = _
      rw [String.toList_append]
      exact congrArg ('-' :: ·) String.toList_ofList
    rw [hs, ofInt, decide_eq_true (Int.negSucc_lt_zero n), Int.natAbs_negSucc]
    simp [text]

/-- A natural number of any size denotes itself, and a negative number none. -/
theorem natural?_ofInt_eq_some_iff {z : Int} {n : Nat} :
    (ofInt z).natural? = some n ↔ (n : Int) = z := by
  constructor
  · intro h
    by_cases hz : z < 0
    · rw [ofInt, natural?, Number.natural?, if_neg (by simp [Number.ofInt, hz])] at h
      cases h
    · obtain ⟨m, rfl⟩ := Int.eq_ofNat_of_zero_le (not_lt.mp hz)
      rw [ofInt, Number.ofInt_natCast, natural?, Number.natural?_ofNat] at h
      cases h
      rfl
  · rintro rfl
    rw [ofInt, Number.ofInt_natCast]
    exact Number.natural?_ofNat n

theorem word?_eq_some_iff {v : Json} {n : UInt32} :
    v.word? = some n ↔ v.natural? = some n.toNat := by
  simp only [word?, Option.bind_eq_some_iff, Text.word32?_eq_some_iff, exists_eq_right]

end Json

namespace Command

theorem byte?_eq_some_iff {v : Json} {a : UInt8} :
    byte? v = some a ↔ v.natural? = some a.toNat := by
  rw [byte?]
  constructor
  · intro h
    obtain ⟨m, hm, hn⟩ := Option.bind_eq_some_iff.mp h
    split at hn
    · rw [hm, ← Option.some.inj hn, UInt8.toNat_ofNatLT]
    · cases hn
  · intro h
    rw [h]
    have ha : a.toNat < UInt8.size := a.toNat_lt
    simp [ha]

/-! ### What a text means -/

theorem ofText?_eq_some_iff {v : Json} {s : String} (h : v.IsText s) {c : Command} :
    ofText? s = some c ↔ v.IsReadable Json.nestingLimit ∧ ofJson? v = some c := by
  rw [ofText?, h.parse?_eq]
  split
  · next hr => rw [Option.bind_some, and_iff_right hr]
  · next hr => simp [hr]

theorem ofJson?_perm {fields fields' : List (Option String × Json)} (h : fields'.Perm fields) :
    ofJson? (.object fields') = ofJson? (.object fields) := by
  have hr := Json.fields?_perm (h.filter (·.1 ≠ some "command"))
  rw [ofJson?, ofJson?, Json.tagged?, Json.tagged?, Json.only?_perm h]
  cases Json.only? "command" fields with
  | none => rfl
  | some v =>
    cases hv : v.text? with
    | none => simp [hv]
    | some name =>
      simp only [hv, Option.bind_eq_bind, Option.bind_some, Option.pure_def, hr]
      rfl

/-! ### Requests that carry a number -/

theorem ofJson?_on (v : Json) :
    ofJson? (.record [("command", .ofString "on"), ("duration_ms", v)]) = v.word?.map on := by
  have hf := Json.fields?_record [("duration_ms", v)] (by simp)
  simp only [List.map_cons, List.map_nil] at hf
  rw [ofJson?, Json.tagged?_record (by simp)]
  simp [hf, Option.map_eq_bind]

theorem ofJson?_setAmplitude (v : Json) :
    ofJson? (.record [("command", .ofString "set_amplitude"), ("amplitude", v)]) =
      (byte? v).map setAmplitude := by
  have hf := Json.fields?_record [("amplitude", v)] (by simp)
  simp only [List.map_cons, List.map_nil] at hf
  rw [ofJson?, Json.tagged?_record (by simp)]
  simp [hf, Option.map_eq_bind]

def integerFields (name field : String) (z : Int) (nameFirst : Bool) : List (String × Json) :=
  if nameFirst then [("command", .ofString name), (field, .ofInt z)]
  else [(field, .ofInt z), ("command", .ofString name)]

/-- The text of a request that carries an integer, with its name first or last. -/
def integerText (name field : String) (z : Int) (nameFirst : Bool) : String :=
  if nameFirst then
    "\x7b\"command\":\"" ++ name ++ "\",\"" ++ field ++ "\":" ++ toString z ++ "\x7d"
  else
    "\x7b\"" ++ field ++ "\":" ++ toString z ++ ",\"command\":\"" ++ name ++ "\"\x7d"

def IsPlain (s : String) : Prop := Json.Quoted.encode s.toList = '"' :: (s.toList ++ ['"'])

instance (s : String) : Decidable (IsPlain s) := inferInstanceAs (Decidable (_ = _))

section

variable {name field : String} (hn : IsPlain name) (hf : IsPlain field) (z : Int)
  (nameFirst : Bool)
include hn hf

theorem render_integerFields :
    (Json.record (integerFields name field z nameFirst)).render =
      integerText name field z nameFirst := by
  have hc : Json.Quoted.encode ['c', 'o', 'm', 'm', 'a', 'n', 'd'] =
      ['"', 'c', 'o', 'm', 'm', 'a', 'n', 'd', '"'] := rfl
  rw [IsPlain] at hn hf
  rw [Json.render, ← String.toList_inj, String.toList_ofList]
  cases nameFirst <;>
    simp [integerFields, integerText, Json.record, Json.tokens, Json.memberTokens,
      Json.moreMemberTokens, Json.ofString, Json.ofInt, Json.Token.text, Json.Number.text_ofInt,
      hn, hf, hc]

theorem isText_integerText :
    (Json.record (integerFields name field z nameFirst)).IsText
      (integerText name field z nameFirst) := by
  have hz : (Json.Token.number (.ofInt z)).Spelling (Json.Token.text (.number (.ofInt z))) :=
    .number (Json.Number.isInteger_ofInt z).spelling
  have hs (s : String) : (Json.Token.string (some s)).Spelling (Json.Token.text (.string s)) :=
    Json.Token.IsWritten.spelling rfl
  rw [← render_integerFields hn hf, Json.IsText, Json.render, String.toList_ofList]
  apply Json.Token.isLayout_of_spelling
  rw [Json.record, Json.forall_mem_tokens_object .openBrace .colon .comma .closeBrace,
    List.forall_mem_map]
  cases nameFirst <;> simp [integerFields, Json.ofString, Json.ofInt, Json.tokens, hz, hs]

/-- An integer is read exactly if it is one of the numbers that the request can carry, and as that
number. -/
theorem ofText?_integerText {α : Type} {make : α → Command} {toNat : α → Nat}
    (hr : ∀ v c, ofJson? (.record [("command", .ofString name), (field, v)]) = some c ↔
      ∃ a, v.natural? = some (toNat a) ∧ make a = c)
    (hb : ∀ a, toNat a < UInt64.size) {c : Command} :
    ofText? (integerText name field z nameFirst) = some c ↔
      ∃ a, (toNat a : Int) = z ∧ make a = c := by
  have hp : (integerFields name field z nameFirst).Perm (integerFields name field z true) := by
    cases nameFirst with
    | true => rfl
    | false => exact .swap ..
  have hj : ofJson? (.record (integerFields name field z nameFirst)) = some c ↔
      ∃ a, (toNat a : Int) = z ∧ make a = c := by
    rw [Json.record, ofJson?_perm (hp.map _)]
    exact (hr (.ofInt z) c).trans (by simp only [Json.natural?_ofInt_eq_some_iff])
  rw [ofText?_eq_some_iff (isText_integerText hn hf z nameFirst), hj, and_iff_right_iff_imp]
  rintro ⟨a, rfl, -⟩
  -- A number that is carried is small enough to be read.
  have hw : (Json.ofInt (toNat a)).IsWritable 0 :=
    .number (Json.Number.isInteger_ofInt _)
      (by rw [Json.Number.ofInt_natCast, Json.Number.isTooLarge_ofNat (hb a)]) 0
  have hv : (Json.record (integerFields name field (toNat a) nameFirst)).IsWritable 1 := by
    apply Json.isWritable_record
    cases nameFirst <;> simp [integerFields, hw, Json.ofString, Json.IsWritable.string]
  exact hv.isReadable (by decide)

end

theorem ofText?_on (z : Int) (nameFirst : Bool) {c : Command} :
    ofText? (integerText "on" "duration_ms" z nameFirst) = some c ↔
      ∃ ms : UInt32, (ms.toNat : Int) = z ∧ on ms = c := by
  apply ofText?_integerText (by decide) (by decide) z nameFirst
  · intro v c
    simp only [ofJson?_on, Option.map_eq_some_iff, Json.word?_eq_some_iff]
  · intro ms
    exact ms.toNat_lt.trans (by decide)

theorem ofText?_setAmplitude (z : Int) (nameFirst : Bool) {c : Command} :
    ofText? (integerText "set_amplitude" "amplitude" z nameFirst) = some c ↔
      ∃ a : UInt8, (a.toNat : Int) = z ∧ setAmplitude a = c := by
  apply ofText?_integerText (by decide) (by decide) z nameFirst
  · intro v c
    simp only [ofJson?_setAmplitude, Option.map_eq_some_iff, byte?_eq_some_iff]
  · intro a
    exact a.toNat_lt.trans (by decide)

/-! ### Reading back -/

theorem isWritable_toJson (c : Command) : c.toJson.IsWritable 1 := by
  cases c with
  | setAmplitude a =>
    have ha : (Json.ofNat a.toNat).IsWritable 0 :=
      .number (Json.Number.isInteger_ofNat _)
        (Json.Number.isTooLarge_ofNat (a.toNat_lt.trans (by decide))) 0
    apply Json.isWritable_record
    simp [Json.ofString, Json.IsWritable.string, ha]
  | _ =>
    apply Json.isWritable_record
    simp [Json.ofString, Json.IsWritable.string, Json.IsWritable.bool, Json.isWritable_ofWord]

theorem ofJson?_toJson (c : Command) : ofJson? c.toJson = some c := by
  cases c with
  | on ms => rw [toJson, ofJson?_on, Json.word?_ofWord, Option.map_some]
  | setAmplitude a =>
    have ha : byte? (.ofNat a.toNat) = some a :=
      byte?_eq_some_iff.mpr (Json.Number.natural?_ofNat a.toNat)
    rw [toJson, ofJson?_setAmplitude, ha, Option.map_some]
  | off | queryCapabilities =>
    rw [toJson, ofJson?, Json.tagged?_record (by simp)]
    rfl
  | setExternalControl b =>
    have hf := Json.fields?_record [("enabled", .bool b)] (by simp)
    simp only [List.map_cons, List.map_nil] at hf
    rw [toJson, ofJson?, Json.tagged?_record (by simp)]
    simp [hf, Json.bool?]
  | perform e s =>
    have hf := Json.fields?_record [("effect", .ofString e.name), ("strength", .ofString s.name)]
      (by simp)
    simp only [List.map_cons, List.map_nil] at hf
    rw [toJson, ofJson?, Json.tagged?_record (by simp)]
    simp [hf, Json.name?_ofString, Effect.ofName?_name, Strength.ofName?_name]

theorem ofText?_text (c : Command) : ofText? c.text = some c :=
  (ofText?_eq_some_iff c.isWritable_toJson.isText_render).mpr
    ⟨c.isWritable_toJson.isReadable (by decide), c.ofJson?_toJson⟩

end Command

/-! ### What becomes of a request -/

theorem Status.ofResult_eq_ok_iff {α : Type} {x : Except Failure α} :
    ofResult x = ok ↔ ∃ a, x = .ok a := by
  cases x <;> simp [ofResult]

/-- A run for a request that does what the run of an operation does, and says how that ended. -/
structure Run.Follows {σ α : Type} (run : Run σ Outcome) (direct : Run σ (Except Failure α)) :
    Prop where
  calls : run.calls = direct.calls
  state : run.state = direct.state
  records : run.records = direct.records
  code : run.value.code = .ofResult direct.value
  ok : run.value.code = .ok ↔ ∃ a, direct.value = .ok a

theorem Run.follows_map {σ α : Type} (device : Device σ) {p : Program (Except Failure α)}
    {f : Except Failure α → Outcome} (hf : ∀ x, (f x).code = .ofResult x) (st : σ) :
    ((f <$> p).run device st).Follows (p.run device st) := by
  rw [Program.run_map]
  exact ⟨rfl, rfl, rfl, hf _, by rw [hf, Status.ofResult_eq_ok_iff]⟩

namespace Controller

variable {σ : Type} (c : Controller) (device : Device σ) (st : σ)

/-- What the controller does for a request: it runs the operation that this names, and for a query
of all capabilities the two single queries. -/
def Dispatches (command : Command) : Prop :=
  let run := (c.handle command).run device st
  match command with
  | .on ms => run.Follows ((c.activate ms).run device st)
  | .off => run.Follows (c.deactivate.run device st)
  | .setAmplitude a => run.Follows ((setAmplitude a).run device st)
  | .setExternalControl b => run.Follows ((c.setExternalControl b).run device st)
  | .perform e s =>
    let direct := (c.perform e s).run device st
    run.Follows ((c.performEffect e s).run device st) ∧ run.calls = direct.calls ∧
      run.state = direct.state ∧ run.value = .performed direct.value.1 direct.value.2
  | .queryCapabilities =>
    let amplitude := supportsAmplitudeControl.run device st
    let external := supportsExternalControl.run device amplitude.state
    run.calls = amplitude.calls ++ external.calls ∧ run.state = external.state ∧
      run.value = .capabilities amplitude.value external.value ∧ run.value.code = .ok

theorem dispatches (command : Command) : c.Dispatches device st command := by
  cases command with
  | on ms | off | setAmplitude a | setExternalControl b =>
    simp only [Dispatches, handle, ← map_eq_pure_bind]
    exact Run.follows_map device (fun _ => rfl) st
  | perform e s =>
    refine ⟨?_, ?_, ?_, ?_⟩
    · rw [handle_perform_eq_map, perform_eq_map, Functor.map_map]
      refine Run.follows_map device (fun x => ?_) st
      cases x <;> rfl
    all_goals rw [handle_perform_eq_map, Program.run_map]
  | queryCapabilities =>
    refine ⟨?_, ?_, ?_, ?_⟩ <;>
      simp only [handle, Program.run_bind, Program.run_pure, List.append_nil, Outcome.code]

end Controller

/-- Every request is read back from its text. Of all integers, an amplitude can be those of a byte
and a duration those of a word, and the request carries the very integer, in whichever order the
text has the two fields. The controller makes the calls of the operation that a request names,
leaves the state that this leaves, and reports success exactly if it succeeds. -/
theorem Command.wire_format :
    (∀ command : Command, ofText? command.text = some command) ∧
    (∀ (z : Int) (nameFirst : Bool),
      ((ofText? (integerText "set_amplitude" "amplitude" z nameFirst)).isSome ↔
        0 ≤ z ∧ z ≤ 255) ∧
      ∀ command, ofText? (integerText "set_amplitude" "amplitude" z nameFirst) = some command ↔
        ∃ a : UInt8, (a.toNat : Int) = z ∧ setAmplitude a = command) ∧
    (∀ (z : Int) (nameFirst : Bool),
      ((ofText? (integerText "on" "duration_ms" z nameFirst)).isSome ↔ 0 ≤ z ∧ z < 2 ^ 32) ∧
      ∀ command, ofText? (integerText "on" "duration_ms" z nameFirst) = some command ↔
        ∃ ms : UInt32, (ms.toNat : Int) = z ∧ on ms = command) ∧
    ∀ {σ : Type} (c : Controller) (device : Device σ) (st : σ) (command : Command),
      c.Dispatches device st command := by
  refine ⟨ofText?_text, ?_, ?_, fun c => c.dispatches⟩
  · intro z nameFirst
    refine ⟨?_, fun command => ofText?_setAmplitude z nameFirst⟩
    simp only [Option.isSome_iff_exists, ofText?_setAmplitude]
    constructor
    · rintro ⟨_, a, rfl, -⟩
      have ha := a.toNat_lt
      omega
    · intro hz
      have hl : z.toNat < UInt8.size := show z.toNat < 256 by omega
      exact ⟨_, .ofNatLT z.toNat hl, Int.toNat_of_nonneg hz.1, rfl⟩
  · intro z nameFirst
    refine ⟨?_, fun command => ofText?_on z nameFirst⟩
    simp only [Option.isSome_iff_exists, ofText?_on]
    constructor
    · rintro ⟨_, ms, rfl, -⟩
      have hm := ms.toNat_lt
      omega
    · intro hz
      have hl : z.toNat < UInt32.size := show z.toNat < 2 ^ 32 by omega
      exact ⟨_, .ofNatLT z.toNat hl, Int.toNat_of_nonneg hz.1, rfl⟩

/-- The number 256 does not become the amplitude 0. -/
example : Command.ofText? "\x7b\"amplitude\":256,\"command\":\"set_amplitude\"\x7d" = none := by
  decide +kernel

end Rumble
