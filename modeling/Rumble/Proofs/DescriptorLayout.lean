import Rumble.Proofs.Admission
import Rumble.Proofs.JsonGrammar

namespace Rumble

theorem Effect.name_of_ofName? {s : String} {e : Effect} (h : ofName? s = some e) : e.name = s := by
  simpa using List.find?_some h

theorem Effect.name_injective : Function.Injective Effect.name := fun e e' h =>
  Option.some.inj (e.ofName?_name ▸ e'.ofName?_name ▸ congrArg ofName? h)

namespace Json

/-- A value, or an object whose members come in another order. -/
inductive Reordered : Json → Json → Prop
  | same (v : Json) : Reordered v v
  | object {fields fields' : List (Option String × Json)} (h : fields'.Perm fields) :
    Reordered (object fields) (object fields')

/-! ### Fields -/

theorem only?_eq_some_iff {key : String} {members : List (Option String × Json)} {v : Json} :
    only? key members = some v ↔ members.filter (·.1 = some key) = [(some key, v)] := by
  unfold only?
  split
  · next k w hs =>
    have hk : k = some key := by
      have hm : (k, w) ∈ members.filter (·.1 = some key) := hs ▸ List.mem_singleton_self _
      simpa using (List.mem_filter.mp hm).2
    rw [hs, hk]
    simp
  · next hn => exact iff_of_false (by simp) (hn _ _)

section

variable {fields fields' : List (Option String × Json)} (h : fields'.Perm fields)
include h

theorem only?_perm (key : String) : only? key fields' = only? key fields := by
  have hf := h.filter (·.1 = some key)
  apply Option.ext
  intro v
  rw [only?_eq_some_iff, only?_eq_some_iff]
  constructor
  · intro hs
    exact List.perm_singleton.mp (hs ▸ hf.symm)
  · intro hs
    exact List.perm_singleton.mp (hs ▸ hf)

theorem fields?_perm (names : List String) :
    (object fields').fields? names = (object fields).fields? names := by
  rw [fields?, fields?, funext (only?_perm h)]

theorem depth_object_perm : (object fields').depth = (object fields).depth := by
  rw [depth_object, depth_object, (h.map _).foldr_eq]

end

theorem Reordered.isReadable_iff {v v' : Json} (h : Reordered v v') (limit : Nat) :
    v'.IsReadable limit ↔ v.IsReadable limit := by
  cases h with
  | same => rfl
  | object h =>
    simp only [IsReadable, forall_mem_isSound_object, depth_object_perm h, h.mem_iff]

end Json

namespace Entry

theorem ofJson?_perm {fields fields' : List (Option String × Json)} (h : fields'.Perm fields) :
    ofJson? (.object fields') = ofJson? (.object fields) := by
  -- Each kind reads its fields by their names from what is left without the kind.
  have hr := Json.fields?_perm (h.filter (·.1 ≠ some "kind"))
  rw [ofJson?, ofJson?, Json.tagged?, Json.tagged?, Json.only?_perm h]
  cases Json.only? "kind" fields with
  | none => rfl
  | some v =>
    cases hv : v.text? with
    | none => simp [hv]
    | some name =>
      simp only [hv, Option.bind_eq_bind, Option.bind_some, Option.pure_def]
      split <;> simp_all [simpleOfJson?, compoundOfJson?, ringtoneOfJson?]

theorem ofJson?_reordered {v v' : Json} (h : Json.Reordered v v') : ofJson? v' = ofJson? v := by
  cases h with
  | same => rfl
  | object h => exact ofJson?_perm h

/-- The text of an entry reads as one in its place: its strings and numbers denote something, it is
not nested too deep, and it describes an entry. -/
def IsWellFormed (v : Json) : Prop :=
  v.IsReadable (Json.nestingLimit - 1) ∧ (ofJson? v).isSome

instance (v : Json) : Decidable (IsWellFormed v) := inferInstanceAs (Decidable (_ ∧ _))

theorem isWellFormed_toJson (entry : Entry) : IsWellFormed entry.toJson :=
  ⟨entry.isWritable_toJson.isReadable (by decide), by rw [ofJson?_toJson, Option.isSome_some]⟩

end Entry

namespace Catalog

/-! ### What a descriptor means -/

def effectOf? (m : Option String × Json) : Option Effect := m.1.bind Effect.ofName?

theorem entryOfMember?_eq (m : Option String × Json) :
    entryOfMember? m = (effectOf? m).bind fun e => (Entry.ofJson? m.2).map (e, ·) := by
  obtain ⟨key, v⟩ := m
  cases key with
  | none => rfl
  | some k =>
    rw [entryOfMember?, effectOf?]
    cases Entry.ofJson? v <;> rfl

/-- A member whose key names an effect and whose value is a well-formed entry. -/
def IsGood (m : Option String × Json) : Prop := (effectOf? m).isSome ∧ Entry.IsWellFormed m.2

instance (m : Option String × Json) : Decidable (IsGood m) := inferInstanceAs (Decidable (_ ∧ _))

theorem isGood_iff {m : Option String × Json} : IsGood m ↔
    (m.1.isSome ∧ m.2.IsReadable (Json.nestingLimit - 1)) ∧ (entryOfMember? m).isSome := by
  have hk : (effectOf? m).isSome → m.1.isSome := fun h => by
    cases hm : m.1 with
    | none => simp [effectOf?, hm] at h
    | some k => rfl
  have he : (entryOfMember? m).isSome ↔ (effectOf? m).isSome ∧ (Entry.ofJson? m.2).isSome := by
    rw [entryOfMember?_eq]
    cases effectOf? m <;> simp
  rw [he, IsGood, Entry.IsWellFormed]
  tauto

/-- The entries of a descriptor are those of its members, if all of these are good; else it is
malformed. -/
theorem ofDescriptor_of_isText {members : List (Option String × Json)} {s : String}
    (h : (Json.object members).IsText s) : ofDescriptor s =
      if ∀ m ∈ members, IsGood m then ofEntries (members.filterMap entryOfMember?)
      else .error .malformed := by
  have hr : (Json.object members).IsReadable Json.nestingLimit ↔
      ∀ m ∈ members, m.1.isSome ∧ m.2.IsReadable (Json.nestingLimit - 1) := Json.isReadable_object
  have hg : (∀ m ∈ members, IsGood m) ↔ (Json.object members).IsReadable Json.nestingLimit ∧
      ∀ m ∈ members, (entryOfMember? m).isSome := by
    rw [hr, ← forall₂_and]
    simp only [isGood_iff]
  rw [ofDescriptor, h.parse?_eq]
  by_cases hv : (Json.object members).IsReadable Json.nestingLimit
  · rw [if_pos hv, Option.bind_some, entriesOfJson?]
    by_cases hm : ∀ m ∈ members, (entryOfMember? m).isSome
    · rw [if_pos (hg.mpr ⟨hv, hm⟩), Json.mapM_eq_some_iff.mpr ⟨hm, rfl⟩]
    · have hn : members.mapM entryOfMember? = none :=
        Option.eq_none_iff_forall_ne_some.mpr fun es hs => hm (Json.mapM_eq_some_iff.mp hs).1
      rw [if_neg fun h => hm (hg.mp h).2, hn]
  · rw [if_neg hv, if_neg fun h => hv (hg.mp h).1]
    rfl

/-! ### Order -/

/-- The members in another order, each value reordered. -/
def Rearranged (members members' : List (Option String × Json)) : Prop :=
  ∃ between, List.Forall₂ (fun m m' => m'.1 = m.1 ∧ Json.Reordered m.2 m'.2) members between ∧
    members'.Perm between

theorem entryOfMember?_reordered {m m' : Option String × Json} (hk : m'.1 = m.1)
    (hv : Json.Reordered m.2 m'.2) : entryOfMember? m' = entryOfMember? m := by
  rw [entryOfMember?_eq, entryOfMember?_eq, effectOf?, effectOf?, hk, Entry.ofJson?_reordered hv]

theorem isGood_reordered {m m' : Option String × Json} (hk : m'.1 = m.1)
    (hv : Json.Reordered m.2 m'.2) : IsGood m' ↔ IsGood m := by
  rw [IsGood, IsGood, effectOf?, effectOf?, hk, Entry.IsWellFormed, Entry.IsWellFormed,
    hv.isReadable_iff, Entry.ofJson?_reordered hv]

theorem Rearranged.forall_isGood_iff {members members' : List (Option String × Json)}
    (h : Rearranged members members') : (∀ m ∈ members', IsGood m) ↔ ∀ m ∈ members, IsGood m := by
  obtain ⟨between, hf, hp⟩ := h
  simp only [hp.mem_iff]
  clear hp
  induction hf with
  | nil => rfl
  | cons hm _ ih =>
    rw [List.forall_mem_cons, List.forall_mem_cons, isGood_reordered hm.1 hm.2, ih]

theorem Rearranged.perm_entries {members members' : List (Option String × Json)}
    (h : Rearranged members members') :
    (members'.filterMap entryOfMember?).Perm (members.filterMap entryOfMember?) := by
  obtain ⟨between, hf, hp⟩ := h
  have he : between.filterMap entryOfMember? = members.filterMap entryOfMember? := by
    clear hp
    induction hf with
    | nil => rfl
    | cons hm _ ih =>
      rw [List.filterMap_cons, List.filterMap_cons, entryOfMember?_reordered hm.1 hm.2, ih]
  exact he ▸ hp.filterMap entryOfMember?

theorem nodup_effects {members : List (Option String × Json)}
    (h : (members.filterMap effectOf?).Nodup) :
    ((members.filterMap entryOfMember?).map Prod.fst).Nodup := by
  refine h.sublist ?_
  clear h
  induction members with
  | nil => exact .slnil
  | cons m ms ih =>
    rw [List.filterMap_cons, List.filterMap_cons, entryOfMember?_eq]
    cases effectOf? m with
    | none => exact ih
    | some e =>
      cases Entry.ofJson? m.2 with
      | none => exact ih.cons e
      | some entry => exact ih.cons_cons e

theorem ofDescriptor_rearranged {members members' : List (Option String × Json)} {s s' : String}
    (h : (Json.object members).IsText s) (h' : (Json.object members').IsText s')
    (hn : (members.filterMap effectOf?).Nodup) (hr : Rearranged members members') :
    ofDescriptor s' = ofDescriptor s := by
  rw [ofDescriptor_of_isText h, ofDescriptor_of_isText h',
    ofEntries_congr (filter_eq_of_perm hr.perm_entries (nodup_effects hn))]
  exact if_congr hr.forall_isGood_iff rfl rfl

/-! ### Repeated keys -/

theorem forall_isGood_lastOnly {members : List (Option String × Json)}
    (h : ∀ m ∈ members, Entry.IsWellFormed m.2) :
    (∀ m ∈ lastOnly members, IsGood m) ↔ ∀ m ∈ members, IsGood m := by
  constructor
  · intro hl m hm
    -- The key of each member is that of one that is kept.
    have hk := mem_map_fst_lastOnly.mpr (List.mem_map_of_mem hm)
    obtain ⟨n, hn, he⟩ := List.mem_map.mp hk
    refine ⟨?_, h m hm⟩
    rw [effectOf?, ← he]
    exact (hl n hn).1
  · intro hg m hm
    exact hg m ((lastOnly_sublist members).subset hm)

theorem entries_lastOnly {members : List (Option String × Json)} (h : ∀ m ∈ members, IsGood m) :
    (lastOnly members).filterMap entryOfMember? = lastOnly (members.filterMap entryOfMember?) := by
  apply filterMap_lastOnly ((Option.some_injective String).comp Effect.name_injective)
  intro m hm
  obtain ⟨he, -, hv⟩ := h m hm
  obtain ⟨e, he⟩ := Option.isSome_iff_exists.mp he
  obtain ⟨entry, hv⟩ := Option.isSome_iff_exists.mp hv
  obtain ⟨k, hk, hf⟩ := Option.bind_eq_some_iff.mp he
  refine ⟨e, entry, ?_, ?_⟩
  · rw [entryOfMember?_eq, he, hv, Option.bind_some, Option.map_some]
  · rw [hk, Function.comp_apply, Effect.name_of_ofName? hf]

theorem ofDescriptor_lastOnly {members : List (Option String × Json)} {s s' : String}
    (h : (Json.object members).IsText s) (h' : (Json.object (lastOnly members)).IsText s')
    (hw : ∀ m ∈ members, Entry.IsWellFormed m.2) : ofDescriptor s' = ofDescriptor s := by
  rw [ofDescriptor_of_isText h, ofDescriptor_of_isText h']
  by_cases hg : ∀ m ∈ members, IsGood m
  · rw [if_pos hg, if_pos ((forall_isGood_lastOnly hw).mpr hg), entries_lastOnly hg]
    exact ofEntries_of_lastFor? fun e => lookup_reverse_lastOnly _ e
  · rw [if_neg hg, if_neg fun hl => hg ((forall_isGood_lastOnly hw).mp hl)]

/-- A descriptor is read independently of its layout, into the same catalog or the same error. White
space may stand between any two tokens or not, and all texts of one value read alike. If no two keys
name the same effect, the members may come in any order, and so may the fields of each. If a key is
repeated and every value is a well-formed entry, only the last member with this key counts. -/
theorem descriptor_layout :
    (∀ (v : Json) (ts us : List Json.Token) (front gap back : List Char), v.tokens = ts ++ us →
      Json.Token.IsLayout ts front → Json.Token.IsLayout us back →
      (∀ c ∈ gap, Json.Token.isSpace c) →
      ofDescriptor (.ofList (front ++ gap ++ back)) = ofDescriptor (.ofList (front ++ back))) ∧
    (∀ (v : Json) (s s' : String), v.IsText s → v.IsText s' → ofDescriptor s' = ofDescriptor s) ∧
    (∀ (members members' : List (Option String × Json)) (s s' : String),
      (Json.object members).IsText s → (Json.object members').IsText s' →
      (members.filterMap effectOf?).Nodup → Rearranged members members' →
      ofDescriptor s' = ofDescriptor s) ∧
    (∀ (members : List (Option String × Json)) (s s' : String),
      (Json.object members).IsText s → (Json.object (lastOnly members)).IsText s' →
      (∀ m ∈ members, Entry.IsWellFormed m.2) → ofDescriptor s' = ofDescriptor s) := by
  have hv (v : Json) (s s' : String) (h : v.IsText s) (h' : v.IsText s') :
      ofDescriptor s' = ofDescriptor s := by
    rw [ofDescriptor, ofDescriptor, h.parse?_eq, h'.parse?_eq]
  refine ⟨?_, hv, fun _ _ _ _ => ofDescriptor_rearranged, fun _ _ _ => ofDescriptor_lastOnly⟩
  intro v ts us front gap back hts hf hb hg
  apply hv v
  · rw [Json.IsText, hts, String.toList_ofList]
    exact hf.append hb
  · rw [Json.IsText, hts, String.toList_ofList, List.append_assoc]
    exact hf.append (hb.spaces hg)

/-- White space behind the first brace, the kinds of both entries behind other fields and the
members in another order, and a member that a later one replaces: all read as one catalog. White
space does not matter either to a text that is no object. -/
theorem descriptor_layout_of_kind_last :
    ofDescriptor "[ ]" = ofDescriptor "[]" ∧ ∃ c : Catalog,
      c.get? .click = some (.ringtone "a" 7) ∧ c.get? .tick = some (.ringtone "b" 8) ∧
      ofDescriptor
        ("\x7b \n\"click\":\x7b\"kind\":\"ringtone\",\"queue\":\"a\",\"duration_ms\":7\x7d," ++
        "\"tick\":\x7b\"kind\":\"ringtone\",\"queue\":\"b\",\"duration_ms\":8\x7d\x7d") = .ok c ∧
      ofDescriptor
        ("\x7b\"tick\":\x7b\"queue\":\"b\",\"duration_ms\":8,\"kind\":\"ringtone\"\x7d," ++
        "\"click\":\x7b\"queue\":\"a\",\"kind\":\"ringtone\",\"duration_ms\":7\x7d\x7d") = .ok c ∧
      ofDescriptor
        ("\x7b\"click\":\x7b\"kind\":\"ringtone\",\"queue\":\"b\",\"duration_ms\":9\x7d," ++
        "\"click\":\x7b\"kind\":\"ringtone\",\"queue\":\"a\",\"duration_ms\":7\x7d," ++
        "\"tick\":\x7b\"kind\":\"ringtone\",\"queue\":\"b\",\"duration_ms\":8\x7d\x7d") =
          .ok c := by
  obtain ⟨hgap, hsame, horder, hlast⟩ := descriptor_layout
  let c : Catalog := ⟨fun
    | .click => some (.ringtone "a" 7)
    | .tick => some (.ringtone "b" 8)
    | _ => none, by decide +kernel⟩
  let click : Option String × Json := (some "click", (Entry.ringtone "a" 7).toJson)
  let tick : Option String × Json := (some "tick", (Entry.ringtone "b" 8).toJson)
  let other : Option String × Json := (some "click", (Entry.ringtone "b" 9).toJson)
  let click' : Option String × Json := (some "click",
    .record [("queue", .ofString "a"), ("kind", .ofString "ringtone"), ("duration_ms", .ofWord 7)])
  let tick' : Option String × Json := (some "tick",
    .record [("queue", .ofString "b"), ("duration_ms", .ofWord 8), ("kind", .ofString "ringtone")])
  have hw : (Json.object [click, tick]).IsWritable 4 := c.isWritable_toJson
  have ht : (Json.object [click, tick]).IsText c.descriptor := hw.isText_render
  have hok : ofDescriptor c.descriptor = .ok c := ofDescriptor_descriptor c
  refine ⟨hsame (.array []) "[]" "[ ]" (.token .openBracket (.token .closeBracket .nil))
    (.token .openBracket (.space rfl (.token .closeBracket .nil))), c, rfl, rfl, ?_, ?_, ?_⟩
  · let rest := (Json.object [click, tick]).tokens.tail
    have hl : Json.Token.IsLayout rest (rest.flatMap Json.Token.text) :=
      Json.Token.isLayout_flatMap_text fun t ht => hw.isWritten t (List.mem_of_mem_tail ht)
    have h := (hgap (.object [click, tick]) [.openBrace] rest ['{'] [' ', '\n'] _ rfl
      (.token .openBrace .nil) hl (List.all_eq_true.mp rfl)).trans hok
    rw [← h]
    exact congrArg ofDescriptor (by decide +kernel)
  · have hw' : (Json.object [tick', click']).IsWritable 4 := by
      refine .object (by simp [tick', click']) ?_
      simp only [List.forall_mem_cons]
      refine ⟨Json.isWritable_record ?_, Json.isWritable_record ?_, List.forall_mem_nil _⟩ <;>
        simp [Json.ofString, Json.IsWritable.string, Json.isWritable_ofWord]
    have ho : Rearranged [click, tick] [tick', click'] := by
      refine ⟨[click', tick'], .cons ⟨rfl, .object ?_⟩ (.cons ⟨rfl, .object ?_⟩ .nil), .swap ..⟩
      · exact .swap ..
      · exact .trans (.cons _ (.swap ..)) (.swap ..)
    have h := (horder _ _ _ _ ht hw'.isText_render (by decide) ho).trans hok
    rw [← h]
    exact congrArg ofDescriptor (by decide +kernel)
  · have hw' : (Json.object [other, click, tick]).IsWritable 4 :=
      .object (by simp [other, click, tick]) (by simp [other, click, tick, Entry.isWritable_toJson])
    have hg : ∀ m ∈ [other, click, tick], Entry.IsWellFormed m.2 := by
      simp [other, click, tick, Entry.isWellFormed_toJson]
    have h := (hlast [other, click, tick] _ _ hw'.isText_render ht hg).symm.trans hok
    rw [← h]
    exact congrArg ofDescriptor (by decide +kernel)

end Catalog

end Rumble
