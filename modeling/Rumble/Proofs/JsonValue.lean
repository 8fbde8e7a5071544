import Rumble.Proofs.JsonText

namespace Rumble.Json

/-- What passes from the parts of a value to the value holds of all values. -/
@[elab_as_elim]
theorem induct {P : Json → Prop} (null : P .null) (bool : ∀ b, P (.bool b))
    (number : ∀ n, P (.number n)) (string : ∀ text, P (.string text))
    (array : ∀ items, (∀ v ∈ items, P v) → P (.array items))
    (object : ∀ members, (∀ m ∈ members, P m.2) → P (.object members)) : ∀ v, P v
  | .null => null
  | .bool b => bool b
  | .number n => number n
  | .string text => string text
  | .array items => array items fun v _ => induct null bool number string array object v
  | .object members => object members fun m hm =>
    have : sizeOf m.2 < sizeOf members := by
      have hs := List.sizeOf_lt_of_mem hm
      obtain ⟨k, v⟩ := m
      simp only [Prod.mk.sizeOf_spec] at hs ⊢
      omega
    induct null bool number string array object m.2

/-- Its strings denote texts, its numbers are integers in range, and its containers are nested at
most `depth` deep. -/
inductive IsWritable : Json → Nat → Prop where
  | null (depth : Nat) : IsWritable null depth
  | bool (b : Bool) (depth : Nat) : IsWritable (bool b) depth
  | number {n : Number} (hi : n.IsInteger) (hl : n.isTooLarge = false) (depth : Nat) :
    IsWritable (number n) depth
  | string (s : String) (depth : Nat) : IsWritable (string (some s)) depth
  | array {items : List Json} {depth : Nat} (h : ∀ v ∈ items, IsWritable v depth) :
    IsWritable (array items) (depth + 1)
  | object {members : List (Option String × Json)} {depth : Nat}
    (hk : ∀ m ∈ members, m.1.isSome) (h : ∀ m ∈ members, IsWritable m.2 depth) :
    IsWritable (object members) (depth + 1)

/-! ### Tokens -/

theorem tokens_array (items : List Json) : (array items).tokens =
    .openBracket :: ([.comma].intercalate (items.map tokens) ++ [.closeBracket]) := by
  have h (v : Json) (vs : List Json) : v.tokens ++ moreItemTokens vs =
      [.comma].intercalate ((v :: vs).map tokens) ++ [.closeBracket] := by
    induction vs generalizing v with
    | nil => rw [List.map_singleton, List.intercalate_singleton, moreItemTokens]
    | cons w ws ih =>
      rw [moreItemTokens, List.cons_append, ih w]
      simp only [List.map_cons, List.intercalate_cons_cons, List.append_assoc, List.cons_append,
        List.nil_append]
  cases items with
  | nil => rfl
  | cons v vs => rw [tokens, itemTokens, h v vs]

def pairTokens (m : Option String × Json) : List Token := .string m.1 :: .colon :: m.2.tokens

theorem tokens_object (members : List (Option String × Json)) : (object members).tokens =
    .openBrace :: ([.comma].intercalate (members.map pairTokens) ++ [.closeBrace]) := by
  have h (m : Option String × Json) (ms : List (Option String × Json)) :
      pairTokens m ++ moreMemberTokens ms =
        [.comma].intercalate ((m :: ms).map pairTokens) ++ [.closeBrace] := by
    induction ms generalizing m with
    | nil => rw [List.map_singleton, List.intercalate_singleton, moreMemberTokens]
    | cons n ns ih =>
      have hn : moreMemberTokens (n :: ns) = .comma :: (pairTokens n ++ moreMemberTokens ns) := rfl
      rw [hn, ih n]
      simp only [List.map_cons, List.intercalate_cons_cons, List.append_assoc, List.cons_append,
        List.nil_append]
  cases members with
  | nil => rfl
  | cons m ms =>
    rw [← h m ms]
    rfl

theorem forall_mem_intercalate {P : Token → Prop} {sep : Token} (hs : P sep)
    {parts : List (List Token)} :
    (∀ t ∈ [sep].intercalate parts, P t) ↔ ∀ part ∈ parts, ∀ t ∈ part, P t := by
  induction parts with
  | nil => simp
  | cons part parts ih =>
    cases parts with
    | nil => rw [List.intercalate_singleton, List.forall_mem_singleton]
    | cons q qs =>
      rw [List.intercalate_cons_cons, List.forall_mem_append, List.forall_mem_append,
        List.forall_mem_singleton, ih, and_iff_left hs]
      exact (List.forall_mem_cons (p := fun part => ∀ t ∈ part, P t)).symm

variable {P : Token → Prop}

theorem forall_mem_tokens_array (ho : P .openBracket) (hs : P .comma) (hc : P .closeBracket)
    {items : List Json} :
    (∀ t ∈ (array items).tokens, P t) ↔ ∀ v ∈ items, ∀ t ∈ v.tokens, P t := by
  rw [tokens_array, List.forall_mem_cons, List.forall_mem_append, List.forall_mem_singleton,
    forall_mem_intercalate hs, List.forall_mem_map, and_iff_right ho, and_iff_left hc]

theorem forall_mem_tokens_object (ho : P .openBrace) (hk : P .colon) (hs : P .comma)
    (hc : P .closeBrace) {members : List (Option String × Json)} :
    (∀ t ∈ (object members).tokens, P t) ↔
      ∀ m ∈ members, P (.string m.1) ∧ ∀ t ∈ m.2.tokens, P t := by
  rw [tokens_object, List.forall_mem_cons, List.forall_mem_append, List.forall_mem_singleton,
    forall_mem_intercalate hs, List.forall_mem_map, and_iff_right ho, and_iff_left hc]
  simp only [pairTokens, List.forall_mem_cons, and_iff_right hk]

theorem IsWritable.isWritten {v : Json} {depth : Nat} (h : v.IsWritable depth) :
    ∀ t ∈ v.tokens, t.IsWritten := by
  induction h with
  | null | bool | string => simp [tokens, Token.IsWritten]
  | number hi hl => exact List.forall_mem_singleton.mpr ⟨hi, hl⟩
  | array _ ih => exact (forall_mem_tokens_array trivial trivial trivial).mpr ih
  | object hk _ ih =>
    rw [forall_mem_tokens_object trivial trivial trivial trivial]
    exact fun m hm => ⟨hk m hm, ih m hm⟩

/-! ### Nesting -/

namespace Token

/-- How deep containers are nested after a token, and how deep at most so far. -/
def nest : Nat × Nat → Token → Nat × Nat := fun (deep, most) t =>
  match t with
  | openBrace | openBracket => (deep + 1, max most (deep + 1))
  | closeBrace | closeBracket => (deep - 1, most)
  | _ => (deep, most)

theorem nesting_eq (ts : List Token) : nesting ts = (ts.foldl nest (0, 0)).2 := rfl

/-- Closes what it opens, and goes `depth` deep wherever it stands. -/
def Nests (depth : Nat) (ts : List Token) : Prop :=
  ∀ deep most, deep ≤ most → ts.foldl nest (deep, most) = (deep, max most (deep + depth))

theorem Nests.nesting_eq {depth : Nat} {ts : List Token} (h : Nests depth ts) :
    nesting ts = depth := by
  rw [Token.nesting_eq, h 0 0 le_rfl, Nat.zero_add, Nat.zero_max]

theorem nests_nil : Nests 0 [] := fun _ _ h => by
  rw [List.foldl_nil, Nat.add_zero, max_eq_left h]

theorem nests_singleton {t : Token} (h : ∀ p, nest p t = p) : Nests 0 [t] := fun deep most hm => by
  rw [List.foldl_cons, h, nests_nil deep most hm]

theorem Nests.append {d e : Nat} {ts us : List Token} (ht : Nests d ts) (hu : Nests e us) :
    Nests (max d e) (ts ++ us) := by
  intro deep most h
  rw [List.foldl_append, ht deep most h, hu deep _ (by omega)]
  congr 1
  omega

theorem Nests.enclose {o c : Token} (ho : ∀ p, nest p o = (p.1 + 1, max p.2 (p.1 + 1)))
    (hc : ∀ p, nest p c = (p.1 - 1, p.2)) {depth : Nat} {ts : List Token} (h : Nests depth ts) :
    Nests (depth + 1) (o :: (ts ++ [c])) := by
  intro deep most hm
  rw [List.foldl_cons, ho, List.foldl_append, h _ _ (by omega), List.foldl_cons, hc,
    List.foldl_nil, Nat.add_sub_cancel]
  congr 1
  omega

theorem nests_intercalate {α : Type} {sep : Token} (hs : ∀ p, nest p sep = p)
    {part : α → List Token} {d : α → Nat} {xs : List α} (h : ∀ x ∈ xs, Nests (d x) (part x)) :
    Nests ((xs.map d).foldr max 0) ([sep].intercalate (xs.map part)) := by
  induction xs with
  | nil => exact nests_nil
  | cons x xs ih =>
    obtain ⟨hx, h⟩ := List.forall_mem_cons.mp h
    have hi := ih h
    cases xs with
    | nil =>
      rw [List.map_singleton, List.map_singleton, List.intercalate_singleton, List.foldr_cons,
        List.foldr_nil, Nat.max_zero]
      exact hx
    | cons y ys =>
      have hj := (hx.append (nests_singleton hs)).append hi
      rw [Nat.max_zero] at hj
      simp only [List.map_cons, List.foldr_cons, List.intercalate_cons_cons] at hj ⊢
      exact hj

end Token

open Token

def depth (v : Json) : Nat := nesting v.tokens

theorem nests_array {items : List Json} (h : ∀ v ∈ items, Nests v.depth v.tokens) :
    Nests ((items.map depth).foldr max 0 + 1) (array items).tokens := by
  rw [tokens_array]
  exact (nests_intercalate (fun _ => rfl) h).enclose (fun _ => rfl) (fun _ => rfl)

theorem nests_object {members : List (Option String × Json)}
    (h : ∀ m ∈ members, Nests m.2.depth m.2.tokens) :
    Nests ((members.map (·.2.depth)).foldr max 0 + 1) (object members).tokens := by
  rw [tokens_object]
  refine (nests_intercalate (fun _ => rfl) ?_).enclose (fun _ => rfl) (fun _ => rfl)
  intro m hm
  have hk : Nests 0 [.string m.1, .colon] :=
    (nests_singleton fun _ => rfl).append (nests_singleton fun _ => rfl)
  have hj := hk.append (h m hm)
  rwa [Nat.zero_max] at hj

theorem nests_tokens (v : Json) : Nests v.depth v.tokens := by
  induction v using induct with
  | null | bool | number | string => exact nests_singleton fun _ => rfl
  | array items ih =>
    have h := nests_array ih
    rwa [← h.nesting_eq] at h
  | object members ih =>
    have h := nests_object ih
    rwa [← h.nesting_eq] at h

theorem foldr_max_le_iff {α : Type} {f : α → Nat} {xs : List α} {n : Nat} :
    (xs.map f).foldr max 0 ≤ n ↔ ∀ x ∈ xs, f x ≤ n := by
  induction xs with
  | nil => simp
  | cons x xs ih => rw [List.map_cons, List.foldr_cons, max_le_iff, ih, List.forall_mem_cons]

theorem depth_array (items : List Json) :
    (array items).depth = (items.map depth).foldr max 0 + 1 :=
  (nests_array fun v _ => v.nests_tokens).nesting_eq

theorem depth_object (members : List (Option String × Json)) :
    (object members).depth = (members.map (·.2.depth)).foldr max 0 + 1 :=
  (nests_object fun m _ => m.2.nests_tokens).nesting_eq

theorem IsWritable.depth_le {v : Json} {depth : Nat} (h : v.IsWritable depth) :
    v.depth ≤ depth := by
  induction h with
  | null | bool | string | number => exact Nat.zero_le _
  | array _ ih =>
    rw [depth_array, Nat.add_le_add_iff_right, foldr_max_le_iff]
    exact ih
  | object _ _ ih =>
    rw [depth_object, Nat.add_le_add_iff_right, foldr_max_le_iff]
    exact ih

/-! ### Reading -/

/-- The machine reads the tokens of the value as the value, wherever one may stand. -/
def Reads (v : Json) : Prop :=
  ∀ stack, v.tokens.foldlM State.step (.value stack) = some (State.deliver v stack)

theorem foldlM_step_cons {s s' : State} {t : Token} (h : s.step t = some s') (ts : List Token) :
    (t :: ts).foldlM State.step s = ts.foldlM State.step s' := by
  rw [List.foldlM_cons, h]
  rfl

theorem foldlM_step_append {s s' : State} {ts : List Token} (h : ts.foldlM State.step s = some s')
    (us : List Token) : (ts ++ us).foldlM State.step s = us.foldlM State.step s' := by
  rw [List.foldlM_append, h]
  rfl

theorem foldlM_moreItemTokens {vs : List Json} (h : ∀ v ∈ vs, Reads v) (items : List Json)
    (stack : List Frame) : (moreItemTokens vs).foldlM State.step (.afterItem items stack) =
      some (State.deliver (.array (items.reverse ++ vs)) stack) := by
  induction vs generalizing items with
  | nil =>
    rw [List.append_nil]
    rfl
  | cons v vs ih =>
    have hv := h v List.mem_cons_self (.array items :: stack)
    have hs := ih (fun w hw => h w (List.mem_cons_of_mem v hw)) (v :: items)
    rw [moreItemTokens, List.cons_append, foldlM_step_cons rfl, foldlM_step_append hv]
    rw [List.reverse_cons, List.append_assoc] at hs
    exact hs

theorem foldlM_moreMemberTokens {ms : List (Option String × Json)} (h : ∀ m ∈ ms, Reads m.2)
    (members : List (Option String × Json)) (stack : List Frame) :
    (moreMemberTokens ms).foldlM State.step (.afterMember members stack) =
      some (State.deliver (.object (members.reverse ++ ms)) stack) := by
  induction ms generalizing members with
  | nil =>
    rw [List.append_nil]
    rfl
  | cons m ms ih =>
    have hv := h m List.mem_cons_self (.object members m.1 :: stack)
    have hs := ih (fun n hn => h n (List.mem_cons_of_mem m hn)) (m :: members)
    rw [moreMemberTokens, List.cons_append, List.cons_append, List.cons_append,
      foldlM_step_cons rfl, foldlM_step_cons rfl, foldlM_step_cons rfl, foldlM_step_append hv]
    rw [List.reverse_cons, List.append_assoc] at hs
    exact hs

/-- No value starts with a closing bracket, so any value may stand first in an array. -/
theorem foldlM_firstItem (v : Json) (stack : List Frame) (ts : List Token) :
    (v.tokens ++ ts).foldlM State.step (.firstItem stack) =
      (v.tokens ++ ts).foldlM State.step (.value (.array [] :: stack)) := by
  cases v <;> rfl

theorem reads (v : Json) : Reads v := by
  induction v using induct with
  | null | bool | number | string => exact fun _ => rfl
  | array items ih =>
    -- The first item is read in a state of its own, the others behind commas.
    intro stack
    cases items with
    | nil => rfl
    | cons v vs =>
      have hv := ih v List.mem_cons_self (.array [] :: stack)
      rw [tokens, itemTokens, foldlM_step_cons rfl, foldlM_firstItem, foldlM_step_append hv]
      exact foldlM_moreItemTokens (fun w hw => ih w (List.mem_cons_of_mem v hw)) [v] stack
  | object members ih =>
    intro stack
    cases members with
    | nil => rfl
    | cons m ms =>
      have hv := ih m List.mem_cons_self (.object [] m.1 :: stack)
      rw [tokens, memberTokens, List.cons_append, List.cons_append, foldlM_step_cons rfl,
        foldlM_step_cons rfl, foldlM_step_cons rfl, foldlM_step_append hv]
      exact foldlM_moreMemberTokens (fun n hn => ih n (List.mem_cons_of_mem m hn)) [m] stack

theorem ofTokens?_tokens (v : Json) : ofTokens? v.tokens = some v := by
  rw [ofTokens?, v.reads]
  rfl

theorem State.step_deliver_number (v : Json) (stack : List Frame) (n : Number) :
    (deliver v stack).step (.number n) = none := by
  cases stack with
  | nil => rfl
  | cons frame stack => cases frame <;> rfl

theorem State.step_number {s s' : State} {n : Number} (h : s.step (.number n) = some s')
    (n' : Number) : s'.step (.number n') = none := by
  cases s with
  | value stack | firstItem stack =>
    rw [← Option.some.inj h]
    exact step_deliver_number _ _ n'
  | _ => cases h

theorem ends_of_isLayout {ts : List Token} {cs : List Char} (hl : IsLayout ts cs) {s s₁ s' : State}
    {n : Number} (h : s.step (.number n) = some s₁) (hs : ts.foldlM State.step s₁ = some s') :
    Number.Ends cs := by
  apply hl.ends
  rintro t ht
  cases ts with
  | nil => cases ht
  | cons u us =>
    obtain rfl : u = t := Option.some.inj ht
    cases u with
    | number n' =>
      rw [List.foldlM_cons, State.step_number h n'] at hs
      cases hs
    | _ => rfl

/-- A text is cut into the tokens that it is laid out from, if the machine reads them. -/
theorem lex_of_isLayout {ts : List Token} {cs : List Char} (h : IsLayout ts cs) {s s' : State}
    (hs : ts.foldlM State.step s = some s') : lex cs = some ts := by
  induction h generalizing s with
  | nil => rw [lex]
  | space hc _ ih => rw [lex, if_pos hc, ih hs]
  | @token t text ts cs ht h ih =>
    obtain ⟨s₁, h₁, h₂⟩ := Option.bind_eq_some_iff.mp hs
    -- Two numbers in a row would be cut off as one, but the machine never lets them meet.
    have hn : t.isNumber → Number.Ends cs := by
      intro hn
      cases t with
      | number n => exact ends_of_isLayout h h₁ h₂
      | _ => cases hn
    rw [lex_append ht hn, ih h₂, Option.map_some]

/-! ### Texts -/

/-- The text consists of the tokens of the value, spelled and laid out in any way. -/
def IsText (v : Json) (s : String) : Prop := IsLayout v.tokens s.toList

theorem IsText.lex_eq {v : Json} {s : String} (h : v.IsText s) : lex s.toList = some v.tokens :=
  lex_of_isLayout h (v.reads [])

theorem IsText.outline?_eq {v : Json} {s : String} (h : v.IsText s) : outline? s = some v := by
  rw [outline?, h.lex_eq, Option.bind_some, ofTokens?_tokens]

/-- Its strings denote texts, its numbers are in range, and its containers are nested at most
`limit` deep. -/
def IsReadable (limit : Nat) (v : Json) : Prop := (∀ t ∈ v.tokens, t.isSound) ∧ v.depth ≤ limit

instance (limit : Nat) (v : Json) : Decidable (v.IsReadable limit) :=
  inferInstanceAs (Decidable (_ ∧ _))

theorem IsText.parse?_eq {v : Json} {s : String} (h : v.IsText s) :
    parse? s = if v.IsReadable nestingLimit then some v else none := by
  rw [parse?, h.lex_eq, Option.bind_eq_bind, Option.bind_some, ofTokens?_tokens]
  apply if_congr _ rfl rfl
  rw [Bool.and_eq_true, List.all_eq_true, decide_eq_true_iff]
  rfl

theorem forall_mem_isSound_object {members : List (Option String × Json)} :
    (∀ t ∈ (object members).tokens, t.isSound) ↔
      ∀ m ∈ members, m.1.isSome ∧ ∀ t ∈ m.2.tokens, t.isSound :=
  forall_mem_tokens_object (P := fun t => t.isSound) rfl rfl rfl rfl

theorem isReadable_object {members : List (Option String × Json)} {n : Nat} :
    (object members).IsReadable (n + 1) ↔ ∀ m ∈ members, m.1.isSome ∧ m.2.IsReadable n := by
  rw [IsReadable, forall_mem_isSound_object, depth_object, Nat.add_le_add_iff_right,
    foldr_max_le_iff, ← forall₂_and]
  simp only [IsReadable, and_assoc]

theorem IsWritable.isText_render {v : Json} {depth : Nat} (h : v.IsWritable depth) :
    v.IsText v.render := by
  rw [IsText, render, String.toList_ofList]
  exact isLayout_flatMap_text h.isWritten

/-- What is written of a value is one line. -/
theorem IsWritable.not_control {v : Json} {depth : Nat} (h : v.IsWritable depth) {c : Char}
    (hc : c ∈ v.render.toList) : ¬c.toNat < 0x20 := by
  rw [render, String.toList_ofList] at hc
  obtain ⟨t, ht, hc⟩ := List.mem_flatMap.mp hc
  exact not_control_of_mem_text (h.isWritten t ht) hc

theorem IsWritable.isReadable {v : Json} {depth limit : Nat} (h : v.IsWritable depth)
    (hd : depth ≤ limit) : v.IsReadable limit :=
  ⟨fun t ht => (h.isWritten t ht).isSound, h.depth_le.trans hd⟩

theorem parse?_render {v : Json} {depth : Nat} (h : v.IsWritable depth)
    (hd : depth ≤ nestingLimit) : parse? v.render = some v := by
  rw [h.isText_render.parse?_eq, if_pos (h.isReadable hd)]

/-- The shape of a text is known at any depth. -/
theorem outline?_render {v : Json} {depth : Nat} (h : v.IsWritable depth) :
    outline? v.render = some v := h.isText_render.outline?_eq

end Rumble.Json
