import Mathlib.Data.List.Nodup

namespace Rumble

variable {α β : Type}

/-- The last pair with the key `a` has the value `b`. -/
def IsLast (pairs : List (α × β)) (a : α) (b : β) : Prop :=
  ∃ front back, pairs = front ++ (a, b) :: back ∧ ∀ pair ∈ back, pair.1 ≠ a

theorem isLast_filterMap_iff {γ : Type} {f : γ → Option (α × β)} {xs : List γ} {a : α} {b : β} :
    IsLast (xs.filterMap f) a b ↔ ∃ before x after, xs = before ++ x :: after ∧
      f x = some (a, b) ∧ ∀ y ∈ after, ∀ b', f y ≠ some (a, b') := by
  constructor
  · rintro ⟨front, back, h, hn⟩
    obtain ⟨before, rest, rfl, rfl, hr⟩ := List.filterMap_eq_append_iff.mp h
    obtain ⟨between, x, after, rfl, -, hx, rfl⟩ := List.filterMap_eq_cons_iff.mp hr
    refine ⟨before ++ between, x, after, (List.append_assoc ..).symm, hx, ?_⟩
    intro y hy b' hb
    exact hn (a, b') (List.mem_filterMap.mpr ⟨y, hy, hb⟩) rfl
  · rintro ⟨before, x, after, rfl, hx, hn⟩
    refine ⟨before.filterMap f, after.filterMap f, ?_, ?_⟩
    · rw [List.filterMap_append, List.filterMap_cons_some hx]
    · rintro ⟨a', b'⟩ hp rfl
      obtain ⟨y, hy, hb⟩ := List.mem_filterMap.mp hp
      exact hn y hy b' hb

section

variable [BEq α] [LawfulBEq α]

theorem lookup_reverse_eq_some_iff {pairs : List (α × β)} {a : α} {b : β} :
    pairs.reverse.lookup a = some b ↔ IsLast pairs a b := by
  rw [List.lookup_eq_some_iff]
  constructor
  · rintro ⟨back, front, h, hn⟩
    refine ⟨front.reverse, back.reverse, ?_, ?_⟩
    · rw [← List.reverse_inj, h]
      simp
    · intro pair hp
      exact (bne_iff_ne.mp (hn pair (List.mem_reverse.mp hp))).symm
  · rintro ⟨front, back, rfl, hn⟩
    refine ⟨back.reverse, front.reverse, by simp, ?_⟩
    intro pair hp
    exact bne_iff_ne.mpr (hn pair (List.mem_reverse.mp hp)).symm

theorem lookup_reverse_eq_none_iff {pairs : List (α × β)} {a : α} :
    pairs.reverse.lookup a = none ↔ ∀ b, (a, b) ∉ pairs := by
  rw [List.lookup_eq_none_iff]
  constructor
  · intro h b hm
    exact bne_iff_ne.mp (h (a, b) (List.mem_reverse.mpr hm)) rfl
  · rintro h ⟨a', b⟩ hm
    rw [bne_iff_ne]
    rintro rfl
    exact h b (List.mem_reverse.mp hm)

theorem lookup_reverse_of_forall_ne {pairs : List (α × β)} {a : α}
    (h : ∀ pair ∈ pairs, pair.1 ≠ a) : pairs.reverse.lookup a = none :=
  lookup_reverse_eq_none_iff.mpr fun b hm => h (a, b) hm rfl

theorem lookup_filterMap [DecidableEq α] (get? : α → Option β) (xs : List α) (a : α) :
    (xs.filterMap fun x => (get? x).map (x, ·)).lookup a = if a ∈ xs then get? a else none := by
  induction xs with
  | nil => rfl
  | cons x xs ih =>
    rw [List.filterMap_cons]
    by_cases hx : a = x
    · subst hx
      cases hg : get? a with
      | none => simp [ih, hg]
      | some b => simp
    · have hb : (a == x) = false := beq_eq_false_iff_ne.mpr hx
      cases get? x <;> simp [List.lookup_cons, hb, ih, hx]

/-- A list that has all keys gives back the whole map, whichever of several pairs counts. -/
theorem lookup_reverse_filterMap [DecidableEq α] (get? : α → Option β) {xs : List α}
    (h : ∀ a, a ∈ xs) (a : α) :
    (xs.filterMap fun x => (get? x).map (x, ·)).reverse.lookup a = get? a := by
  rw [← List.filterMap_reverse, lookup_filterMap, if_pos (List.mem_reverse.mpr (h a))]

theorem lookup_filter [DecidableEq α] (pairs : List (α × β)) (a : α) :
    (pairs.filter (·.1 = a)).lookup a = pairs.lookup a := by
  induction pairs with
  | nil => rfl
  | cons pair pairs ih =>
    by_cases hp : pair.1 = a
    · rw [List.filter_cons_of_pos (by simpa using hp), List.lookup_cons, List.lookup_cons, ih]
    · rw [List.filter_cons_of_neg (by simpa using hp), List.lookup_cons, ih,
        beq_eq_false_iff_ne.mpr (Ne.symm hp)]

theorem lookup_reverse_congr [DecidableEq α] {pairs pairs' : List (α × β)} {a : α}
    (h : pairs'.filter (·.1 = a) = pairs.filter (·.1 = a)) :
    pairs'.reverse.lookup a = pairs.reverse.lookup a := by
  rw [← lookup_filter pairs'.reverse, ← lookup_filter pairs.reverse, List.filter_reverse,
    List.filter_reverse, h]

end

/-- Among pairs with distinct keys there is one for each key at most, wherever it stands. -/
theorem filter_eq_of_perm [DecidableEq α] {pairs pairs' : List (α × β)} (hp : pairs'.Perm pairs)
    (hn : (pairs.map Prod.fst).Nodup) (a : α) :
    pairs'.filter (·.1 = a) = pairs.filter (·.1 = a) := by
  have hf := hp.filter fun pair => decide (pair.1 = a)
  have hl : (pairs.filter (·.1 = a)).length ≤ 1 := by
    have hc := List.nodup_iff_count_le_one.mp hn a
    rw [List.count_eq_countP, List.countP_map, List.countP_eq_length_filter] at hc
    exact hc
  cases hs : pairs.filter (·.1 = a) with
  | nil =>
    rw [hs] at hf
    exact hf.eq_nil
  | cons pair rest =>
    rw [hs] at hf hl
    obtain rfl : rest = [] := List.length_eq_zero_iff.mp (by simpa using hl)
    exact List.perm_singleton.mp hf

/-! ### Repeated keys -/

section

variable [DecidableEq α]

/-- Keeps the last pair of each key. -/
def lastOnly : List (α × β) → List (α × β)
  | [] => []
  | pair :: pairs =>
    if pair.1 ∈ pairs.map Prod.fst then lastOnly pairs else pair :: lastOnly pairs

theorem lastOnly_sublist (pairs : List (α × β)) : (lastOnly pairs).Sublist pairs := by
  induction pairs with
  | nil => exact .slnil
  | cons pair pairs ih =>
    rw [lastOnly]
    split
    · exact ih.cons pair
    · exact ih.cons_cons pair

theorem mem_map_fst_lastOnly {pairs : List (α × β)} {a : α} :
    a ∈ (lastOnly pairs).map Prod.fst ↔ a ∈ pairs.map Prod.fst := by
  induction pairs with
  | nil => rfl
  | cons pair pairs ih =>
    rw [lastOnly]
    split
    · next hp =>
      rw [ih, List.map_cons, List.mem_cons, iff_or_self]
      rintro rfl
      exact hp
    · rw [List.map_cons, List.map_cons, List.mem_cons, List.mem_cons, ih]

theorem lookup_reverse_lastOnly [BEq α] [LawfulBEq α] (pairs : List (α × β)) (a : α) :
    (lastOnly pairs).reverse.lookup a = pairs.reverse.lookup a := by
  induction pairs with
  | nil => rfl
  | cons pair pairs ih =>
    rw [lastOnly, List.reverse_cons, List.lookup_append]
    split
    · next hp =>
      rw [ih]
      by_cases ha : a = pair.1
      · -- Another pair with this key comes later.
        obtain ⟨⟨_, b⟩, hb, rfl⟩ := List.mem_map.mp hp
        have hs : pairs.reverse.lookup a ≠ none := fun hn =>
          lookup_reverse_eq_none_iff.mp hn b (ha ▸ hb)
        rw [Option.or_of_isSome (Option.isSome_iff_ne_none.mpr hs)]
      · rw [List.lookup_cons, beq_eq_false_iff_ne.mpr ha, List.lookup_nil, Option.or_none]
    · rw [List.reverse_cons, List.lookup_append, ih]

/-- Pairs may be converted before or after, if the new keys are the old ones under other names. -/
theorem filterMap_lastOnly {γ δ : Type} [DecidableEq γ] {f : α × β → Option (γ × δ)} {g : γ → α}
    (hg : Function.Injective g) {pairs : List (α × β)}
    (h : ∀ pair ∈ pairs, ∃ c d, f pair = some (c, d) ∧ pair.1 = g c) :
    (lastOnly pairs).filterMap f = lastOnly (pairs.filterMap f) := by
  induction pairs with
  | nil => rfl
  | cons pair pairs ih =>
    obtain ⟨⟨c, d, hf, hp⟩, h⟩ := List.forall_mem_cons.mp h
    have hk : pair.1 ∈ pairs.map Prod.fst ↔ c ∈ (pairs.filterMap f).map Prod.fst := by
      rw [hp]
      constructor
      · intro hm
        obtain ⟨q, hq, he⟩ := List.mem_map.mp hm
        obtain ⟨c', d', hf', hg'⟩ := h q hq
        obtain rfl : c' = c := hg (hg'.symm.trans he)
        exact List.mem_map.mpr ⟨(c', d'), List.mem_filterMap.mpr ⟨q, hq, hf'⟩, rfl⟩
      · intro hm
        obtain ⟨x, hx, rfl⟩ := List.mem_map.mp hm
        obtain ⟨q, hq, hf'⟩ := List.mem_filterMap.mp hx
        obtain ⟨c', d', hs, hg'⟩ := h q hq
        obtain rfl := Option.some.inj (hf'.symm.trans hs)
        exact List.mem_map.mpr ⟨q, hq, hg'⟩
    rw [lastOnly, List.filterMap_cons_some hf, lastOnly]
    by_cases hm : pair.1 ∈ pairs.map Prod.fst
    · rw [if_pos hm, if_pos (hk.mp hm), ih h]
    · rw [if_neg hm, if_neg (hk.not.mp hm), List.filterMap_cons_some hf, ih h]

end

end Rumble
