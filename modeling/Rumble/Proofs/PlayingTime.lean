import Mathlib.Algebra.BigOperators.Group.List.Basic
import Rumble.Proofs.Resolution

namespace Rumble.Catalog

variable {c : Catalog} {table : VoltageTable} {e : Effect} {s : Strength}

/-- How long a part of a compound effect lasts, without a limit. -/
def partMs (c : Catalog) (s : Strength) : Segment → Nat
  | .effect e =>
    match c.get? e with
    | some (.simple _ lengthMs) => (lengthMs.get s).toNat + 6
    | _ => 0
  | .silence ms => ms.toNat + 1

def exactMs (c : Catalog) (s : Strength) : Entry → Nat
  | .simple _ lengthMs => (lengthMs.get s).toNat + 6
  | .compound segments => (segments.map (c.partMs s)).sum
  | .ringtone _ durationMs => durationMs.toNat

theorem partMs_effect {level : Level} {lengthMs : PerStrength UInt32}
    (h : c.get? e = some (.simple level lengthMs)) (s : Strength) :
    c.partMs s (.effect e) = (lengthMs.get s).toNat + 6 := by
  rw [partMs, h]

/-! ### Limits -/

/-- Terms that stop at a limit have the same sum up to that limit. -/
theorem min_sum_map_min {α : Type} (f : α → Nat) (limit : Nat) (xs : List α) :
    min (xs.map fun x => min (f x) limit).sum limit = min (xs.map f).sum limit := by
  induction xs with
  | nil => rfl
  | cons x xs ih =>
    rw [List.map_cons, List.sum_cons, List.map_cons, List.sum_cons]
    omega

theorem toNat_of_hasPart {segment : Segment} {part : UInt32 × Queue.Token}
    (h : c.HasPart table s segment part) :
    part.1.toNat = min (c.partMs s segment) (UInt32.size - 1) := by
  cases h with
  | silence ms => exact Waveform.toNat_addMs ms Waveform.pauseErrorMs
  | effect simple _ =>
    rw [Waveform.toNat_addMs, partMs_effect simple]
    rfl

theorem map_toNat_of_parts {segments : List Segment} {parts : List (UInt32 × Queue.Token)}
    (h : List.Forall₂ (c.HasPart table s) segments parts) :
    (parts.map Prod.fst).map UInt32.toNat =
      segments.map fun segment => min (c.partMs s segment) (UInt32.size - 1) := by
  induction h with
  | nil => rfl
  | cons hp _ ih => rw [List.map_cons, List.map_cons, List.map_cons, ih, toNat_of_hasPart hp]

/-- What is played lasts exactly as long as its entry says, up to the largest register value. -/
theorem toNat_durationMs {entry : Entry} {p : Playback} (h : c.HasPlayback table s entry p) :
    p.durationMs.toNat = min (c.exactMs s entry) (UInt32.size - 1) := by
  cases h with
  | simple found => exact Waveform.toNat_addMs _ Waveform.coldStartMs
  | @compound segments parts played =>
    -- The sum of the parts stops where the exact sum does, although each part may stop as well.
    have hz : (0 : UInt32).toNat = 0 := rfl
    rw [Waveform.toNat_foldl_addMs, hz, Nat.zero_add, map_toNat_of_parts played, min_sum_map_min,
      exactMs]
  | ringtone queue durationMs =>
    exact (Nat.min_eq_left (Nat.le_sub_one_of_lt durationMs.toNat_lt)).symm

/-! ### Other orders -/

theorem isSimpleIn_update {entries : Effect → Option Entry} {segments segments' : List Segment}
    (he : entries e = some (.compound segments)) :
    isSimpleIn (Function.update entries e (some (.compound segments'))) = isSimpleIn entries := by
  funext inner
  rw [isSimpleIn, isSimpleIn]
  by_cases hi : inner = e
  · rw [hi, Function.update_self, he]
    rfl
  · rw [Function.update_of_ne hi]

theorem firstDefect?_reordered {segments segments' : List Segment}
    (he : c.get? e = some (.compound segments)) (hp : segments'.Perm segments) :
    firstDefect? (Function.update c.get? e (some (.compound segments'))) = none := by
  rw [firstDefect?_eq_none_iff, isSimpleIn_update he]
  intro e' entry h
  by_cases hi : e' = e
  · rw [hi, Function.update_self] at h
    cases h
    obtain ⟨hl, hs⟩ := isSound_of_get? he
    refine ⟨?_, fun inner hm => hs inner (hp.mem_iff.mp hm)⟩
    rwa [(hp.filterMap Segment.effect?).length_eq]
  · rw [Function.update_of_ne hi] at h
    exact isSound_of_get? h

/-- Parts that are effects last as long as they did, since a compound effect is no part. -/
theorem exactMs_reordered {c' : Catalog} {segments segments' : List Segment}
    (he : c.get? e = some (.compound segments)) (hp : segments'.Perm segments)
    (h : c'.get? = Function.update c.get? e (some (.compound segments'))) (s : Strength) :
    c'.exactMs s (.compound segments') = c.exactMs s (.compound segments) := by
  have hm : c'.partMs s = c.partMs s := by
    funext segment
    cases segment with
    | silence ms => rfl
    | effect inner =>
      rw [partMs, partMs, h]
      by_cases hi : inner = e
      · rw [hi, Function.update_self, he]
      · rw [Function.update_of_ne hi]
  rw [exactMs, exactMs, hm]
  exact (hp.map _).sum_eq

/-- An effect plays exactly as long as its parts last together, unless that is more than a register
holds: nothing ever wraps around. With its parts in another order, a compound effect plays as long
as before. The time of a ringtone is the stored one. -/
theorem playing_time (c : Catalog) (table : VoltageTable) (e : Effect) (s : Strength) :
    match c.get? e with
    | none => c.resolve table e s = .error .unsupportedOperation
    | some (.simple _ lengthMs) =>
      ∃ p, c.resolve table e s = .ok p ∧
        p.durationMs.toNat = min (2 ^ 32 - 1) ((lengthMs.get s).toNat + 6)
    | some (.ringtone _ durationMs) =>
      ∃ p, c.resolve table e s = .ok p ∧ p.durationMs = durationMs
    | some (.compound segments) =>
      ∃ p, c.resolve table e s = .ok p ∧
        p.durationMs.toNat = min (2 ^ 32 - 1) (segments.map (c.partMs s)).sum ∧
        (∀ inner, .effect inner ∈ segments → ∃ level lengthMs,
          c.get? inner = some (.simple level lengthMs) ∧
            c.partMs s (.effect inner) = (lengthMs.get s).toNat + 6) ∧
        ∀ segments', segments'.Perm segments →
          ∃ c' : Catalog, c'.get? = Function.update c.get? e (some (.compound segments')) ∧
            ∃ p', c'.resolve table e s = .ok p' ∧ p'.durationMs = p.durationMs := by
  have hm (a : Nat) : min a (UInt32.size - 1) = min (2 ^ 32 - 1) a := Nat.min_comm _ _
  cases he : c.get? e with
  | none => exact resolve_of_get?_eq_none table s he
  | some entry =>
    obtain ⟨p, hp, hs⟩ := exists_hasPlayback table s he
    have hd := toNat_durationMs hs
    cases entry with
    | simple level lengthMs => exact ⟨p, hp, hd.trans (hm _)⟩
    | ringtone queue durationMs =>
      cases hs
      exact ⟨_, hp, rfl⟩
    | compound segments =>
      refine ⟨p, hp, hd.trans (hm _), ?_, ?_⟩
      · intro inner hi
        obtain ⟨level, lengthMs, h⟩ := exists_simple_of_mem he hi
        exact ⟨level, lengthMs, h, partMs_effect h s⟩
      · intro segments' ho
        let c' : Catalog := ⟨_, firstDefect?_reordered he ho⟩
        have he' : c'.get? e = some (.compound segments') := Function.update_self ..
        obtain ⟨p', hp', hs'⟩ := exists_hasPlayback table s he'
        refine ⟨c', rfl, p', hp', UInt32.toNat_inj.mp ?_⟩
        rw [hd, toNat_durationMs hs', exactMs_reordered he ho rfl]

/-- A waveform, and a pause between two of it, each as long as a register can say. -/
def longest : Catalog where
  get?
    | .tick => some (.simple .tick (.const 4294967295))
    | .doubleClick => some (.compound [.effect .tick, .silence 4294967295, .effect .tick])
    | _ => none
  isValid := by decide +kernel

/-- The longest parts together are no longer than each of them, in either order. -/
theorem playing_time_of_longest :
    [.effect .tick, .effect .tick, .silence 4294967295].Perm
        [.effect .tick, .silence 4294967295, Segment.effect .tick] ∧
      ∃ p, longest.resolve .standard .doubleClick .light = .ok p ∧
        p.durationMs.toNat = min (2 ^ 32 - 1) 12884901898 ∧
        ∃ c' : Catalog, c'.get? = Function.update longest.get? .doubleClick
            (some (.compound [.effect .tick, .effect .tick, .silence 4294967295])) ∧
          ∃ p', c'.resolve .standard .doubleClick .light = .ok p' ∧
            p'.durationMs = p.durationMs := by
  have hp : [.effect .tick, .effect .tick, .silence 4294967295].Perm
      [.effect .tick, .silence 4294967295, Segment.effect .tick] := by decide
  obtain ⟨p, hr, hd, -, ho⟩ := playing_time longest .standard .doubleClick .light
  exact ⟨hp, p, hr, hd.trans (by decide +kernel), ho _ hp⟩

end Rumble.Catalog
