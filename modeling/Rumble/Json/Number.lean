import Rumble.Double.Basic
import Rumble.Text.Numeral

namespace Rumble.Json

/-- A number as it is written. The fraction is empty if there is no point. -/
structure Number where
  negative : Bool
  whole : List Char
  fraction : List Char
  /-- The sign (`true` for minus) and the digits of the exponent. -/
  exponent : Option (Bool × List Char)
  deriving DecidableEq, Repr

namespace Number

def ofNat (n : Nat) : Number := ⟨false, Text.decimal n, [], none⟩

def text (n : Number) : List Char :=
  (if n.negative then ['-'] else []) ++ n.whole ++
    (if n.fraction = [] then [] else '.' :: n.fraction) ++
    match n.exponent with
    | none => []
    | some (minus, ds) => 'e' :: ((if minus then ['-'] else []) ++ ds)

def takeDigits (cs : List Char) : Option (List Char × List Char) :=
  match cs.takeWhile Char.isDigit with
  | [] => none
  | ds => some (ds, cs.dropWhile Char.isDigit)

/-- A leading zero stands alone. -/
def takeWhole : List Char → Option (List Char × List Char)
  | '0' :: cs => some (['0'], cs)
  | cs => takeDigits cs

def takeFraction : List Char → Option (List Char × List Char)
  | '.' :: cs => takeDigits cs
  | cs => some ([], cs)

def takeExponent : List Char → Option (Option (Bool × List Char) × List Char)
  | c :: cs =>
    if c = 'e' ∨ c = 'E' then
      let (minus, cs) := match cs with
        | '-' :: r => (true, r)
        | '+' :: r => (false, r)
        | r => (false, r)
      (takeDigits cs).map fun (ds, r) => (some (minus, ds), r)
    else some (none, c :: cs)
  | [] => some (none, [])

def scan (cs : List Char) : Option (Number × List Char) := do
  let (negative, cs) := match cs with
    | '-' :: r => (true, r)
    | r => (false, r)
  let (whole, cs) ← takeWhole cs
  let (fraction, cs) ← takeFraction cs
  let (exponent, cs) ← takeExponent cs
  return (⟨negative, whole, fraction, exponent⟩, cs)

/-- The value, if the number is written with digits alone. -/
def natural? (n : Number) : Option Nat :=
  if n.negative = false ∧ n.fraction = [] ∧ n.exponent = none then Text.digits? 10 n.whole
  else none

/-- Appends digits to a significand as long as it fits 64 bits; returns it and how many were
taken. -/
def absorb (significand : Nat) : List Char → Nat × Nat
  | [] => (significand, 0)
  | c :: cs =>
    let next := 10 * significand + (c.toNat - '0'.toNat)
    if next < UInt64.size then
      let (s, k) := absorb next cs
      (s, k + 1)
    else (significand, 0)

/-- Significand and power of ten of the magnitude, with digits beyond 64 bits dropped. -/
def scaled (n : Number) : Nat × Int :=
  let (s, k) := absorb 0 n.whole
  let (s, f) := absorb s n.fraction
  let e : Int := match n.exponent with
    | none => 0
    | some (minus, ds) =>
      let v := Nat.ofDigitChars 10 ds 0
      if minus then -v else v
  (s, (n.whole.length - k : Nat) - f + e)

/-- Is the number beyond the doubles? Significand and power of ten are rounded to doubles before
they are multiplied. -/
def isTooLarge (n : Number) : Bool :=
  let (s, e) := n.scaled
  s ≠ 0 && 0 ≤ e &&
    (308 < e || (2 : Rat) ^ (1024 : Int) ≤ Double.round (Double.round s * Double.round (10 ^ e)))

theorem takeDigits_length {cs ds r : List Char} (h : takeDigits cs = some (ds, r)) :
    r.length < cs.length := by
  unfold takeDigits at h
  split at h
  · cases h
  · next hne =>
    injection h with h
    injection h with h₁ h₂
    subst h₁ h₂
    have hlen := congrArg List.length
      (List.takeWhile_append_dropWhile (p := Char.isDigit) (l := cs))
    have hpos : 0 < (cs.takeWhile Char.isDigit).length := by
      cases ht : cs.takeWhile Char.isDigit with
      | nil => exact absurd ht hne
      | cons => simp
    simp only [List.length_append] at hlen
    omega

theorem takeWhole_length {cs ds r : List Char} (h : takeWhole cs = some (ds, r)) :
    r.length < cs.length := by
  unfold takeWhole at h
  split at h
  · injection h with h
    injection h with _ h
    subst h
    simp
  · exact takeDigits_length h

theorem takeFraction_length {cs ds r : List Char} (h : takeFraction cs = some (ds, r)) :
    r.length ≤ cs.length := by
  unfold takeFraction at h
  split at h
  · have := takeDigits_length h
    simp only [List.length_cons]
    omega
  · injection h with h
    injection h with _ h
    simp [h]

theorem takeExponent_length {cs r : List Char} {e : Option (Bool × List Char)}
    (h : takeExponent cs = some (e, r)) : r.length ≤ cs.length := by
  unfold takeExponent at h
  split at h
  · next c cs =>
    split at h
    · obtain ⟨⟨ds, r'⟩, ht, hr⟩ := Option.map_eq_some_iff.1 h
      have hlt := takeDigits_length ht
      injection hr with _ hr
      subst hr
      simp only [List.length_cons]
      split at hlt <;> simp only [List.length_cons] at * <;> omega
    · injection h with h
      injection h with _ h
      simp [← h]
  · injection h with h
    injection h with _ h
    simp [← h]

theorem scan_length {cs r : List Char} {n : Number} (h : scan cs = some (n, r)) :
    r.length < cs.length := by
  simp only [scan, Option.bind_eq_bind, Option.bind_eq_some_iff, Option.pure_def] at h
  obtain ⟨⟨w, c₁⟩, hw, ⟨f, c₂⟩, hf, ⟨e, c₃⟩, he, hr⟩ := h
  injection hr with hr
  injection hr with _ hr
  subst hr
  have h₁ := takeWhole_length hw
  have h₂ := takeFraction_length hf
  have h₃ := takeExponent_length he
  dsimp only at h₁ h₂ h₃
  split at h₁ <;> simp only [List.length_cons] at * <;> omega

end Number

end Rumble.Json
