import Rumble.Text.Numeral

namespace Rumble.Json

/-- A piece of a string: a character, or one half of a surrogate pair. -/
inductive Piece where
  | char (c : Char)
  | half (n : Nat)
  deriving DecidableEq, Repr

namespace Quoted

/-- Quotes, backslashes and control characters are escaped, by a letter where there is one. -/
def escape (c : Char) : List Char :=
  match c with
  | '"' => ['\\', '"']
  | '\\' => ['\\', '\\']
  | '\x08' => ['\\', 'b']
  | '\x0c' => ['\\', 'f']
  | '\n' => ['\\', 'n']
  | '\r' => ['\\', 'r']
  | '\t' => ['\\', 't']
  | c =>
    if c.toNat < 0x20 then ['\\', 'u', '0', '0', Nat.digitChar (c.toNat / 16),
        Nat.digitChar (c.toNat % 16)]
    else [c]

def encode (cs : List Char) : List Char := '"' :: cs.flatMap escape ++ ['"']

def unescape? : Char → Option Char
  | '"' => some '"'
  | '\\' => some '\\'
  | '/' => some '/'
  | 'b' => some '\x08'
  | 'f' => some '\x0c'
  | 'n' => some '\n'
  | 'r' => some '\r'
  | 't' => some '\t'
  | _ => none

def unit? (a b c d : Char) : Option Piece := do
  let n ← Text.digits? 16 [a, b, c, d]
  return if 0xd800 ≤ n ∧ n < 0xe000 then .half n else .char (.ofNat n)

/-- The pieces up to the closing quote, and what follows it. A control character is refused. -/
def scan : List Char → Option (List Piece × List Char)
  | [] => none
  | '"' :: cs => some ([], cs)
  | '\\' :: 'u' :: a :: b :: c :: d :: cs => do
    let p ← unit? a b c d
    let (ps, r) ← scan cs
    return (p :: ps, r)
  | '\\' :: e :: cs => do
    let c ← unescape? e
    let (ps, r) ← scan cs
    return (.char c :: ps, r)
  | c :: cs =>
    if c.toNat < 0x20 ∨ c = '\\' then none
    else do
      let (ps, r) ← scan cs
      return (.char c :: ps, r)

/-- The text of pieces whose halves come in pairs, high before low. -/
def join : List Piece → Option (List Char)
  | [] => some []
  | .char c :: ps => (join ps).map (c :: ·)
  | .half hi :: .half lo :: ps =>
    if hi < 0xdc00 ∧ 0xdc00 ≤ lo then
      (join ps).map (Char.ofNat (0x10000 + (hi - 0xd800) * 0x400 + (lo - 0xdc00)) :: ·)
    else none
  | .half _ :: _ => none

theorem scan_length {cs r : List Char} {ps : List Piece} (h : scan cs = some (ps, r)) :
    r.length < cs.length := by
  fun_induction scan cs generalizing ps with
  | case1 => cases h
  | case2 cs =>
    injection h with h
    injection h with _ h
    simp [h]
  | case3 a b c d cs ih =>
    simp only [Option.bind_eq_bind, Option.bind_eq_some_iff, Option.pure_def] at h
    obtain ⟨_, _, ⟨_, r'⟩, hs, hr⟩ := h
    injection hr with hr
    injection hr with _ hr
    subst hr
    have : r'.length < cs.length := ih hs
    simp only [List.length_cons]
    omega
  | case4 e cs _ ih =>
    simp only [Option.bind_eq_bind, Option.bind_eq_some_iff, Option.pure_def] at h
    obtain ⟨_, _, ⟨_, r'⟩, hs, hr⟩ := h
    injection hr with hr
    injection hr with _ hr
    subst hr
    have : r'.length < cs.length := ih hs
    simp only [List.length_cons]
    omega
  | case5 => cases h
  | case6 c cs _ _ _ _ ih =>
    simp only [Option.bind_eq_bind, Option.bind_eq_some_iff, Option.pure_def] at h
    obtain ⟨⟨_, r'⟩, hs, hr⟩ := h
    injection hr with hr
    injection hr with _ hr
    subst hr
    have : r'.length < cs.length := ih hs
    simp only [List.length_cons]
    omega

end Quoted

end Rumble.Json
