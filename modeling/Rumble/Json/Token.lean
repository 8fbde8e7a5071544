import Rumble.Json.Number
import Rumble.Json.Quoted

namespace Rumble.Json

inductive Token where
  | openBrace
  | closeBrace
  | openBracket
  | closeBracket
  | colon
  | comma
  | null
  | bool (b : Bool)
  | number (n : Number)
  /-- The text that a string denotes, if its surrogate halves come in pairs. -/
  | string (text : Option String)
  deriving DecidableEq, Repr

namespace Token

def text : Token → List Char
  | openBrace => ['{']
  | closeBrace => ['}']
  | openBracket => ['[']
  | closeBracket => [']']
  | colon => [':']
  | comma => [',']
  | null => ['n', 'u', 'l', 'l']
  | bool true => ['t', 'r', 'u', 'e']
  | bool false => ['f', 'a', 'l', 's', 'e']
  | number n => n.text
  | string (some s) => Quoted.encode s.toList
  | string none => ['"', '\\', 'u', 'd', '8', '0', '0', '"']

def isSpace (c : Char) : Bool := c = ' ' || c = '\n' || c = '\r' || c = '\t'

def scan (c : Char) (cs : List Char) : Option (Token × List Char) :=
  match c, cs with
  | '{', cs => some (openBrace, cs)
  | '}', cs => some (closeBrace, cs)
  | '[', cs => some (openBracket, cs)
  | ']', cs => some (closeBracket, cs)
  | ':', cs => some (colon, cs)
  | ',', cs => some (comma, cs)
  | 'n', 'u' :: 'l' :: 'l' :: cs => some (null, cs)
  | 't', 'r' :: 'u' :: 'e' :: cs => some (bool true, cs)
  | 'f', 'a' :: 'l' :: 's' :: 'e' :: cs => some (bool false, cs)
  | '"', cs => (Quoted.scan cs).map fun (ps, r) =>
      (string ((Quoted.join ps).map String.ofList), r)
  | c, cs =>
    if c = '-' ∨ c.isDigit then (Number.scan (c :: cs)).map fun (n, r) => (number n, r)
    else none

theorem scan_length {c : Char} {cs r : List Char} {t : Token} (h : scan c cs = some (t, r)) :
    r.length ≤ cs.length := by
  unfold scan at h
  split at h
  case h_10 =>
    obtain ⟨⟨ps, r'⟩, hs, hr⟩ := Option.map_eq_some_iff.1 h
    obtain rfl : r' = r := (Prod.mk.inj hr).2
    exact Nat.le_of_lt (Quoted.scan_length hs)
  case h_11 =>
    split at h
    · obtain ⟨⟨n, r'⟩, hs, hr⟩ := Option.map_eq_some_iff.1 h
      obtain rfl : r' = r := (Prod.mk.inj hr).2
      exact Nat.le_of_lt_succ (Number.scan_length hs)
    · cases h
  all_goals grind

def lex : List Char → Option (List Token)
  | [] => some []
  | c :: cs =>
    if isSpace c then lex cs
    else match _h : scan c cs with
      | none => none
      | some (t, r) => (lex r).map (t :: ·)
termination_by cs => cs.length
decreasing_by
  · simp
  · have := scan_length _h
    simp only [List.length_cons]
    omega

/-- Does the token denote a value: a text, or a number within the range of doubles? -/
def isSound : Token → Bool
  | string text => text.isSome
  | number n => !n.isTooLarge
  | _ => true

/-- How deep containers are nested at most. -/
def nesting (ts : List Token) : Nat :=
  (ts.foldl (fun (deep, most) t =>
    match t with
    | openBrace | openBracket => (deep + 1, max most (deep + 1))
    | closeBrace | closeBracket => (deep - 1, most)
    | _ => (deep, most)) (0, 0)).2

end Token

end Rumble.Json
