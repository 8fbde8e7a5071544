import Rumble.Json.Token

/-!
JSON values. A text is cut into tokens, and the tokens are read by a machine with a stack of open
containers; writing goes the other way, without white space.

Members keep their order and are not merged, since readers differ in what a repeated key means.
-/

namespace Rumble

inductive Json where
  | null
  | bool (b : Bool)
  | number (n : Json.Number)
  | string (text : Option String)
  | array (items : List Json)
  | object (members : List (Option String × Json))
  deriving Repr

namespace Json

def ofString (s : String) : Json := .string (some s)

def ofNat (n : Nat) : Json := .number (.ofNat n)

def ofWord (n : UInt32) : Json := ofNat n.toNat

def record (members : List (String × Json)) : Json :=
  .object (members.map fun (k, v) => (some k, v))

/-- An open container: what it holds so far, last first. -/
inductive Frame where
  | array (items : List Json)
  /-- The value of the last key, `k`, is still to come. -/
  | object (members : List (Option String × Json)) (k : Option String)

/-- What may come next, inside a stack of open containers. -/
inductive State where
  | value (stack : List Frame)
  | firstItem (stack : List Frame)
  | afterItem (items : List Json) (stack : List Frame)
  | firstKey (stack : List Frame)
  | key (members : List (Option String × Json)) (stack : List Frame)
  | colon (members : List (Option String × Json)) (k : Option String) (stack : List Frame)
  | afterMember (members : List (Option String × Json)) (stack : List Frame)
  | done (v : Json)

namespace State

def deliver (v : Json) : List Frame → State
  | [] => done v
  | .array items :: stack => afterItem (v :: items) stack
  | .object members k :: stack => afterMember ((k, v) :: members) stack

def begin? (stack : List Frame) : Token → Option State
  | .null => some (deliver .null stack)
  | .bool b => some (deliver (.bool b) stack)
  | .number n => some (deliver (.number n) stack)
  | .string s => some (deliver (.string s) stack)
  | .openBracket => some (firstItem stack)
  | .openBrace => some (firstKey stack)
  | _ => none

def step : State → Token → Option State
  | value stack, t => begin? stack t
  | firstItem stack, .closeBracket => some (deliver (.array []) stack)
  | firstItem stack, t => begin? (.array [] :: stack) t
  | afterItem items stack, .comma => some (value (.array items :: stack))
  | afterItem items stack, .closeBracket => some (deliver (.array items.reverse) stack)
  | firstKey stack, .closeBrace => some (deliver (.object []) stack)
  | firstKey stack, .string s => some (colon [] s stack)
  | key members stack, .string s => some (colon members s stack)
  | colon members k stack, .colon => some (value (.object members k :: stack))
  | afterMember members stack, .comma => some (key members stack)
  | afterMember members stack, .closeBrace => some (deliver (.object members.reverse) stack)
  | _, _ => none

end State

def ofTokens? (ts : List Token) : Option Json :=
  match ts.foldlM State.step (.value []) with
  | some (.done v) => some v
  | _ => none

/-- The shape of a text, whatever its strings and numbers denote. -/
def outline? (s : String) : Option Json := (Token.lex s.toList).bind ofTokens?

def nestingLimit : Nat := 127

/-- The value of a text whose strings and numbers all denote something and whose containers are
nested at most 127 deep. -/
def parse? (s : String) : Option Json := do
  let ts ← Token.lex s.toList
  if ts.all Token.isSound && Token.nesting ts ≤ nestingLimit then ofTokens? ts else none

/-! ### Writing -/

mutual

def tokens : Json → List Token
  | .null => [.null]
  | .bool b => [.bool b]
  | .number n => [.number n]
  | .string s => [.string s]
  | .array items => .openBracket :: itemTokens items
  | .object members => .openBrace :: memberTokens members

/-- The tokens of items, the closing bracket included. -/
def itemTokens : List Json → List Token
  | [] => [.closeBracket]
  | v :: vs => v.tokens ++ moreItemTokens vs

def moreItemTokens : List Json → List Token
  | [] => [.closeBracket]
  | v :: vs => .comma :: v.tokens ++ moreItemTokens vs

def memberTokens : List (Option String × Json) → List Token
  | [] => [.closeBrace]
  | (k, v) :: ms => .string k :: .colon :: v.tokens ++ moreMemberTokens ms

def moreMemberTokens : List (Option String × Json) → List Token
  | [] => [.closeBrace]
  | (k, v) :: ms => .comma :: .string k :: .colon :: v.tokens ++ moreMemberTokens ms

end

def render (v : Json) : String := String.ofList (v.tokens.flatMap Token.text)

end Json

end Rumble
