import Rumble.Proofs.JsonValue

namespace Rumble.Json

def Frame.read : Frame → List Token
  | array items => .openBracket :: items.reverse.flatMap (·.tokens ++ [.comma])
  | object members k =>
    .openBrace :: (members.reverse.flatMap (pairTokens · ++ [.comma]) ++ [.string k, .colon])

def readBefore (stack : List Frame) : List Token := stack.reverse.flatMap Frame.read

namespace State

/-- The tokens that have led to a state. -/
def read : State → List Token
  | value stack => readBefore stack
  | firstItem stack => readBefore stack ++ [.openBracket]
  | afterItem items stack =>
    readBefore stack ++ .openBracket :: [.comma].intercalate (items.reverse.map tokens)
  | firstKey stack => readBefore stack ++ [.openBrace]
  | key members stack =>
    readBefore stack ++ .openBrace :: members.reverse.flatMap (pairTokens · ++ [.comma])
  | colon members k stack =>
    readBefore stack ++
      .openBrace :: (members.reverse.flatMap (pairTokens · ++ [.comma]) ++ [.string k])
  | afterMember members stack =>
    readBefore stack ++ .openBrace :: [.comma].intercalate (members.reverse.map pairTokens)
  | done v => v.tokens

end State

/-! ### What is read -/

end Rumble.Json
