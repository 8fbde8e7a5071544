import Rumble.Text.Numeral

namespace Rumble

inductive Queue.Token where
  /-- Plays a waveform slot at a volume. -/
  | segment (slot volume : UInt32)
  | silence (ms : UInt32)
  deriving DecidableEq, Repr

def Queue.Token.text : Queue.Token → String
  | segment slot volume => Text.showWord slot ++ "." ++ Text.showWord volume
  | silence ms => Text.showWord ms

structure Queue where
  text : String
  deriving DecidableEq, Repr

namespace Queue

def empty : Queue := ⟨""⟩

def isEmpty (q : Queue) : Bool := q.text = ""

def push (q : Queue) (t : Token) : Queue :=
  if q.isEmpty then ⟨t.text⟩ else ⟨q.text ++ "," ++ t.text⟩

def ofTokens (ts : List Token) : Queue := ts.foldl push empty

end Queue

end Rumble
