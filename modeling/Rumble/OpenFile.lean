namespace Rumble

structure OpenFile where
  bytes : List UInt8
  position : Nat

namespace OpenFile

def seek (n : Nat) (f : OpenFile) : OpenFile := { f with position := n }

/-- Cuts off all bytes from a length on, or adds zero bytes up to it. -/
def setLength (n : Nat) (f : OpenFile) : OpenFile :=
  { f with bytes := f.bytes.take n ++ List.replicate (n - f.bytes.length) 0 }

/-- Writes over the bytes at the position. A gap between the end and the position is filled with
zero bytes. -/
def write (data : List UInt8) (f : OpenFile) : OpenFile where
  bytes := (f.setLength f.position).bytes ++ data ++ f.bytes.drop (f.position + data.length)
  position := f.position + data.length

def rest (f : OpenFile) : List UInt8 := f.bytes.drop f.position

def skipRest (f : OpenFile) : OpenFile := { f with position := max f.position f.bytes.length }

theorem bytes_write_empty (f : OpenFile) (data : List UInt8) :
    (((f.seek 0).setLength 0).write data).bytes = data := by
  simp [write, setLength, seek]

theorem rest_seek_zero (f : OpenFile) : (f.seek 0).rest = f.bytes := rfl

/-- A shorter text does not remove the end of a longer one by itself. -/
example : ((OpenFile.mk [49, 50, 51] 3).seek 0 |>.write [55]).bytes = [55, 50, 51] := rfl

end OpenFile

end Rumble
