import Rumble.FileTree
import Rumble.OpenFile
import Rumble.Program

/-!
Registers that are files. A register is there if its file could be opened at the start; the file
stays open, with a position of its own for each register. A write replaces the content of the file
by the value and a line feed, and a read answers all of it.
-/

namespace Rumble

structure FileBank where
  tree : FileTree
  path : Register → String
  file : Register → Option Place
  /-- How far the last access to the file of a register went. -/
  position : Register → Nat

namespace FileBank

def openAll (tree : FileTree) (path : Register → String) : FileBank where
  tree := tree
  path := path
  file r := (tree.openFile (path r)).toOption
  position _ := 0

/-- What is at the path of a register, opened or not. -/
def node (b : FileBank) (r : Register) : Node := b.tree.find (b.path r)

/-- Replaces the file of a register from outside; directories and devices stay as they are. -/
def overwrite (b : FileBank) (r : Register) (n : Node) : FileBank :=
  match b.node r with
  | .absent | .text _ | .binary _ => { b with tree := b.tree.replace (b.path r) n }
  | _ => b

/-- Devices cannot be truncated before they are written. -/
def notTruncated (r : Register) : Log.Record :=
  ⟨.trace, "SysfsHardware: " ++ r.name ++ " not truncated (" ++ Fault.invalidInput.detail ++ ")"⟩

def handle (b : FileBank) (r : Register) (p : Place) : OpenFile :=
  ⟨(b.tree.node p).bytes, b.position r⟩

def moveTo (b : FileBank) (r : Register) (position : Nat) : FileBank :=
  { b with position := fun r' => if r' = r then position else b.position r' }

def store (b : FileBank) (r : Register) (p : Place) (f : OpenFile) : FileBank :=
  { b.moveTo r f.position with tree := b.tree.put p (.ofBytes ⟨f.bytes.toArray⟩) }

def write (r : Register) (value : String) (b : FileBank) : Reply FileBank Unit :=
  match b.file r with
  | none => { answer := .error (.unavailable r), state := b }
  | some p =>
    match b.tree.node p with
    | .nullDevice => { answer := .ok (), state := b, records := [notTruncated r] }
    | .fullDevice =>
      { answer := .error (.io r .storageFull), state := b, records := [notTruncated r] }
    | _ =>
      let emptied := ((b.handle r p).seek 0).setLength 0
      { answer := .ok (), state := b.store r p (emptied.write (value ++ "\n").toUTF8.data.toList) }

def read (r : Register) (b : FileBank) : Reply FileBank String :=
  match b.file r with
  | none => { answer := .error (.unavailable r), state := b }
  | some p =>
    match b.tree.node p with
    | .text _ | .binary _ =>
      let rewound := (b.handle r p).seek 0
      { answer := (Node.ofBytes ⟨rewound.rest.toArray⟩).readText.mapError (.io r)
        state := b.moveTo r rewound.skipRest.position }
    | node => { answer := node.readText.mapError (.io r), state := b }

def device : Device FileBank where
  has r b := (b.file r).isSome
  write := write
  read := read

section

variable {b : FileBank} {r : Register} {p : Place} {content : String}

/-- A write leaves the value and a line feed in a text file, however long the text was before. -/
theorem write_of_text (hf : b.file r = some p) (hn : b.tree.node p = .text content)
    (value : String) :
    ∃ position records, write r value b =
      { answer := .ok ()
        state := { b.moveTo r position with tree := b.tree.put p (.text (value ++ "\n")) }
        records := records } := by
  let f := (((b.handle r p).seek 0).setLength 0).write (value ++ "\n").toUTF8.data.toList
  refine ⟨f.position, [], ?_⟩
  simp only [write, hf, hn, store, OpenFile.bytes_write_empty]
  rw [show (value ++ "\n").toUTF8.data.toList = (Node.text (value ++ "\n")).bytes from rfl,
    Node.ofBytes_bytes_text]
  rfl

/-- A read answers all of a text file, wherever the last access ended. -/
theorem read_of_text (hf : b.file r = some p) (hn : b.tree.node p = .text content) :
    ∃ position, read r b = { answer := .ok content, state := b.moveTo r position } := by
  refine ⟨((b.handle r p).seek 0).skipRest.position, ?_⟩
  simp only [read, hf, hn, OpenFile.rest_seek_zero, handle, Node.ofBytes_bytes_text]
  rfl

theorem overwrite_of_text (hp : b.tree.place (b.path r) = .ok p)
    (hn : b.tree.node p = .text content) (new : String) :
    b.overwrite r (.text new) = { b with tree := b.tree.put p (.text new) } := by
  have h : b.node r = .text content := by simp only [node, FileTree.find, hp, hn]
  simp only [overwrite, h, FileTree.replace, hp]

end

end FileBank

end Rumble
