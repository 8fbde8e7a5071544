import Rumble.Fault

namespace Rumble

inductive Node where
  | absent
  | text (content : String)
  /-- A file whose bytes are not UTF-8. -/
  | binary (content : ByteArray)
  | directory
  /-- Takes every write and reads empty. -/
  | nullDevice
  /-- Refuses every write for lack of space. -/
  | fullDevice

namespace Node

def ofBytes (bytes : ByteArray) : Node :=
  match String.fromUTF8? bytes with
  | some s => text s
  | none => binary bytes

def bytes : Node → List UInt8
  | text content => content.toUTF8.data.toList
  | binary content => content.data.toList
  | _ => []

theorem ofBytes_bytes_text (content : String) :
    ofBytes ⟨(text content).bytes.toArray⟩ = text content := by
  have h : (⟨(text content).bytes.toArray⟩ : ByteArray) = content.toByteArray := by
    rw [bytes, Array.toArray_toList, String.toUTF8_eq_toByteArray]
  rw [ofBytes, h, String.fromUTF8?, dif_pos content.isValidUTF8]
  rfl

def readText : Node → Except Fault String
  | text content => .ok content
  | nullDevice => .ok ""
  | absent => .error .notFound
  | directory => .error .isADirectory
  | binary _ => .error .invalidData
  | fullDevice => .error .other

end Node

/-- A place in a tree: its own name, then those of the directories around it up to the root. -/
abbrev Place := List (List Char)

structure FileTree where
  node : Place → Node

namespace FileTree

def workingDirectory : Place := ["work".toList, "tmp".toList]

/-- The directories that every tree has below its root. -/
def topNames : List String :=
  ["bin", "boot", "dev", "etc", "home", "lib", "media", "mnt", "opt", "proc", "root", "run", "sbin",
    "srv", "sys", "tmp", "usr", "var"]

/-- A tree without files: directories, among them the working directory, and the devices. -/
def empty : FileTree where
  node p :=
    if p = [] ∨ p = workingDirectory ∨ p ∈ topNames.map fun name => [name.toList] then .directory
    else if p = ["null".toList, "dev".toList] then .nullDevice
    else if p = ["full".toList, "dev".toList] then .fullDevice
    else .absent

def put (t : FileTree) (p : Place) (n : Node) : FileTree where
  node p' := if p' = p then n else t.node p'

theorem node_put (t : FileTree) (p p' : Place) (n : Node) :
    (t.put p n).node p' = if p' = p then n else t.node p' := rfl

/-! ### Paths -/

/-- The longest name, in bytes. -/
def nameLimit : Nat := 255

/-- The longest path, in bytes. -/
def pathLimit : Nat := 4095

/-- Follows names from a place. All places on the way have to be directories, and only the last one
may be absent. -/
def walk (t : FileTree) (p : Place) : List (List Char) → Except Fault Place
  | [] => .ok p
  | name :: rest =>
    match t.node p with
    | .absent => .error .notFound
    | .directory =>
      if name = [] ∨ name = ['.'] then t.walk p rest
      else if name = ['.', '.'] then t.walk p.tail rest
      else if nameLimit < (String.ofList name).utf8ByteSize then .error .nameTooLong
      else t.walk (name :: p) rest
    | _ => .error .notADirectory

def place (t : FileTree) (path : String) : Except Fault Place :=
  let cs := path.toList
  if '\x00' ∈ cs then .error .nulInPath
  else if pathLimit < path.utf8ByteSize then .error .nameTooLong
  else if cs = [] then .error .notFound
  else t.walk (if cs.head? = some '/' then [] else workingDirectory) (cs.splitOn '/')

section

variable {t : FileTree} {p : Place} {content : String}

/-- A text in place of another one blocks the same ways. -/
theorem walk_put_text (h : t.node p = .text content) (new : String) (p' : Place)
    (names : List (List Char)) : (t.put p (.text new)).walk p' names = t.walk p' names := by
  induction names generalizing p' with
  | nil => rfl
  | cons name rest ih =>
    rw [walk, walk, node_put]
    by_cases hp : p' = p
    · -- Neither text is a directory, and the walk ends here.
      rw [if_pos hp, hp, h]
    · simp only [if_neg hp, ih]

theorem place_put_text (h : t.node p = .text content) (new path : String) :
    (t.put p (.text new)).place path = t.place path := by
  simp only [place, walk_put_text h]

end

def find (t : FileTree) (path : String) : Node :=
  match t.place path with
  | .ok p => t.node p
  | .error _ => .absent

theorem exists_place_of_find_text {t : FileTree} {path content : String}
    (h : t.find path = .text content) :
    ∃ p, t.place path = .ok p ∧ t.node p = .text content := by
  rw [find] at h
  cases hp : t.place path with
  | ok p =>
    rw [hp] at h
    exact ⟨p, rfl, h⟩
  | error e =>
    rw [hp] at h
    cases h

def replace (t : FileTree) (path : String) (n : Node) : FileTree :=
  match t.place path with
  | .ok p => t.put p n
  | .error _ => t

def readText (t : FileTree) (path : String) : Except Fault String := do
  (t.node (← t.place path)).readText

def openFile (t : FileTree) (path : String) : Except Fault Place := do
  let p ← t.place path
  match t.node p with
  | .absent => .error .notFound
  | .directory => .error .isADirectory
  | _ => return p

theorem openFile_of_text {t : FileTree} {path content : String} {p : Place}
    (hp : t.place path = .ok p) (hn : t.node p = .text content) : t.openFile path = .ok p := by
  rw [openFile, hp]
  show (match t.node p with
    | .absent => .error .notFound
    | .directory => .error .isADirectory
    | _ => return p : Except Fault Place) = .ok p
  rw [hn]
  rfl

theorem openFile_of_absent {t : FileTree} {path : String} (h : t.find path = .absent) :
    (t.openFile path).toOption = none := by
  rw [find] at h
  rw [openFile]
  cases hp : t.place path with
  | error e => rfl
  | ok p =>
    rw [hp] at h
    show (match t.node p with
      | .absent => .error .notFound
      | .directory => .error .isADirectory
      | _ => return p : Except Fault Place).toOption = none
    rw [show t.node p = .absent from h]
    rfl

end FileTree

end Rumble
