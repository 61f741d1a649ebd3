/-! What a program finds around it: the files of its working directory and its input, and what the
path of a file leads to. -/

namespace Treewalk

/-- Why there is no text to read. -/
inductive Unreadable
  | missing
  | forbidden
  | notDirectory
  | isDirectory
  | nameTooLong
  | notText
  | other (message : String)
  deriving DecidableEq, Repr

namespace Unreadable

/-- The causes that have a number. -/
def numbered : List (Nat × Unreadable) :=
  [(2, missing), (13, forbidden), (20, notDirectory), (21, isDirectory), (36, nameTooLong)]

/-- The cause with this number. -/
def ofNumber? (n : Nat) : Option Unreadable :=
  numbered.lookup n

def message : Unreadable → String
  | missing => "No such file or directory (os error 2)"
  | forbidden => "Permission denied (os error 13)"
  | notDirectory => "Not a directory (os error 20)"
  | isDirectory => "Is a directory (os error 21)"
  | nameTooLong => "File name too long (os error 36)"
  | notText => "stream did not contain valid UTF-8"
  | other message => message

end Unreadable

/-- The plain files of the working directory, by name, and the standard input. Of the directories
outside, only the devices are known. -/
structure Surroundings where
  files : List (String × ByteArray)
  input : ByteArray

namespace Surroundings

/-- The content of a file of the working directory. -/
def find? (around : Surroundings) (name : String) : Option ByteArray :=
  around.files.lookup name

/-- Writes a file of the working directory anew. -/
def put (around : Surroundings) (name : String) (content : ByteArray) : Surroundings :=
  { around with files := (name, content) :: around.files.filter fun file => file.1 != name }

theorem find?_put_same (around : Surroundings) (name : String) (content : ByteArray) :
    (around.put name content).find? name = some content := by
  simp [find?, put]

/-- Where a path has led so far. -/
inductive Place
  | working
  | above
  | root
  | devices
  | file (content : ByteArray)

/-- The directory that holds a place. Nothing is above the root. -/
def Place.parent : Place → Place
  | working => above
  | above => above
  | _ => root

/-- The longest name a file may have, and the longest path, in bytes. -/
def nameLimit : Nat := 255
def pathLimit : Nat := 4095

/-- What a name stands for in a directory. -/
def entry? (around : Surroundings) (name : String) : Place → Option Place
  | .working => (around.find? name).map .file
  | .root => if name = "dev" then some .devices else none
  | .devices =>
    match name with
    | "null" => some (.file .empty)
    | "stdin" => some (.file around.input)
    | _ => none
  | _ => none

/-- One name further along a path. Two slashes in a row are one, and a slash at the end asks for a
directory, so an empty name stays where it is. -/
def step (around : Surroundings) (place : Place) (name : String) : Except Unreadable Place :=
  match place, name with
  | .file _, _ => throw .notDirectory
  | place, "" => return place
  | place, "." => return place
  | place, ".." => return place.parent
  | place, name =>
    if nameLimit < name.utf8ByteSize then throw .nameTooLong
    else
      match around.entry? name place with
      | some place => return place
      | none => throw .missing

/-- The names of a path, as its slashes part them. -/
def components : List Char → List (List Char)
  | [] => [[]]
  | c :: rest =>
    match components rest with
    | [] => [[c]]
    | name :: names => if c = '/' then [] :: name :: names else (c :: name) :: names

example : components ['.', '/', 's'] = [['.'], ['s']] := rfl
example : components ['/', 's', '/'] = [[], ['s'], []] := rfl

/-- The content of the file at a path. -/
def read (around : Surroundings) (path : String) : Except Unreadable ByteArray := do
  if pathLimit < path.utf8ByteSize then throw .nameTooLong
  let start := if path.toList.head? = some '/' then .root else .working
  match ← ((components path.toList).map String.ofList).foldlM around.step start with
  | .file content => return content
  | _ => throw .isDirectory

end Surroundings

end Treewalk
