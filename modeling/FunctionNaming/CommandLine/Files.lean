/-!
Files as the program sees them: texts that can be read and written by name.

What the program does with files does not depend on where they are, so it is written against
`FileAccess`. A store is a file system as a value: reading leaves it as it is, and so does a write
that fails.
-/

namespace FunctionNaming

/-- Why a file cannot be read or written. -/
inductive FileError where
  | missing
  /-- The file does not hold text in UTF-8. -/
  | notText
  | other (message : String)
  deriving DecidableEq, Repr

/-- The wording of an error. -/
def FileError.message : FileError → String
  | missing => "No such file or directory (os error 2)"
  | notText => "stream did not contain valid UTF-8"
  | other message => message

/-- How files are read and written. -/
structure FileAccess (m : Type → Type) where
  read : String → m (Except FileError String)
  write : String → String → m (Except FileError Unit)

/-- How the files of a store are read and written. -/
def FileAccess.ofStore {σ : Type} (read : σ → String → Except FileError String)
    (write : σ → String → String → Except FileError σ) : FileAccess (StateM σ) where
  read path := return read (← get) path
  write path text := do
    match write (← get) path text with
    | .ok files =>
      set files
      return .ok ()
    | .error e => return .error e

/-! ### A single directory -/

/-- The files of a directory, by their names. -/
structure Directory where
  files : List (String × ByteArray)

namespace Directory

/-- What is left of a path behind the signs for the directory itself. -/
def dropHere : List Char → List Char
  | '.' :: '/' :: cs => dropHere cs
  | cs => cs

/-- The file that a path leads to. There are no other directories. -/
def fileName? (path : String) : Option String :=
  let name := dropHere path.toList
  if name.isEmpty || name.contains '/' then none else some (String.ofList name)

/-- The contents of a file. -/
def contents? (d : Directory) (name : String) : Option ByteArray :=
  (d.files.find? (·.1 == name)).map Prod.snd

/-- The text in a file. -/
def read (d : Directory) (path : String) : Except FileError String :=
  match (fileName? path).bind d.contents? with
  | none => .error .missing
  | some bytes =>
    match String.fromUTF8? bytes with
    | none => .error .notText
    | some text => .ok text

/-- Replaces a file or adds it. -/
def put (d : Directory) (name : String) (bytes : ByteArray) : Directory :=
  ⟨d.files.filter (·.1 != name) ++ [(name, bytes)]⟩

/-- Writes a text into a file. -/
def write (d : Directory) (path text : String) : Except FileError Directory :=
  match fileName? path with
  | none => .error .missing
  | some name => .ok (d.put name text.toUTF8)

/-- How the files of a directory are read and written. -/
def access : FileAccess (StateM Directory) := .ofStore read write

end Directory

end FunctionNaming
