import FunctionNaming.NameMap.Basic
import FunctionNaming.Text.Blank

/-!
The text form of a map: a line `name:path` for each entry. Inside the two fields the backslash, the
colon, the line feed and the carriage return are escaped, so the first colon that is not escaped
separates them. Blank lines mean nothing, and a line may end with a carriage return.
-/

namespace FunctionNaming.NameMap

/-! ### Writing -/

/-- How a character of a field is written. -/
def escapeChar : Char → List Char
  | '\\' => ['\\', '\\']
  | ':' => ['\\', ':']
  | '\n' => ['\\', 'n']
  | '\r' => ['\\', 'r']
  | c => [c]

/-- How a field is written. -/
def escapeField (cs : List Char) : List Char := cs.flatMap escapeChar

/-- The line of an entry. -/
def Entry.line (e : Entry) : List Char :=
  escapeField e.name.toList ++ ':' :: escapeField e.path.text.toList ++ ['\n']

/-- The text form of a map. -/
def toText (m : NameMap) : String := String.ofList (m.entries.flatMap Entry.line)

/-! ### Reading -/

/-- The character that an escaped one stands for. -/
def unescapeChar : Char → Option Char
  | '\\' => some '\\'
  | ':' => some ':'
  | 'n' => some '\n'
  | 'r' => some '\r'
  | _ => none

/-- The path of a line: everything in the rest of it. -/
def readPath : List Char → Except EntryError (List Char)
  | [] => .ok []
  | ['\\'] => .error .invalidEscape
  | '\\' :: c :: cs =>
    match unescapeChar c with
    | some c' => (readPath cs).map (c' :: ·)
    | none => .error .invalidEscape
  | c :: cs => (readPath cs).map (c :: ·)

/-- The name and the path of a line. -/
def readFields : List Char → Except EntryError (List Char × List Char)
  | [] => .error .missingSeparator
  | ['\\'] => .error .invalidEscape
  | '\\' :: c :: cs =>
    match unescapeChar c with
    | some c' => (readFields cs).map fun (name, path) => (c' :: name, path)
    | none => .error .invalidEscape
  | ':' :: cs => (readPath cs).map fun path => ([], path)
  | c :: cs => (readFields cs).map fun (name, path) => (c :: name, path)

/-- The lines of a text, without the line feeds that separate them. -/
def splitLines : List Char → List (List Char)
  | [] => [[]]
  | '\n' :: cs => [] :: splitLines cs
  | c :: cs =>
    match splitLines cs with
    | line :: lines => (c :: line) :: lines
    | [] => [[c]]

/-- A line without the carriage return at its end. -/
def dropReturn : List Char → List Char
  | [] => []
  | ['\r'] => []
  | c :: cs => c :: dropReturn cs

/-- Adds the entry of a line, unless the line is blank. -/
def insertLine (m : NameMap) (line : List Char) : Except EntryError NameMap :=
  if line.all Text.isBlank then .ok m
  else do
    let (name, path) ← readFields line
    m.insertNamed (String.ofList name) (String.ofList path)

/-- Adds the entries of lines, the first of which has the number `line`. -/
def insertLines (m : NameMap) (line : Nat) : List (List Char) → Except ParseError NameMap
  | [] => .ok m
  | l :: ls =>
    match m.insertLine (dropReturn l) with
    | .error cause => .error ⟨line, cause⟩
    | .ok m' => m'.insertLines (line + 1) ls

/-- The map whose text form is `text`. -/
def ofText (text : String) : Except ParseError NameMap :=
  empty.insertLines 1 (splitLines text.toList)

end FunctionNaming.NameMap
