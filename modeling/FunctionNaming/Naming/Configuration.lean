import FunctionNaming.Naming.Options
import FunctionNaming.Json.Layout
import FunctionNaming.Json.Value

/-!
Options as a value of JSON: an object with the members `prefix`, `reservedNames` and `mode`, or a
list of the three in this order. What is left out has its default, and other members mean nothing.
-/

namespace FunctionNaming

/-- The word for a mode. -/
def NamingMode.word : NamingMode → String
  | mapped => "mapped"
  | unmapped => "unmapped"

/-- The mode with the word `word`. -/
def NamingMode.ofWord? : String → Option NamingMode
  | "mapped" => some .mapped
  | "unmapped" => some .unmapped
  | _ => none

namespace NamingOptions

open Json Json.Reader

/-- Options as an object. -/
def toJson (o : NamingOptions) : String :=
  String.ofList <| object .oneLine [
    member .oneLine "prefix" (quoted o.leading),
    member .oneLine "reservedNames" (stringList o.reservedNames),
    member .oneLine "mode" (quoted o.mode.word)]

/-- The options that have been read. -/
structure Draft where
  leading : Option String
  reservedNames : Option (List String)
  mode : Option NamingMode

/-- Nothing has been read. -/
def Draft.empty : Draft := ⟨none, none, none⟩

/-- Puts in the defaults. -/
def Draft.complete (d : Draft) : NamingOptions where
  leading := d.leading.getD default.leading
  reservedNames := d.reservedNames.getD default.reservedNames
  mode := d.mode.getD default.mode

/-- Reads the word for a mode. -/
def modeWord : Reader NamingMode := do
  match NamingMode.ofWord? (← string) with
  | some mode => return mode
  | none => throw .mismatch

/-- Reads a mode: its word, or an object whose only key is this word and stands for nothing. -/
def readMode : Reader NamingMode := do
  match ← require with
  | '"' => modeWord
  | '{' =>
    skip
    let mode ← modeWord
    expect ':'
    null
    expect '}'
    return mode
  | _ => throw .malformed

/-- Reads the value of a member whose key has been read, which may not have been there before. -/
def valueOnce {α : Type} (known : Option α) (value : Reader α) : Reader (Option α) := do
  if known.isSome then throw .mismatch
  expect ':'
  return some (← value)

/-- Reads a member of the object. -/
def readMember (d : Draft) : Reader Draft := do
  match ← key with
  | "prefix" => return { d with leading := ← valueOnce d.leading string }
  | "reservedNames" => return { d with reservedNames := ← valueOnce d.reservedNames strings }
  | "mode" => return { d with mode := ← valueOnce d.mode readMode }
  | _ =>
    expect ':'
    skipValue
    return d

/-- Reads the list, whose beginning has been read. -/
def readPositions : Reader Draft := do
  if !(← nextItem ']' true) then return .empty
  let leading ← string
  if !(← nextItem ']' false) then return ⟨leading, none, none⟩
  let reservedNames ← strings
  if !(← nextItem ']' false) then return ⟨leading, reservedNames, none⟩
  let mode ← readMode
  expect ']'
  return ⟨leading, reservedNames, mode⟩

/-- Reads options. -/
def readDraft : Reader Draft := do
  match ← require with
  | '{' =>
    skip
    items '}' readMember .empty
  | '[' =>
    skip
    readPositions
  | _ => refuse

/-- The options that `text` holds. -/
def ofJson (text : String) : Except Fault NamingOptions :=
  (readDraft.runAll text.toList).map Draft.complete

end NamingOptions

end FunctionNaming
