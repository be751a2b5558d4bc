import FunctionNaming.NameMap.Basic
import FunctionNaming.Json.Layout
import FunctionNaming.Json.Value

/-!
The object form of a map: an object of JSON whose keys are the names and whose values are the paths,
in the order of the entries.

A text is read entry by entry. If an entry cannot be taken into the map, nothing that stands behind
it matters.
-/

namespace FunctionNaming.NameMap

/-- The object form of a map. -/
def toObject (m : NameMap) (layout : Json.Layout) : String :=
  String.ofList <| Json.object layout <|
    m.entries.map fun e => Json.member layout e.name (Json.quoted e.path.text)

/-- Why a text is not the object form of a map. -/
inductive ObjectError where
  | json (fault : Json.Fault)
  | entry (error : ParseError)
  deriving DecidableEq, Repr

/-- The wording of an error. -/
def ObjectError.message : ObjectError → String
  | json fault => fault.message
  | entry error => error.message

open Json Json.Reader

/-- Reads another entry, as a pair of a path and a name, or the end of the object. -/
def nextEntry (first : Bool) : Reader (Option (String × String)) := do
  if ← nextItem '}' first then
    let name ← key
    expect ':'
    return some (← string, name)
  else return none

/-- The entries, at most `limit` of them, in front of the first fault, and this fault. -/
def entriesWithin : Nat → Bool → List Char → List (String × String) × Option Fault
  | 0, _, _ => ([], some .malformed)
  | limit + 1, first, cs =>
    match (nextEntry first).run cs with
    | .error fault => ([], some fault)
    | .ok (none, cs) =>
      match finish.run cs with
      | .error fault => ([], some fault)
      | .ok _ => ([], none)
    | .ok (some entry, cs) =>
      let (entries, fault) := entriesWithin limit false cs
      (entry :: entries, fault)

/-- The entries of an object in front of the first fault, and this fault. -/
def readEntries (cs : List Char) : List (String × String) × Option Fault :=
  match (opened '{').run cs with
  | .error fault => ([], some fault)
  | .ok (_, cs) => entriesWithin (cs.length + 1) true cs

/-- The map whose object form is `text`. -/
def ofObject (text : String) : Except ObjectError NameMap :=
  let (entries, fault) := readEntries text.toList
  match ofPairs entries, fault with
  | .error error, _ => .error (.entry error)
  | .ok _, some fault => .error (.json fault)
  | .ok m, none => .ok m

end FunctionNaming.NameMap
