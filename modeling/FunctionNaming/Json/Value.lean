import FunctionNaming.Json.Number
import FunctionNaming.Json.Quoted

/-!
Values of JSON: strings and lists of strings, values of a kind that nobody asks for, and values that
are skipped. What is still to be skipped is kept in a list, so values may be nested to any depth.
-/

namespace FunctionNaming.Json.Reader

/-- Reads a value that is neither a list nor an object; `text` reads what follows the quote of a
string and `numeral` reads a number. -/
def scalar (text numeral : Reader Unit) : Reader Unit := do
  match ← require with
  | 'n' => spelled "null".toList
  | 't' => spelled "true".toList
  | 'f' => spelled "false".toList
  | '"' =>
    skip
    text
  | c => if c = '-' || c.isDigit then numeral else throw .malformed

/-! ### Values that are asked for -/

/-- Reads a number that is not too large. -/
def numberInRange : Reader Unit := do
  if (← number .endOfInput).tooLarge then throw .malformed

/-- Fails on a value that is not of the kind that is asked for. Lists and objects are refused at
once, while other values must be JSON to be refused. -/
def refuse {α : Type} : Reader α := do
  match ← require with
  | '[' | '{' => throw .mismatch
  | _ =>
    scalar (discard quotedText) numberInRange
    throw .mismatch

/-- Reads the sign with which values of one kind begin, and refuses the others. -/
def opened (c : Char) : Reader Unit := do
  if (← require) = c then skip else refuse

/-- Reads a string. -/
def string : Reader String := do
  opened '"'
  quotedText

/-- Reads a list of strings. -/
def strings : Reader (List String) := do
  opened '['
  let reversed ← items ']' (fun done => return (← string) :: done) []
  return reversed.reverse

/-- Reads the value `null`. -/
def null : Reader Unit := do
  if (← require) = 'n' then spelled "null".toList else refuse

/-- Reads the key of a member of an object. -/
def key : Reader String := do
  expect '"'
  quotedText

/-! ### Values that are not asked for -/

/-- Something that is still to be skipped: a value, or the rest of a list or of an object, of which
nothing has been read if `first` is set. -/
inductive Pending where
  | value
  | items (first : Bool)
  | members (first : Bool)

/-- Skips what is in the list, by at most `limit` steps. -/
def skipWithin : Nat → List Pending → Reader Unit
  | _, [] => return
  | 0, _ :: _ => throw .malformed
  | limit + 1, .value :: pending => do
    match ← require with
    | '[' =>
      skip
      skipWithin limit (.items true :: pending)
    | '{' =>
      skip
      skipWithin limit (.members true :: pending)
    | _ =>
      scalar skipQuoted (discard (number .malformed))
      skipWithin limit pending
  | limit + 1, .items first :: pending => do
    if ← nextItem ']' first then skipWithin limit (.value :: .items false :: pending)
    else skipWithin limit pending
  | limit + 1, .members first :: pending => do
    if ← nextItem '}' first then
      expect '"'
      skipQuoted
      expect ':'
      skipWithin limit (.value :: .members false :: pending)
    else skipWithin limit pending

/-- Skips a value. A step that reads nothing is followed by one that does, so there are at most
twice as many steps as characters. -/
def skipValue : Reader Unit := do
  skipWithin (2 * ((← get).length + 1)) [.value]

end FunctionNaming.Json.Reader
