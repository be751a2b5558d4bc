import FunctionNaming.Text.Bytes

/-!
The inside of number and string literals. Reading never moves: it tells how many characters belong
to the literal and what they stand for, and the scanner takes that many.
-/

namespace FunctionNaming.Literal

/-! ### Numbers

A number is kept as it is written, so only its length matters. Digits may be missing on either side
of the point, and an `e` without digits after it does not belong to the number. -/

/-- Whether `c` is a hexadecimal digit. -/
def isHexDigit (c : Char) : Bool :=
  c.isDigit || (decide ('a' ≤ c) && decide (c ≤ 'f')) || (decide ('A' ≤ c) && decide (c ≤ 'F'))

/-- The digits with which `cs` begins. -/
def digits (cs : List Char) : List Char := cs.takeWhile Char.isDigit

/-- Whether `cs` begins with a digit. -/
def startsWithDigit : List Char → Bool
  | [] => false
  | c :: _ => c.isDigit

/-- The length of the exponent with which `cs` begins, zero if there is none. -/
def exponentLength : List Char → Nat
  | e :: cs =>
    if e = 'e' ∨ e = 'E' then
      match cs with
      | sign :: ds =>
        if (sign = '+' ∨ sign = '-') ∧ startsWithDigit ds then 2 + (digits ds).length
        else if startsWithDigit cs then 1 + (digits cs).length
        else 0
      | [] => 0
    else 0
  | [] => 0

/-- The length of the point and the digits after it, zero if there is no point. -/
def fractionLength : List Char → Nat
  | '.' :: cs => 1 + (digits cs).length
  | _ => 0

/-- The length of the decimal number with which `cs` begins. -/
def decimalLength (cs : List Char) : Nat :=
  let whole := (digits cs).length
  let fraction := fractionLength (cs.drop whole)
  whole + fraction + exponentLength (cs.drop (whole + fraction))

/-- Whether `cs` begins with the mark of a hexadecimal number. -/
def startsHex : List Char → Bool
  | '0' :: x :: _ => x == 'x' || x == 'X'
  | _ => false

/-- The number of hexadecimal digits after the mark. -/
def hexLength (cs : List Char) : Nat := ((cs.drop 2).takeWhile isHexDigit).length

/-! ### Strings -/

/-- The value of a hexadecimal digit. -/
def hexDigit (c : Char) : Nat :=
  if c.isDigit then c.toNat - '0'.toNat
  else if decide ('a' ≤ c) then c.toNat - 'a'.toNat + 10
  else c.toNat - 'A'.toNat + 10

/-- The number that hexadecimal digits spell. -/
def hexValue (ds : List Char) : Nat := ds.foldl (fun n d => n * 16 + hexDigit d) 0

/-- The character with code point `n`, or the replacement character when there is none. -/
def charOfCode (n : Nat) : Char := if n.isValidChar then Char.ofNat n else '\ufffd'

/-- What follows a backslash: the characters that it stands for, and the number of characters that
belong to it. An ill-formed escape stands for nothing. -/
structure Escape where
  value : List Char
  length : Nat
  wellFormed : Bool

/-- Reads an escape of exactly `count` hexadecimal digits after one character that names it. -/
def readFixedEscape (count : Nat) (cs : List Char) : Escape :=
  let ds := (cs.take count).takeWhile isHexDigit
  if ds.length = count then ⟨[charOfCode (hexValue ds)], 1 + ds.length, true⟩
  else ⟨[], 1 + ds.length, false⟩

/-- Reads an escape of up to six hexadecimal digits in braces, after the opening one. -/
def readBracedEscape (cs : List Char) : Escape :=
  let ds := (cs.take 6).takeWhile isHexDigit
  match cs.drop ds.length with
  | '}' :: _ =>
    if ds.isEmpty then ⟨[], 3, false⟩
    else ⟨[charOfCode (hexValue ds)], 3 + ds.length, true⟩
  | _ => ⟨[], 2 + ds.length, false⟩

/-- Reads what follows a backslash. A line break there is dropped, and a character without a
meaning of its own stands for itself. -/
def readEscape : List Char → Escape
  | [] => ⟨[], 0, true⟩
  | '\r' :: '\n' :: _ => ⟨[], 2, true⟩
  | 'u' :: '{' :: cs => readBracedEscape cs
  | c :: cs =>
    match c with
    | 'n' => ⟨['\n'], 1, true⟩
    | 'r' => ⟨['\r'], 1, true⟩
    | 't' => ⟨['\t'], 1, true⟩
    | 'b' => ⟨['\u0008'], 1, true⟩
    | 'f' => ⟨['\u000c'], 1, true⟩
    | 'v' => ⟨['\u000b'], 1, true⟩
    | '0' => if startsWithDigit cs then ⟨['0'], 1, true⟩ else ⟨['\u0000'], 1, true⟩
    | 'x' => readFixedEscape 2 cs
    | 'u' => readFixedEscape 4 cs
    | '\r' | '\n' | '\u2028' | '\u2029' => ⟨[], 1, true⟩
    | c => ⟨[c], 1, true⟩

/-- The inside of a string literal and its closing quote: the characters it denotes, its length,
the offsets just behind its ill-formed escapes, and whether the closing quote is there. -/
structure Body where
  value : List Char
  length : Nat
  faults : List Nat
  closed : Bool

/-- Reads the inside of a string literal in quotes `quote`. The string ends without its quote at
the end of the line or of the script. The first number counts the characters that still belong to
the last escape, and `offset` is where the characters stand. -/
def readBody (quote : Char) : Nat → Nat → List Char → Body
  | _, _, [] => ⟨[], 0, [], false⟩
  | pending + 1, offset, c :: cs =>
    let body := readBody quote pending (offset + c.utf8Size) cs
    { body with length := body.length + 1 }
  | 0, offset, c :: cs =>
    if c = quote then ⟨[], 1, [], true⟩
    else if c = '\n' ∨ c = '\r' then ⟨[], 0, [], false⟩
    else if c = '\\' then
      let escape := readEscape cs
      let body := readBody quote escape.length (offset + 1) cs
      { value := escape.value ++ body.value
        length := body.length + 1
        faults :=
          if escape.wellFormed then body.faults
          else (offset + 1 + Text.width (cs.take escape.length)) :: body.faults
        closed := body.closed }
    else
      let body := readBody quote 0 (offset + c.utf8Size) cs
      { body with value := c :: body.value, length := body.length + 1 }

end FunctionNaming.Literal
