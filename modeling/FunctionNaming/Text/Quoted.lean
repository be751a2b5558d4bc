/-!
String literals as they are written: the characters between two quotes, where line breaks, control
characters, the backslash and the quote itself are escaped.
-/

namespace FunctionNaming.Text

/-- A digit of the hexadecimal system, with capital letters. -/
def upperHexDigit (n : Nat) : Char :=
  if n < 10 then Char.ofNat ('0'.toNat + n) else Char.ofNat ('A'.toNat + (n - 10))

/-- The escape of a character by the four digits of its code point. -/
def unicodeEscape (c : Char) : List Char :=
  let n := c.toNat
  ['\\', 'u', upperHexDigit (n / 4096 % 16), upperHexDigit (n / 256 % 16),
    upperHexDigit (n / 16 % 16), upperHexDigit (n % 16)]

/-- How `c` is written inside the quotes `quote`. -/
def escape (quote c : Char) : List Char :=
  match c with
  | '\n' => ['\\', 'n']
  | '\r' => ['\\', 'r']
  | '\t' => ['\\', 't']
  | '\\' => ['\\', '\\']
  | '\u0000' => ['\\', 'x', '0', '0']
  | '\u2028' => ['\\', 'u', '2', '0', '2', '8']
  | '\u2029' => ['\\', 'u', '2', '0', '2', '9']
  | c =>
    if c = quote then ['\\', c]
    else if c.toNat < 0x20 ∨ c = '\u007f' then unicodeEscape c
    else [c]

/-- Writes `cs` as a string literal in the quotes `quote`. -/
def quoted (quote : Char) (cs : List Char) : List Char :=
  quote :: cs.flatMap (escape quote) ++ [quote]

end FunctionNaming.Text
