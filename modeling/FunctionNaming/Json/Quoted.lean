import FunctionNaming.Json.Reader

/-!
Strings of JSON: how they are written, and how they are read.

A character above U+FFFF may be escaped as two code units of UTF-16, the first of which leads and
the second trails. Neither may stand alone.
-/

namespace FunctionNaming.Json

/-! ### Writing -/

/-- A digit of the hexadecimal system, with small letters. -/
def hexDigit (n : Nat) : Char :=
  if n < 10 then Char.ofNat ('0'.toNat + n) else Char.ofNat ('a'.toNat + (n - 10))

/-- How a character is written inside quotes. -/
def escape (c : Char) : List Char :=
  match c with
  | '"' => ['\\', '"']
  | '\\' => ['\\', '\\']
  | '\u0008' => ['\\', 'b']
  | '\u000c' => ['\\', 'f']
  | '\n' => ['\\', 'n']
  | '\r' => ['\\', 'r']
  | '\t' => ['\\', 't']
  | c =>
    if c.toNat < 0x20 then ['\\', 'u', '0', '0', hexDigit (c.toNat / 16), hexDigit (c.toNat % 16)]
    else [c]

/-- How a text is written. -/
def quoted (text : String) : List Char := '"' :: text.toList.flatMap escape ++ ['"']

/-! ### Escapes -/

/-- The character that a letter after the backslash stands for, codes apart. -/
def unescape : Char → Option Char
  | '"' => some '"'
  | '\\' => some '\\'
  | '/' => some '/'
  | 'b' => some '\u0008'
  | 'f' => some '\u000c'
  | 'n' => some '\n'
  | 'r' => some '\r'
  | 't' => some '\t'
  | _ => none

/-- The value of a hexadecimal digit. -/
def hexValue (c : Char) : Option Nat :=
  if '0' ≤ c ∧ c ≤ '9' then some (c.toNat - '0'.toNat)
  else if 'a' ≤ c ∧ c ≤ 'f' then some (c.toNat - 'a'.toNat + 10)
  else if 'A' ≤ c ∧ c ≤ 'F' then some (c.toNat - 'A'.toNat + 10)
  else none

/-- The number that four hexadecimal digits stand for. -/
def codeUnit (a b c d : Char) : Option Nat := do
  return (((← hexValue a) * 16 + (← hexValue b)) * 16 + (← hexValue c)) * 16 + (← hexValue d)

/-- Whether a code unit is the first half of a pair. -/
def isLeading (n : Nat) : Bool := 0xd800 ≤ n && n < 0xdc00

/-- Whether a code unit is the second half of a pair. -/
def isTrailing (n : Nat) : Bool := 0xdc00 ≤ n && n < 0xe000

/-- The character of a pair of code units. -/
def joinUnits (leading trailing : Nat) : Char :=
  Char.ofNat (0x10000 + (leading - 0xd800) * 0x400 + (trailing - 0xdc00))

/-- What is wrong with a code of which `cs` is all that is left: the text ends within the four bytes
of a code, or something that is no digit stands there. -/
def codeFault (cs : List Char) : Fault :=
  if (String.ofList (cs.take 4)).utf8ByteSize < 4 then .endOfInput else .malformed

/-- What is wrong with the text after the first half of a pair, which is not another code. -/
def pairFault : List Char → Fault
  | [] => .endOfInput
  | ['\\'] => .endOfInput
  | '\\' :: 'u' :: cs => codeFault cs
  | _ => .malformed

/-! ### Reading -/

/-- Puts a character in front of what a reader has found. -/
def consChar (c : Char) (r : Except Fault (List Char × List Char)) :
    Except Fault (List Char × List Char) :=
  r.map fun (text, rest) => (c :: text, rest)

/-- The text up to the closing quote and the rest behind it. -/
def readQuoted : List Char → Except Fault (List Char × List Char)
  | [] => .error .endOfInput
  | '"' :: cs => .ok ([], cs)
  | ['\\'] => .error .endOfInput
  | '\\' :: 'u' :: a :: b :: c :: d :: cs =>
    match codeUnit a b c d with
    | none => .error .malformed
    | some n =>
      if isTrailing n then .error .malformed
      else if isLeading n then
        match cs with
        | '\\' :: 'u' :: e :: f :: g :: h :: cs =>
          match codeUnit e f g h with
          | none => .error .malformed
          | some m =>
            if isTrailing m then consChar (joinUnits n m) (readQuoted cs) else .error .malformed
        | cs => .error (pairFault cs)
      else consChar (Char.ofNat n) (readQuoted cs)
  | '\\' :: 'u' :: cs => .error (codeFault cs)
  | '\\' :: c :: cs =>
    match unescape c with
    | some c' => consChar c' (readQuoted cs)
    | none => .error .malformed
  | c :: cs => if c.toNat < 0x20 then .error .malformed else consChar c (readQuoted cs)

/-- The rest behind the closing quote of a text that nobody asks for. Halves of pairs may stand
alone in it. -/
def dropQuoted : List Char → Except Fault (List Char)
  | [] => .error .endOfInput
  | '"' :: cs => .ok cs
  | ['\\'] => .error .endOfInput
  | '\\' :: 'u' :: a :: b :: c :: d :: cs =>
    match codeUnit a b c d with
    | none => .error .malformed
    | some _ => dropQuoted cs
  | '\\' :: 'u' :: cs => .error (codeFault cs)
  | '\\' :: c :: cs => if (unescape c).isSome then dropQuoted cs else .error .malformed
  | c :: cs => if c.toNat < 0x20 then .error .malformed else dropQuoted cs

namespace Reader

/-- Reads a string whose first quote has been read. -/
def quotedText : Reader String := do
  let (text, rest) ← readQuoted (← get)
  set rest
  return String.ofList text

/-- Reads a string whose first quote has been read and forgets it. -/
def skipQuoted : Reader Unit := do
  set (← dropQuoted (← get))

end Reader

end FunctionNaming.Json
