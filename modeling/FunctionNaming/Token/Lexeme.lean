import FunctionNaming.Word
import FunctionNaming.Diagnostic
import FunctionNaming.Token.Literal

/-!
The longest token with which a text begins, as a kind, a number of characters and a value. The
reader looks at the first character: it opens a string, a number or a word, or else a mark, and a
character that does none of these is a token of its own that nothing knows.
-/

namespace FunctionNaming

/-- A token before it is cut off the text. -/
structure Lexeme where
  kind : TokenKind
  /-- The number of characters that belong to it. -/
  length : Nat
  value : List Char
  faults : List Diagnostic

namespace Lexeme

/-- The string literal with which `cs` begins. -/
def ofString (offset : Nat) (quote : Char) (cs : List Char) : Lexeme :=
  let body := Literal.readBody quote 0 (offset + 1) (cs.drop 1)
  let length := body.length + 1
  { kind := .string
    length
    value := body.value
    faults :=
      body.faults.map (fun o => ⟨o, 1, .hexDigitExpected⟩) ++
        if body.closed then []
        else [⟨offset, Text.width (cs.take length), .unterminatedString⟩] }

/-- The number with which `cs` begins. -/
def ofNumber (offset : Nat) (cs : List Char) : Lexeme :=
  if Literal.startsHex cs then
    let count := Literal.hexLength cs
    { kind := .number
      length := 2 + count
      value := cs.take (2 + count)
      faults := if count = 0 then [⟨offset + 2, 1, .hexDigitExpected⟩] else [] }
  else
    let length := Literal.decimalLength cs
    { kind := .number, length, value := cs.take length, faults := [] }

/-- The word with which `cs` begins: a keyword if it is spelled like one. -/
def ofWord (cs : List Char) : Lexeme :=
  let text := cs.takeWhile isWordPart
  { kind := (TokenKind.keyword? (String.ofList text)).getD .identifier
    length := text.length
    value := text
    faults := [] }

/-- The token that consists of the one character `c`, which means nothing. -/
def ofUnknown (offset : Nat) (c : Char) : Lexeme where
  kind := .unknown
  length := 1
  value := []
  faults := [⟨offset, c.utf8Size, .invalidCharacter⟩]

/-- Whether a number begins here: with a digit, or with a point before one. -/
def startsNumber : List Char → Bool
  | '.' :: cs => Literal.startsWithDigit cs
  | cs => Literal.startsWithDigit cs

/-- The token with which `cs`, a text at `offset` that no gap precedes, begins. -/
def read (offset : Nat) : List Char → Lexeme
  | [] => ⟨.endOfFile, 0, [], []⟩
  | c :: cs =>
    if c = '"' ∨ c = '\'' then ofString offset c (c :: cs)
    else if startsNumber (c :: cs) then ofNumber offset (c :: cs)
    else if isWordStart c then ofWord (c :: cs)
    else
      match TokenKind.mark? (c :: cs) with
      | some kind => ⟨kind, kind.spelling.length, [], []⟩
      | none => ofUnknown offset c

end Lexeme

end FunctionNaming
