import FunctionNaming.Word
import FunctionNaming.Text.Bytes

/-!
What may stand between two tokens: white space, line breaks and comments. A comment to the end of
its line leaves the line break to the gap; a block comment counts as a line break when it contains
one and is closed. A block comment that is never closed reaches the end of the script.
-/

namespace FunctionNaming

/-- Where the reading of a gap stands: outside comments, in a comment to the end of the line, or in
a block comment, of which are kept its offset and whether it has contained a line break. -/
inductive GapMode where
  | outside
  | lineComment
  | blockComment (start : Nat) (broken : Bool)

/-- A gap that has been read: what follows it and where that is, whether a line ends in it, and the
offset of the block comment that it left open. -/
structure Gap where
  rest : List Char
  offset : Nat
  lineBreak : Bool
  unclosed : Option Nat

namespace Gap

/-- Reads on from `offset`; `broken` tells whether a line has ended in the gap so far. -/
def readFrom (offset : Nat) (broken : Bool) : GapMode → List Char → Gap
  | .blockComment start _, [] => ⟨[], offset, broken, some start⟩
  | _, [] => ⟨[], offset, broken, none⟩
  | .lineComment, c :: cs =>
    if isLineBreak c then readFrom (offset + c.utf8Size) true .outside cs
    else readFrom (offset + c.utf8Size) broken .lineComment cs
  | .blockComment _ broken', '*' :: '/' :: cs =>
    readFrom (offset + 2) (broken || broken') .outside cs
  | .blockComment start broken', c :: cs =>
    readFrom (offset + c.utf8Size) broken (.blockComment start (broken' || isLineBreak c)) cs
  | .outside, '/' :: '/' :: cs => readFrom (offset + 2) broken .lineComment cs
  | .outside, '/' :: '*' :: cs => readFrom (offset + 2) broken (.blockComment offset false) cs
  | .outside, c :: cs =>
    if isLineBreak c then readFrom (offset + c.utf8Size) true .outside cs
    else if isSpace c then readFrom (offset + c.utf8Size) broken .outside cs
    else ⟨c :: cs, offset, broken, none⟩

/-- The gap with which `cs` begins, where `cs` stands at `offset`. -/
def read (offset : Nat) (cs : List Char) : Gap := readFrom offset false .outside cs

end Gap

end FunctionNaming
