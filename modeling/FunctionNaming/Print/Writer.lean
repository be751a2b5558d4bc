import FunctionNaming.Word

/-!
Output in the making. Pieces of text are written one after the other; between two of them that
would be read as one, two words, two pluses or two minuses, a space is put. Spaces and line breaks
that are there for the reader only are left out of compact output.
-/

namespace FunctionNaming

/-- Output in the making: what has been written, the last character first, how deep the next line
is indented, whether the output is compact, and whether a line has just begun. -/
structure Writer where
  written : List Char
  level : Nat
  compact : Bool
  atLineStart : Bool
  deriving DecidableEq, Repr

namespace Writer

/-- A writer that has written nothing. -/
def start (compact : Bool) : Writer := ⟨[], 0, compact, true⟩

/-- What has been written. -/
def contents (w : Writer) : String := String.ofList w.written.reverse

/-- Whether a space has to keep two characters apart, the first of which is the last one written. -/
def needsSeparator (last next : Char) : Bool :=
  (isWordPart last && isWordPart next) || (last == '+' && next == '+') ||
    (last == '-' && next == '-')

/-- Indents a line that has just begun. -/
def beginLine (w : Writer) : Writer :=
  if w.atLineStart then
    { w with
      atLineStart := false
      written :=
        if w.compact then w.written else List.replicate (4 * w.level) ' ' ++ w.written }
  else w

/-- Puts a space if the next character would otherwise be read together with the last one. -/
def separate (w : Writer) (next : Char) : Writer :=
  match w.written with
  | last :: _ => if needsSeparator last next then { w with written := ' ' :: w.written } else w
  | [] => w

/-- Writes a piece of text. The empty text leaves no trace. -/
def write (w : Writer) (text : List Char) : Writer :=
  match text with
  | [] => w
  | c :: _ =>
    let w := w.beginLine.separate c
    { w with written := text.reverse ++ w.written }

/-- Writes a space that is there for the reader, but not at the beginning of a line and not after
another space. -/
def space (w : Writer) : Writer :=
  if w.compact || w.atLineStart || w.written.head? == some ' ' then w
  else { w with written := ' ' :: w.written }

/-- Ends the line for the reader, without the spaces at its end. -/
def newline (w : Writer) : Writer :=
  if w.compact then w
  else { w with written := '\n' :: w.written.dropWhile (· == ' '), atLineStart := true }

/-- Indents the lines that follow by one more step. -/
def indent (w : Writer) : Writer := { w with level := w.level + 1 }

/-- Indents the lines that follow by one step less. -/
def dedent (w : Writer) : Writer := { w with level := w.level - 1 }

/-! ### What stays

A writer is compact from the beginning to the end. -/

theorem compact_beginLine (w : Writer) : w.beginLine.compact = w.compact := by
  rw [beginLine]
  split <;> rfl

theorem compact_separate (w : Writer) (c : Char) : (w.separate c).compact = w.compact := by
  rw [separate]
  split
  · split <;> rfl
  · rfl

theorem compact_write (w : Writer) (text : List Char) : (w.write text).compact = w.compact := by
  cases text with
  | nil => rfl
  | cons c text => simp [write, compact_beginLine, compact_separate]

theorem compact_space (w : Writer) : w.space.compact = w.compact := by
  rw [space]
  split <;> rfl

theorem compact_newline (w : Writer) : w.newline.compact = w.compact := by
  rw [newline]
  split <;> rfl

end Writer

end FunctionNaming
