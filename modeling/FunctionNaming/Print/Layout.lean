import FunctionNaming.Print.Writer

/-!
Layouts say what is written, and where a reader would like a space, a line break or an indented
part. They do not depend on whether the output is compact: that decides only what becomes of them
in a writer.
-/

namespace FunctionNaming

/-- What is written and how it may be laid out. -/
inductive Layout where
  | empty
  | text (s : String)
  | space
  | newline
  | indented (inner : Layout)
  | append (first second : Layout)
  deriving Repr

namespace Layout

instance : Append Layout := ⟨append⟩

/-- Writes a layout. -/
def write : Layout → Writer → Writer
  | empty, w => w
  | text s, w => w.write s.toList
  | space, w => w.space
  | newline, w => w.newline
  | indented inner, w => (inner.write w.indent).dedent
  | append first second, w => second.write (first.write w)

@[simp] theorem write_append (a b : Layout) (w : Writer) :
    (a ++ b).write w = b.write (a.write w) := rfl

/-- The output that a layout gives. -/
def render (compact : Bool) (l : Layout) : String := (l.write (.start compact)).contents

/-- Layouts one after the other. -/
def concat : List Layout → Layout
  | [] => empty
  | l :: ls => l ++ concat ls

/-- Layouts with a comma after each but the last. -/
def separated : List Layout → Layout
  | [] => empty
  | [l] => l
  | l :: ls => l ++ text "," ++ space ++ separated ls

end Layout

end FunctionNaming
