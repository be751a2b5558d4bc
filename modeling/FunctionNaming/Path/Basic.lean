import FunctionNaming.Word
import FunctionNaming.Text.Quoted

/-!
Paths: the canonical text of the place where a function is bound, such as `a.prototype.b`. A path
is put together from segments, and the text is all that counts afterwards: two paths are the same
when their texts are.
-/

namespace FunctionNaming

/-- How a computed segment is joined to the segments before it. -/
inductive Joint where
  /-- In brackets, like the argument of a member access. -/
  | bracketed
  /-- After a point, like the key of an object literal. -/
  | dotted
  deriving DecidableEq, Repr

/-- One step of a path. -/
inductive Segment where
  | name (text : String)
  /-- The characters of a string that names a property. -/
  | key (value : String)
  /-- The text of an expression: a computed key, or the beginning of a chain that is no name. -/
  | computed (text : String) (joint : Joint)
  deriving DecidableEq, Repr

/-- The canonical text of the place where a function is bound. -/
structure Path where
  text : String
  deriving DecidableEq, Repr

namespace Segment

/-- The literal of a key that does not have the shape of a word. -/
def literal (key : String) : String := String.ofList (Text.quoted '\'' key.toList)

/-- The text of a segment at the beginning of a path. -/
def first : Segment → String
  | name text => text
  | key value => if isWord value.toList then value else literal value
  | computed text _ => text

/-- The text of a segment after others. -/
def next : Segment → String
  | name text => "." ++ text
  | key value => if isWord value.toList then "." ++ value else "[" ++ literal value ++ "]"
  | computed text .bracketed => "[" ++ text ++ "]"
  | computed text .dotted => "." ++ text

end Segment

namespace Path

/-- The path of the given segments. There is none without segments. -/
def ofSegments? : List Segment → Option Path
  | [] => none
  | s :: ss => some ⟨s.first ++ String.join (ss.map Segment.next)⟩

end Path

end FunctionNaming
