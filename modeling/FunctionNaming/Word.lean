import FunctionNaming.Text.Alphabetic
import FunctionNaming.Text.Numeric
import FunctionNaming.Text.Blank

/-!
The characters of a script, told apart by what they may do: begin or continue a word, break a
line, or merely separate tokens; and the words that may not be bound as names.

Outside ASCII the classes follow the character database. Inside ASCII a word consists of letters,
digits, the underscore and the dollar sign.
-/

namespace FunctionNaming

/-- Whether `c` lies outside ASCII. -/
def isForeign (c : Char) : Bool := decide (0x7f < c.toNat)

/-- Whether a word may begin with `c`. -/
def isWordStart (c : Char) : Bool :=
  c.isAlpha || c == '$' || c == '_' || (isForeign c && Text.isAlphabetic c)

/-- Whether a word may go on with `c`. Besides letters and numbers these are the two joiners of
zero width. -/
def isWordPart (c : Char) : Bool :=
  isWordStart c || c.isDigit ||
    (isForeign c && (Text.isAlphabetic c || Text.isNumeric c)) ||
    c == '\u200c' || c == '\u200d'

theorem isWordPart_of_isWordStart {c : Char} (h : isWordStart c = true) : isWordPart c = true := by
  simp [isWordPart, h]

/-- Whether `c` ends a line. -/
def isLineBreak (c : Char) : Bool :=
  c == '\n' || c == '\r' || c == '\u2028' || c == '\u2029'

/-- Whether `c` is white space inside a line. -/
def isSpace (c : Char) : Bool :=
  c == ' ' || c == '\t' || c == '\u000b' || c == '\u000c' || c == '\u00a0' || c == '\ufeff' ||
    (isForeign c && !isLineBreak c && Text.isBlank c)

/-- Whether `cs` has the shape of a word: a first character that may begin one, and further ones
that may continue it. -/
def isWord : List Char → Bool
  | [] => false
  | c :: cs => isWordStart c && cs.all isWordPart

/-- The words that may not be bound as names, in any mode of the language: the keywords, the words
kept for the future, and the two names that strict code may not bind. -/
def reservedWords : List String :=
  ["await", "break", "case", "catch", "class", "const", "continue", "debugger", "default",
   "delete", "do", "else", "enum", "export", "extends", "false", "finally", "for", "function",
   "if", "implements", "import", "in", "instanceof", "interface", "let", "new", "null",
   "package", "private", "protected", "public", "return", "static", "super", "switch", "this",
   "throw", "true", "try", "typeof", "var", "void", "while", "with", "yield", "arguments",
   "eval"]

/-- Whether `name` is a reserved word. -/
def isReservedWord (name : String) : Bool := reservedWords.contains name

end FunctionNaming
