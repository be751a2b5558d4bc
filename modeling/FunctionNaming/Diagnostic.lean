import FunctionNaming.Token.Kind
import FunctionNaming.Text.Lines
import FunctionNaming.Text.Template

/-!
What can be wrong with a script, where, and how it is told. A diagnostic holds the cause; its
number and wording are functions of the cause.
-/

namespace FunctionNaming

/-- What a diagnostic complains about. -/
inductive Cause where
  | unterminatedString
  | unterminatedComment
  | hexDigitExpected
  | invalidCharacter
  | identifierExpected
  | tokenExpected (kind : TokenKind)
  | expressionExpected
  | statementExpected
  | variableExpected
  | propertyExpected
  | nestedTooDeep
  deriving DecidableEq, Repr

namespace Cause

/-- The number under which a cause is reported. -/
def code : Cause → Nat
  | unterminatedString => 1002
  | identifierExpected => 1003
  | tokenExpected _ => 1005
  | unterminatedComment => 1010
  | expressionExpected => 1109
  | hexDigitExpected => 1125
  | invalidCharacter => 1127
  | statementExpected => 1128
  | variableExpected => 1134
  | propertyExpected => 1136
  | nestedTooDeep => 2589

/-- The wording of a cause. -/
def message : Cause → String
  | unterminatedString => "Unterminated string literal."
  | identifierExpected => "Identifier expected."
  | tokenExpected kind => Text.fill "'\x7b0\x7d' expected." [kind.spelling]
  | unterminatedComment => "'*/' expected."
  | expressionExpected => "Expression expected."
  | hexDigitExpected => "Hexadecimal digit expected."
  | invalidCharacter => "Invalid character."
  | statementExpected => "Declaration or statement expected."
  | variableExpected => "Variable declaration expected."
  | propertyExpected => "Property assignment expected."
  | nestedTooDeep => "Expression or statement nested too deeply."

end Cause

/-- A fault of a script: the bytes it concerns and its cause. -/
structure Diagnostic where
  start : Nat
  length : Nat
  cause : Cause
  deriving DecidableEq, Repr

namespace Diagnostic

/-- Puts `d` in front of the first diagnostic that does not start before it. -/
def insert (d : Diagnostic) : List Diagnostic → List Diagnostic
  | [] => [d]
  | e :: es => if d.start ≤ e.start then d :: e :: es else e :: insert d es

/-- Orders diagnostics by where they start; those that start together keep their order. -/
def sort (ds : List Diagnostic) : List Diagnostic := ds.foldr insert []

/-- One line of a report. Lines and columns are counted from one there. -/
def line (file : String) (lines : Text.LineMap) (d : Diagnostic) : String :=
  let p := lines.position d.start
  file ++ "(" ++ toString (p.line + 1) ++ "," ++ toString (p.column + 1) ++ "): error JS" ++
    toString d.cause.code ++ ": " ++ d.cause.message ++ "\n"

/-- The report on the script `source`, one line for each diagnostic. -/
def report (file source : String) (diagnostics : List Diagnostic) : String :=
  let lines := Text.LineMap.ofSource source.toList
  String.join (diagnostics.map (line file lines))

end Diagnostic

end FunctionNaming
