import FunctionNaming.Grammar.Statement
import FunctionNaming.Print.Node

/-!
Scripts: the grammar as a whole, and what becomes of a source text.

A rule either moves past a token before it refers to another rule, or refers to a tighter one, and
no chain of ever tighter rules is longer than five. So six references for each token are enough to
read any script, and running out of them is reported like too deep a nesting.
-/

namespace FunctionNaming

namespace Grammar

/-- What each rule stands for, where `parse` is used for the rules that it refers to. -/
def body (parse : Rule → Parser Slot) : Rule → Parser Slot
  | .statement => statement parse
  | .assignment => assignmentExpression parse
  | .binary above => binaryExpression parse above
  | .unary => unaryExpression parse
  | .leftHandSide => leftHandSideExpression parse
  | .construction => construction parse
  | .bindingName => some <$> bindingName parse

/-- Follows a rule through at most `limit` references to other rules. -/
def parseWithin : Nat → Rule → Parser Slot
  | 0, _ => do
    complain .nestedTooDeep
    .cutOff none
  | limit + 1, rule => body (parseWithin limit) rule

/-- The statements of a script up to its end. A closing brace that nothing has opened is skipped. -/
def scriptStatements (parse : Rule → Parser Slot) : Parser (List NodeId) :=
  collect do
    match ← kind with
    | .endOfFile => return (none, false)
    | .closeBrace =>
      complain .statementExpected
      advance
      return (none, true)
    | _ => return (← listedStatement parse, true)

end Grammar

/-- A script that has been read: its nodes, the one that stands for the whole script, and what is
wrong with it. -/
structure Script where
  file : String
  forest : Forest
  root : NodeId
  diagnostics : List Diagnostic

namespace Script

/-- The parser of a whole script of these tokens. -/
def reading (tokens : List Token) : Grammar.Parser (List NodeId) :=
  Grammar.scriptStatements (Grammar.parseWithin (6 * tokens.length + 6))

/-- The statements of a source text and the state in which their reading ends. -/
def readStatements (tokens : List Token) : List NodeId × Grammar.State :=
  (reading tokens).run (.start tokens)

/-- Reads a source text. Whatever is wrong with it, there is a tree, and the faults are told in the
order of the text. -/
def parse (file source : String) : Script :=
  let stream := TokenStream.ofSource source.toList
  let (statements, state) := readStatements stream.tokens.toList
  { file
    forest := state.forest.add 0 source.utf8ByteSize (.script statements file)
    root := state.forest.size
    diagnostics :=
      Diagnostic.sort
        ((state.faults.toList.map Grammar.Fault.diagnostic) ++ stream.faults.toList) }

/-- The forest of a script is that of its statements with the root on top. -/
theorem parse_forest (file source : String) :
    (parse file source).forest =
      let result := readStatements (TokenStream.ofSource source.toList).tokens.toList
      result.2.forest.add 0 source.utf8ByteSize (.script result.1 file) := by
  rw [parse]

theorem parse_root (file source : String) :
    (parse file source).root =
      (readStatements (TokenStream.ofSource source.toList).tokens.toList).2.forest.size := by
  rw [parse]

theorem parse_diagnostics (file source : String) :
    (parse file source).diagnostics = Diagnostic.sort
      ((readStatements (TokenStream.ofSource source.toList).tokens.toList).2.faults.toList.map
        Grammar.Fault.diagnostic ++ (TokenStream.ofSource source.toList).faults.toList) := by
  rw [parse]

/-- Prints the whole script, with strings in the quotes of the source. -/
def print (s : Script) (compact : Bool) : String := s.forest.print ⟨compact, .asWritten⟩ s.root

end Script

end FunctionNaming
