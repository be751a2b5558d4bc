import FunctionNaming.Syntax.Forest
import FunctionNaming.Text.Quoted
import FunctionNaming.Print.Layout

/-!
How the shapes of the language are written. A node is laid out by its shape, from the layouts of
its parts; missing parts are written as nothing.
-/

namespace FunctionNaming

/-- Which quotes a string literal is written with. -/
inductive QuoteStyle where
  | single | double
  /-- Those of the source. -/
  | asWritten
  deriving DecidableEq, Repr

/-- The quotes for a literal that the source has in the quotes `written`. -/
def QuoteStyle.quote (written : Char) : QuoteStyle → Char
  | single => '\''
  | double => '"'
  | asWritten => written

/-- How a node is printed. -/
structure PrintStyle where
  compact : Bool
  quotes : QuoteStyle
  deriving DecidableEq, Repr

/-- How expressions are printed where they are part of a path. -/
def PrintStyle.path : PrintStyle := ⟨true, .single⟩

/-- The word that opens a list of variables. -/
def VariableKeyword.spelling : VariableKeyword → String
  | .var => "var"
  | .let => "let"
  | .const => "const"

/-- The word that stands before the name of an accessor. -/
def AccessorRole.spelling : AccessorRole → String
  | .getter => "get"
  | .setter => "set"

namespace Layout

variable {ν : Type} (shape? : ν → Option (ShapeOf ν)) (print : ν → Layout)

/-! ### Parts -/

/-- What is in a place. -/
def slot : Option ν → Layout
  | none => empty
  | some part => print part

/-- A word and a space, if the word is there at all. -/
def wordIf (condition : Bool) (word : String) : Layout :=
  if condition then text word ++ space else empty

/-- A mark, if it is there at all. -/
def markIf (condition : Bool) (mark : String) : Layout :=
  if condition then text mark else empty

/-- Whether a node is a hole in a list. -/
def isHole (part : ν) : Bool :=
  match shape? part with
  | some .hole => true
  | _ => false

/-- Nodes separated by commas. A hole at the end needs a comma of its own to be one. -/
def commaList (parts : List ν) : Layout :=
  separated (parts.map print) ++ markIf (parts.getLast?.any (isHole shape?)) ","

/-- Nodes separated by commas, in parentheses. -/
def inParentheses (parts : List ν) : Layout :=
  text "(" ++ commaList shape? print parts ++ text ")"

/-- Nodes separated by commas, in brackets. -/
def inBrackets (parts : List ν) : Layout :=
  text "[" ++ commaList shape? print parts ++ text "]"

/-- Nodes separated by commas, in braces. -/
def inBraces (parts : List ν) : Layout :=
  if parts.isEmpty then text "\x7b\x7d"
  else text "\x7b" ++ space ++ commaList shape? print parts ++ space ++ text "\x7d"

/-- Nodes on a line each. -/
def lines (parts : List ν) : Layout := concat (parts.map fun part => print part ++ newline)

/-- Nodes on a line each, indented, in braces. -/
def blockOf (parts : List ν) : Layout :=
  if parts.isEmpty then text "\x7b\x7d"
  else text "\x7b" ++ newline ++ indented (lines print parts) ++ text "\x7d"

/-- A value after the sign of assignment. -/
def initializer : Option ν → Layout
  | none => empty
  | some value => space ++ text "=" ++ space ++ print value

/-- A part after a space, if there is one. -/
def afterSpace : Option ν → Layout
  | none => empty
  | some part => space ++ print part

/-! ### Shapes -/

/-- A function with its word or its arrow. -/
def function (role : FunctionRole) (p : FunctionParts ν) : Layout :=
  match role with
  | .arrow =>
    wordIf p.isAsync "async" ++ inParentheses shape? print p.parameters ++ space ++ text "=>" ++
      space ++ slot print p.body
  | .declaration | .expression =>
    wordIf p.isAsync "async" ++ text "function" ++ markIf p.isGenerator "*" ++
      afterSpace print p.name ++ inParentheses shape? print p.parameters ++ space ++
      slot print p.body

/-- A class. -/
def classLike (name heritage : Option ν) (members : List ν) : Layout :=
  text "class" ++ afterSpace print name ++
    (match heritage with
      | none => empty
      | some id => space ++ text "extends" ++ space ++ print id) ++
    space ++ blockOf print members

/-- A statement of a word and perhaps an expression. -/
def keywordStatement (word : String) (expression : Option ν) : Layout :=
  text word ++ afterSpace print expression ++ text ";"

/-- A word and a condition in parentheses. -/
def head (word : String) (condition : Option ν) : Layout :=
  text word ++ space ++ text "(" ++ slot print condition ++ text ")" ++ space

/-- Whether an exported node is a declaration, after which no semicolon stands. -/
def isDeclaration (exported : Option ν) : Bool :=
  match exported.bind shape? with
  | some (.function .declaration _) | some (.classLike .declaration _ _ _) => true
  | _ => false

/-- A shape, laid out by `print` for its parts. -/
def shape (quotes : QuoteStyle) : ShapeOf ν → Layout
  | .script statements _ => lines print statements
  | .variableStatement list => slot print list ++ text ";"
  | .variableList keyword declarators =>
    text keyword.spelling ++ space ++ commaList shape? print declarators
  | .declarator name value => slot print name ++ initializer print value
  | .function role parts => function shape? print role parts
  | .classLike _ name heritage members => classLike print name heritage members
  | .block statements => blockOf print statements
  | .expressionStatement expression => slot print expression ++ text ";"
  | .returnStatement expression => keywordStatement print "return" expression
  | .throwStatement expression => keywordStatement print "throw" expression
  | .ifStatement condition consequent alternative =>
    head print "if" condition ++ slot print consequent ++
      (match alternative with
        | none => empty
        | some id => space ++ text "else" ++ space ++ print id)
  | .whileStatement condition body => head print "while" condition ++ slot print body
  | .forStatement first condition increment body =>
    text "for" ++ space ++ text "(" ++ slot print first ++ text ";" ++
      afterSpace print condition ++ text ";" ++ afterSpace print increment ++ text ")" ++
      space ++ slot print body
  | .emptyStatement => text ";"
  | .exportDefault exported =>
    text "export default" ++ space ++ slot print exported ++
      markIf (!isDeclaration shape? exported) ";"
  | .exportDeclaration declaration => text "export" ++ space ++ slot print declaration
  | .identifier name => text name
  | .stringLiteral written value =>
    text (String.ofList (Text.quoted (quotes.quote written) value.toList))
  | .numberLiteral digits => text digits
  | .trueLiteral => text "true"
  | .falseLiteral => text "false"
  | .nullLiteral => text "null"
  | .thisExpression => text "this"
  | .superExpression => text "super"
  | .arrayLiteral elements => inBrackets shape? print elements
  | .objectLiteral members => inBraces shape? print members
  | .hole => empty
  | .propertyAssignment name value => slot print name ++ text ":" ++ space ++ slot print value
  | .shorthandProperty name => slot print name
  | .spread expression => text "..." ++ slot print expression
  | .computedName expression => text "[" ++ slot print expression ++ text "]"
  | .method isStatic isAsync isGenerator name parameters body =>
    wordIf isStatic "static" ++ wordIf isAsync "async" ++ markIf isGenerator "*" ++
      slot print name ++ inParentheses shape? print parameters ++ space ++ slot print body
  | .accessor role isStatic name parameters body =>
    wordIf isStatic "static" ++ text role.spelling ++ space ++ slot print name ++
      inParentheses shape? print parameters ++ space ++ slot print body
  | .classConstructor parameters body =>
    text "constructor" ++ inParentheses shape? print parameters ++ space ++ slot print body
  | .classField isStatic name value =>
    wordIf isStatic "static" ++ slot print name ++ initializer print value ++ text ";"
  | .parameter isRest name value =>
    markIf isRest "..." ++ slot print name ++ initializer print value
  | .pattern .object elements => inBraces shape? print elements
  | .pattern .array elements => inBrackets shape? print elements
  | .patternElement isRest property name value =>
    markIf isRest "..." ++
      (match property with
        | none => empty
        | some id => print id ++ text ":" ++ space) ++
      slot print name ++ initializer print value
  | .propertyAccess object name => slot print object ++ text "." ++ slot print name
  | .elementAccess object argument =>
    slot print object ++ text "[" ++ slot print argument ++ text "]"
  | .call callee arguments => slot print callee ++ inParentheses shape? print arguments
  | .new callee arguments =>
    text "new" ++ space ++ slot print callee ++
      (match arguments with
        | none => empty
        | some ids => inParentheses shape? print ids)
  | .binary left operator right =>
    slot print left ++ (if operator = .comma then empty else space) ++
      text operator.spelling ++ space ++ slot print right
  | .prefixed operator operand =>
    text operator.spelling ++ (if operator.isKeyword then space else empty) ++
      slot print operand
  | .postfixed operator operand => slot print operand ++ text operator.spelling
  | .conditional condition whenTrue whenFalse =>
    slot print condition ++ space ++ text "?" ++ space ++ slot print whenTrue ++ space ++
      text ":" ++ space ++ slot print whenFalse
  | .parenthesized expression => text "(" ++ slot print expression ++ text ")"
  | .yieldExpression delegates expression =>
    text "yield" ++ markIf delegates "*" ++ afterSpace print expression

end Layout

namespace Forest

/-- Lays out a node and what is at most `limit` levels below it. -/
def layoutWithin (f : Forest) (quotes : QuoteStyle) : Nat → NodeId → Layout
  | 0, _ => .empty
  | limit + 1, id =>
    match f.shape? id with
    | some shape => Layout.shape f.shape? (f.layoutWithin quotes limit) quotes shape
    | none => .empty

/-- Lays out a node with all its parts. No node is further down than there are nodes. -/
def layout (f : Forest) (quotes : QuoteStyle) (id : NodeId) : Layout :=
  f.layoutWithin quotes f.size id

/-- Prints a node. -/
def print (f : Forest) (style : PrintStyle) (id : NodeId) : String :=
  (f.layout style.quotes id).render style.compact

end Forest

end FunctionNaming
