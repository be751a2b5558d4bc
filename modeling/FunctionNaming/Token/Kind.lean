/-!
The kinds of tokens. Marks and keywords have one spelling each; numbers, strings and identifiers
are spelled in many ways, and so is what the scanner does not know.

The spellings are the only table. Which texts are keywords, and which marks a text begins with, is
read off it, so a kind and its spelling cannot disagree.
-/

namespace FunctionNaming

/-- What a token is. -/
inductive TokenKind where
  | unknown | endOfFile | number | string | identifier
  | openBrace | closeBrace | openParen | closeParen | openBracket | closeBracket | dot
  | ellipsis | semicolon | comma | question | colon | arrow | less | greater
  | lessEqual | greaterEqual | looseEqual | looseUnequal | strictEqual
  | strictUnequal | plus | minus | star | slash | percent | increment | decrement
  | bang | tilde | logicalAnd | logicalOr | assign | addAssign | subAssign
  | mulAssign | divAssign | remAssign
  | classKeyword | constKeyword | defaultKeyword | deleteKeyword | elseKeyword | exportKeyword
  | extendsKeyword | falseKeyword | forKeyword | functionKeyword | ifKeyword | inKeyword
  | instanceofKeyword | newKeyword | nullKeyword | returnKeyword | superKeyword | thisKeyword
  | throwKeyword | trueKeyword | typeofKeyword | varKeyword | voidKeyword | whileKeyword
  | letKeyword | staticKeyword | yieldKeyword | asyncKeyword | getKeyword | setKeyword
  deriving DecidableEq, Repr, Inhabited

namespace TokenKind

/-- The text of a mark or a keyword. The other kinds have no fixed text. -/
def spelling : TokenKind → String
  | .unknown | .endOfFile | .number | .string | .identifier => ""
  | .openBrace => "\x7b"
  | .closeBrace => "\x7d"
  | .openParen => "("
  | .closeParen => ")"
  | .openBracket => "["
  | .closeBracket => "]"
  | .dot => "."
  | .ellipsis => "..."
  | .semicolon => ";"
  | .comma => ","
  | .question => "?"
  | .colon => ":"
  | .arrow => "=>"
  | .less => "<"
  | .greater => ">"
  | .lessEqual => "<="
  | .greaterEqual => ">="
  | .looseEqual => "=="
  | .looseUnequal => "!="
  | .strictEqual => "==="
  | .strictUnequal => "!=="
  | .plus => "+"
  | .minus => "-"
  | .star => "*"
  | .slash => "/"
  | .percent => "%"
  | .increment => "++"
  | .decrement => "--"
  | .bang => "!"
  | .tilde => "~"
  | .logicalAnd => "&&"
  | .logicalOr => "||"
  | .assign => "="
  | .addAssign => "+="
  | .subAssign => "-="
  | .mulAssign => "*="
  | .divAssign => "/="
  | .remAssign => "%="
  | .classKeyword => "class"
  | .constKeyword => "const"
  | .defaultKeyword => "default"
  | .deleteKeyword => "delete"
  | .elseKeyword => "else"
  | .exportKeyword => "export"
  | .extendsKeyword => "extends"
  | .falseKeyword => "false"
  | .forKeyword => "for"
  | .functionKeyword => "function"
  | .ifKeyword => "if"
  | .inKeyword => "in"
  | .instanceofKeyword => "instanceof"
  | .newKeyword => "new"
  | .nullKeyword => "null"
  | .returnKeyword => "return"
  | .superKeyword => "super"
  | .thisKeyword => "this"
  | .throwKeyword => "throw"
  | .trueKeyword => "true"
  | .typeofKeyword => "typeof"
  | .varKeyword => "var"
  | .voidKeyword => "void"
  | .whileKeyword => "while"
  | .letKeyword => "let"
  | .staticKeyword => "static"
  | .yieldKeyword => "yield"
  | .asyncKeyword => "async"
  | .getKeyword => "get"
  | .setKeyword => "set"

/-- The keywords. -/
def keywords : List TokenKind :=
  [.classKeyword, .constKeyword, .defaultKeyword, .deleteKeyword, .elseKeyword, .exportKeyword,
   .extendsKeyword, .falseKeyword, .forKeyword, .functionKeyword, .ifKeyword, .inKeyword,
   .instanceofKeyword, .newKeyword, .nullKeyword, .returnKeyword, .superKeyword, .thisKeyword,
   .throwKeyword, .trueKeyword, .typeofKeyword, .varKeyword, .voidKeyword, .whileKeyword,
   .letKeyword, .staticKeyword, .yieldKeyword, .asyncKeyword, .getKeyword, .setKeyword]

/-- The marks, longer ones first: the first of them that a text begins with is the longest. -/
def marks : List TokenKind :=
  [.ellipsis, .strictEqual, .strictUnequal, .arrow, .lessEqual,
   .greaterEqual, .looseEqual, .looseUnequal, .increment, .decrement,
   .logicalAnd, .logicalOr, .addAssign, .subAssign, .mulAssign, .divAssign,
   .remAssign, .openBrace, .closeBrace, .openParen, .closeParen, .openBracket, .closeBracket,
   .dot, .semicolon, .comma, .question, .colon, .less, .greater, .plus, .minus,
   .star, .slash, .percent, .bang, .tilde, .assign]

/-- The keyword that is spelled `text`. -/
def keyword? (text : String) : Option TokenKind :=
  keywords.find? fun k => k.spelling == text

/-- The longest mark that `cs` begins with. -/
def mark? (cs : List Char) : Option TokenKind :=
  marks.find? fun k => k.spelling.toList.isPrefixOf cs

theorem spelling_of_keyword? {text : String} {k : TokenKind} (h : keyword? text = some k) :
    k.spelling = text := by
  simpa using List.find?_some h

/-- Whether the kind is a keyword. -/
def isKeyword (k : TokenKind) : Bool := keywords.contains k

/-- Whether the kind is a keyword that may also be the name of a variable or a property. -/
def isContextual : TokenKind → Bool
  | .letKeyword | .staticKeyword | .yieldKeyword | .asyncKeyword | .getKeyword | .setKeyword =>
    true
  | _ => false

/-- Whether the kind assigns its right operand to its left one. -/
def isAssignment : TokenKind → Bool
  | .assign | .addAssign | .subAssign | .mulAssign | .divAssign | .remAssign => true
  | _ => false

/-- Whether the kind opens a group that another mark closes. -/
def opensGroup : TokenKind → Bool
  | .openParen | .openBracket | .openBrace => true
  | _ => false

/-- Whether the kind closes a group. -/
def closesGroup : TokenKind → Bool
  | .closeParen | .closeBracket | .closeBrace => true
  | _ => false

/-- Whether the kind is an operator that stands before its operand. -/
def isPrefixOperator : TokenKind → Bool
  | .bang | .minus | .plus | .tilde | .typeofKeyword | .voidKeyword | .deleteKeyword
  | .increment | .decrement => true
  | _ => false

/-- Whether the kind is an operator that stands behind its operand. -/
def isPostfixOperator : TokenKind → Bool
  | .increment | .decrement => true
  | _ => false

/-- How tightly a binary operator binds; `none` for a kind that is not one. -/
def precedence? : TokenKind → Option Nat
  | .logicalOr => some 1
  | .logicalAnd => some 2
  | .looseEqual | .looseUnequal | .strictEqual | .strictUnequal => some 3
  | .less | .greater | .lessEqual | .greaterEqual
  | .instanceofKeyword | .inKeyword => some 4
  | .plus | .minus => some 5
  | .star | .slash | .percent => some 6
  | _ => none

end TokenKind

end FunctionNaming
