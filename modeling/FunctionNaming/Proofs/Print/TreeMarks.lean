import FunctionNaming.Proofs.Print.TreeLayout

/-!
The marks of syntax trees, shape by shape.
-/

namespace FunctionNaming

open Layout (text)

/-- The mark of a mark or a keyword of the language. -/
abbrev Mark.fixed (k : TokenKind) : Mark := some (.fixed k)

/-! ### Fixed texts -/

section Texts

variable {k : TokenKind}

@[simp] theorem marks_openParen : (text "(").marks = [.fixed .openParen] :=
  Layout.marks_spelling (k := .openParen) (by decide)

@[simp] theorem marks_closeParen : (text ")").marks = [.fixed .closeParen] :=
  Layout.marks_spelling (k := .closeParen) (by decide)

@[simp] theorem marks_openBracket : (text "[").marks = [.fixed .openBracket] :=
  Layout.marks_spelling (k := .openBracket) (by decide)

@[simp] theorem marks_closeBracket : (text "]").marks = [.fixed .closeBracket] :=
  Layout.marks_spelling (k := .closeBracket) (by decide)

@[simp] theorem marks_openBrace : (text "\x7b").marks = [.fixed .openBrace] :=
  Layout.marks_spelling (k := .openBrace) (by decide)

@[simp] theorem marks_closeBrace : (text "\x7d").marks = [.fixed .closeBrace] :=
  Layout.marks_spelling (k := .closeBrace) (by decide)

@[simp] theorem marks_braces : (text "\x7b\x7d").marks = [.fixed .openBrace, .fixed .closeBrace] := by
  decide +kernel

@[simp] theorem marks_comma : (text ",").marks = [.fixed .comma] :=
  Layout.marks_spelling (k := .comma) (by decide)

@[simp] theorem marks_semicolon : (text ";").marks = [.fixed .semicolon] :=
  Layout.marks_spelling (k := .semicolon) (by decide)

@[simp] theorem marks_colon : (text ":").marks = [.fixed .colon] :=
  Layout.marks_spelling (k := .colon) (by decide)

@[simp] theorem marks_question : (text "?").marks = [.fixed .question] :=
  Layout.marks_spelling (k := .question) (by decide)

@[simp] theorem marks_assign : (text "=").marks = [.fixed .assign] :=
  Layout.marks_spelling (k := .assign) (by decide)

@[simp] theorem marks_arrow : (text "=>").marks = [.fixed .arrow] :=
  Layout.marks_spelling (k := .arrow) (by decide)

@[simp] theorem marks_dot : (text ".").marks = [.fixed .dot] :=
  Layout.marks_spelling (k := .dot) (by decide)

@[simp] theorem marks_ellipsis : (text "...").marks = [.fixed .ellipsis] :=
  Layout.marks_spelling (k := .ellipsis) (by decide)

@[simp] theorem marks_star : (text "*").marks = [.fixed .star] :=
  Layout.marks_spelling (k := .star) (by decide)

@[simp] theorem marks_async : (text "async").marks = [.fixed .asyncKeyword] :=
  Layout.marks_spelling (k := .asyncKeyword) (by decide)

@[simp] theorem marks_static : (text "static").marks = [.fixed .staticKeyword] :=
  Layout.marks_spelling (k := .staticKeyword) (by decide)

@[simp] theorem marks_function : (text "function").marks = [.fixed .functionKeyword] :=
  Layout.marks_spelling (k := .functionKeyword) (by decide)

@[simp] theorem marks_class : (text "class").marks = [.fixed .classKeyword] :=
  Layout.marks_spelling (k := .classKeyword) (by decide)

@[simp] theorem marks_extends : (text "extends").marks = [.fixed .extendsKeyword] :=
  Layout.marks_spelling (k := .extendsKeyword) (by decide)

@[simp] theorem marks_constructor : (text "constructor").marks = [some (.word "constructor")] := by
  decide +kernel

@[simp] theorem marks_new : (text "new").marks = [.fixed .newKeyword] :=
  Layout.marks_spelling (k := .newKeyword) (by decide)

@[simp] theorem marks_yield : (text "yield").marks = [.fixed .yieldKeyword] :=
  Layout.marks_spelling (k := .yieldKeyword) (by decide)

@[simp] theorem marks_return : (text "return").marks = [.fixed .returnKeyword] :=
  Layout.marks_spelling (k := .returnKeyword) (by decide)

@[simp] theorem marks_throw : (text "throw").marks = [.fixed .throwKeyword] :=
  Layout.marks_spelling (k := .throwKeyword) (by decide)

@[simp] theorem marks_if : (text "if").marks = [.fixed .ifKeyword] :=
  Layout.marks_spelling (k := .ifKeyword) (by decide)

@[simp] theorem marks_else : (text "else").marks = [.fixed .elseKeyword] :=
  Layout.marks_spelling (k := .elseKeyword) (by decide)

@[simp] theorem marks_while : (text "while").marks = [.fixed .whileKeyword] :=
  Layout.marks_spelling (k := .whileKeyword) (by decide)

@[simp] theorem marks_for : (text "for").marks = [.fixed .forKeyword] :=
  Layout.marks_spelling (k := .forKeyword) (by decide)

@[simp] theorem marks_export : (text "export").marks = [.fixed .exportKeyword] :=
  Layout.marks_spelling (k := .exportKeyword) (by decide)

@[simp] theorem marks_exportDefault :
    (text "export default").marks = [.fixed .exportKeyword, .fixed .defaultKeyword] := by
  decide +kernel

/-- The kind of the word of an accessor. -/
def AccessorRole.kind : AccessorRole → TokenKind
  | .getter => .getKeyword
  | .setter => .setKeyword

@[simp] theorem marks_accessorRole (role : AccessorRole) :
    (text role.spelling).marks = [.fixed role.kind] := by
  cases role
  · exact Layout.marks_spelling (k := .getKeyword) (by decide)
  · exact Layout.marks_spelling (k := .setKeyword) (by decide)

end Texts

/-! ### Parts -/

namespace SyntaxTree

/-- The marks of a tree. -/
noncomputable def marks (t : SyntaxTree) : List Mark := (t.layout .asWritten).marks

/-- The marks of a part that may be missing. -/
noncomputable def slotMarks : Option SyntaxTree → List Mark
  | none => []
  | some t => t.marks

/-- The marks of trees with a comma between them, and one more after a hole at the end. -/
noncomputable def commaMarks : List SyntaxTree → List Mark
  | [] => []
  | [t] => t.marks ++ if t.shape.isHole then [.fixed .comma] else []
  | t :: u :: ts => t.marks ++ .fixed .comma :: commaMarks (u :: ts)

/-- The marks of trees on a line each. -/
noncomputable def lineMarks : List SyntaxTree → List Mark
  | [] => []
  | t :: ts => t.marks ++ none :: lineMarks ts

/-- The marks of a value behind the sign of assignment. -/
noncomputable def initializerMarks : Option SyntaxTree → List Mark
  | none => []
  | some t => .fixed .assign :: t.marks

/-- The marks of a word that may be there. -/
def ifMarks (condition : Bool) (k : TokenKind) : List Mark :=
  if condition then [.fixed k] else []

section

variable (t : SyntaxTree) (part : Option SyntaxTree) (ts : List SyntaxTree)

theorem marks_node (s : ShapeOf SyntaxTree) : (node s).marks =
    (Layout.shape (fun t => some t.shape) (layout .asWritten) .asWritten s).marks := by
  rw [marks, layout_node]

@[simp] theorem marks_layout : (t.layout .asWritten).marks = t.marks := rfl

@[simp] theorem marks_slot : (Layout.slot (layout .asWritten) part).marks = slotMarks part := by
  cases part <;> rfl

@[simp] theorem marks_afterSpace :
    (Layout.afterSpace (layout .asWritten) part).marks = slotMarks part := by
  cases part <;> rfl

@[simp] theorem marks_initializer :
    (Layout.initializer (layout .asWritten) part).marks = initializerMarks part := by
  cases part with
  | none => rfl
  | some t => simp [Layout.initializer, initializerMarks]

@[simp] theorem marks_wordIf (b : Bool) (s : String) :
    (Layout.wordIf b s).marks = if b then (text s).marks else [] := by
  cases b <;> simp [Layout.wordIf]

@[simp] theorem marks_markIf (b : Bool) (s : String) :
    (Layout.markIf b s).marks = if b then (text s).marks else [] := by
  cases b <;> simp [Layout.markIf]

@[simp] theorem marks_commaList :
    (Layout.commaList (fun t => some t.shape) (layout .asWritten) ts).marks = commaMarks ts := by
  have hhole : ∀ t : SyntaxTree, Layout.isHole (fun t => some t.shape) t = t.shape.isHole :=
    fun t => Layout.isHole_eq rfl
  induction ts with
  | nil => rfl
  | cons t ts ih =>
    cases ts with
    | nil => simp [Layout.commaList, Layout.separated, commaMarks, hhole]
    | cons u ts =>
      simp only [Layout.commaList, List.map_cons, Layout.separated, Layout.marks_append,
        List.getLast?_cons_cons] at ih ⊢
      simp [commaMarks, ← ih]

@[simp] theorem marks_lines : (Layout.lines (layout .asWritten) ts).marks = lineMarks ts := by
  induction ts with
  | nil => rfl
  | cons t ts ih =>
    have hcons : (Layout.lines (layout .asWritten) (t :: ts)).marks =
        (t.marks ++ [none]) ++ (Layout.lines (layout .asWritten) ts).marks := rfl
    rw [hcons, ih, lineMarks, List.append_assoc]
    rfl

@[simp] theorem marks_inParentheses :
    (Layout.inParentheses (fun t => some t.shape) (layout .asWritten) ts).marks =
      .fixed .openParen :: (commaMarks ts ++ [.fixed .closeParen]) := by
  simp [Layout.inParentheses]

@[simp] theorem marks_inBrackets :
    (Layout.inBrackets (fun t => some t.shape) (layout .asWritten) ts).marks =
      .fixed .openBracket :: (commaMarks ts ++ [.fixed .closeBracket]) := by
  simp [Layout.inBrackets]

@[simp] theorem marks_inBraces :
    (Layout.inBraces (fun t => some t.shape) (layout .asWritten) ts).marks =
      .fixed .openBrace :: (commaMarks ts ++ [.fixed .closeBrace]) := by
  cases ts <;> simp [Layout.inBraces, commaMarks]

/-- The marks of a block. A line is begun between the braces, unless the block is empty. -/
noncomputable def blockMarks : List SyntaxTree → List Mark
  | [] => [.fixed .openBrace, .fixed .closeBrace]
  | t :: ts => .fixed .openBrace :: none :: (lineMarks (t :: ts) ++ [.fixed .closeBrace])

@[simp] theorem marks_blockOf : (Layout.blockOf (layout .asWritten) ts).marks = blockMarks ts := by
  cases ts <;> simp [Layout.blockOf, blockMarks]

end

/-! ### Shapes -/

section Shapes

@[simp] theorem slotMarks_none : slotMarks none = [] := rfl

@[simp] theorem slotMarks_some (t : SyntaxTree) : slotMarks (some t) = t.marks := rfl

@[simp] theorem initializerMarks_none : initializerMarks none = [] := rfl

@[simp] theorem initializerMarks_some (t : SyntaxTree) :
    initializerMarks (some t) = .fixed .assign :: t.marks := rfl

theorem marks_identifier {s : String} (h : isWord s.toList = true) :
    (node (.identifier s)).marks = [some (.word s)] := by
  rw [marks_node, Layout.shape, Layout.marks, looks_word h, String.ofList_toList,
    List.map_singleton]

theorem marks_numberLiteral {s : String} (h : Literal.IsNumeral s.toList) :
    (node (.numberLiteral s)).marks = [some (.number s)] := by
  rw [marks_node, Layout.shape, Layout.marks, looks_number h, String.ofList_toList,
    List.map_singleton]

theorem marks_stringLiteral {quote : Char} (h : isQuote quote = true) (s : String) :
    (node (.stringLiteral quote s)).marks = [some (.string quote s)] := by
  rw [marks_node, Layout.shape, Layout.marks, QuoteStyle.quote, String.toList_ofList, looks_quoted h,
    List.map_singleton]

@[simp] theorem marks_hole : (node .hole).marks = [] := by
  rw [marks_node]
  rfl

@[simp] theorem marks_variableStatement (list : Option SyntaxTree) :
    (node (.variableStatement list)).marks = slotMarks list ++ [.fixed .semicolon] := by
  simp [marks_node, Layout.shape]

@[simp] theorem marks_declarator (name value : Option SyntaxTree) :
    (node (.declarator name value)).marks = slotMarks name ++ initializerMarks value := by
  simp [marks_node, Layout.shape]

@[simp] theorem marks_block (statements : List SyntaxTree) :
    (node (.block statements)).marks = blockMarks statements := by
  simp [marks_node, Layout.shape]

@[simp] theorem marks_expressionStatement (expression : Option SyntaxTree) :
    (node (.expressionStatement expression)).marks = slotMarks expression ++ [.fixed .semicolon] := by
  simp [marks_node, Layout.shape]

@[simp] theorem marks_returnStatement (expression : Option SyntaxTree) :
    (node (.returnStatement expression)).marks =
      .fixed .returnKeyword :: (slotMarks expression ++ [.fixed .semicolon]) := by
  simp [marks_node, Layout.shape, Layout.keywordStatement]

@[simp] theorem marks_throwStatement (expression : Option SyntaxTree) :
    (node (.throwStatement expression)).marks =
      .fixed .throwKeyword :: (slotMarks expression ++ [.fixed .semicolon]) := by
  simp [marks_node, Layout.shape, Layout.keywordStatement]

@[simp] theorem marks_whileStatement (condition body : Option SyntaxTree) :
    (node (.whileStatement condition body)).marks = .fixed .whileKeyword :: .fixed .openParen ::
      (slotMarks condition ++ .fixed .closeParen :: slotMarks body) := by
  simp [marks_node, Layout.shape, Layout.head]

@[simp] theorem marks_forStatement (first condition increment body : Option SyntaxTree) :
    (node (.forStatement first condition increment body)).marks =
      .fixed .forKeyword :: .fixed .openParen :: (slotMarks first ++ .fixed .semicolon ::
        (slotMarks condition ++ .fixed .semicolon ::
          (slotMarks increment ++ .fixed .closeParen :: slotMarks body))) := by
  simp [marks_node, Layout.shape]

@[simp] theorem marks_emptyStatement : (node .emptyStatement).marks = [.fixed .semicolon] := by
  simp [marks_node, Layout.shape]

@[simp] theorem marks_exportDeclaration (declaration : Option SyntaxTree) :
    (node (.exportDeclaration declaration)).marks =
      .fixed .exportKeyword :: slotMarks declaration := by
  simp [marks_node, Layout.shape]

@[simp] theorem marks_arrayLiteral (elements : List SyntaxTree) :
    (node (.arrayLiteral elements)).marks =
      .fixed .openBracket :: (commaMarks elements ++ [.fixed .closeBracket]) := by
  simp [marks_node, Layout.shape]

@[simp] theorem marks_objectLiteral (members : List SyntaxTree) :
    (node (.objectLiteral members)).marks =
      .fixed .openBrace :: (commaMarks members ++ [.fixed .closeBrace]) := by
  simp [marks_node, Layout.shape]

@[simp] theorem marks_propertyAssignment (name value : Option SyntaxTree) :
    (node (.propertyAssignment name value)).marks =
      slotMarks name ++ .fixed .colon :: slotMarks value := by
  simp [marks_node, Layout.shape]

@[simp] theorem marks_shorthandProperty (name : Option SyntaxTree) :
    (node (.shorthandProperty name)).marks = slotMarks name := by
  simp [marks_node, Layout.shape]

@[simp] theorem marks_spread (expression : Option SyntaxTree) :
    (node (.spread expression)).marks = .fixed .ellipsis :: slotMarks expression := by
  simp [marks_node, Layout.shape]

@[simp] theorem marks_computedName (expression : Option SyntaxTree) :
    (node (.computedName expression)).marks =
      .fixed .openBracket :: (slotMarks expression ++ [.fixed .closeBracket]) := by
  simp [marks_node, Layout.shape]

@[simp] theorem marks_classField (isStatic : Bool) (name value : Option SyntaxTree) :
    (node (.classField isStatic name value)).marks =
      ifMarks isStatic .staticKeyword ++ (slotMarks name ++ (initializerMarks value ++
        [.fixed .semicolon])) := by
  cases isStatic <;> simp [marks_node, Layout.shape, ifMarks]

@[simp] theorem marks_parameter (isRest : Bool) (name value : Option SyntaxTree) :
    (node (.parameter isRest name value)).marks =
      ifMarks isRest .ellipsis ++ (slotMarks name ++ initializerMarks value) := by
  cases isRest <;> simp [marks_node, Layout.shape, ifMarks]

@[simp] theorem marks_objectPattern (elements : List SyntaxTree) :
    (node (.pattern .object elements)).marks =
      .fixed .openBrace :: (commaMarks elements ++ [.fixed .closeBrace]) := by
  simp [marks_node, Layout.shape]

@[simp] theorem marks_arrayPattern (elements : List SyntaxTree) :
    (node (.pattern .array elements)).marks =
      .fixed .openBracket :: (commaMarks elements ++ [.fixed .closeBracket]) := by
  simp [marks_node, Layout.shape]

@[simp] theorem marks_patternElement (isRest : Bool) (name value : Option SyntaxTree) :
    (node (.patternElement isRest none name value)).marks =
      ifMarks isRest .ellipsis ++ (slotMarks name ++ initializerMarks value) := by
  cases isRest <;> simp [marks_node, Layout.shape, ifMarks]

@[simp] theorem marks_namedPatternElement (isRest : Bool) (property : SyntaxTree)
    (name value : Option SyntaxTree) :
    (node (.patternElement isRest (some property) name value)).marks =
      ifMarks isRest .ellipsis ++ (property.marks ++ .fixed .colon ::
        (slotMarks name ++ initializerMarks value)) := by
  cases isRest <;> simp [marks_node, Layout.shape, ifMarks]

@[simp] theorem marks_propertyAccess (object name : Option SyntaxTree) :
    (node (.propertyAccess object name)).marks =
      slotMarks object ++ .fixed .dot :: slotMarks name := by
  simp [marks_node, Layout.shape]

@[simp] theorem marks_elementAccess (object argument : Option SyntaxTree) :
    (node (.elementAccess object argument)).marks =
      slotMarks object ++ .fixed .openBracket :: (slotMarks argument ++ [.fixed .closeBracket]) := by
  simp [marks_node, Layout.shape]

@[simp] theorem marks_call (callee : Option SyntaxTree) (arguments : List SyntaxTree) :
    (node (.call callee arguments)).marks = slotMarks callee ++ .fixed .openParen ::
      (commaMarks arguments ++ [.fixed .closeParen]) := by
  simp [marks_node, Layout.shape]

@[simp] theorem marks_conditional (condition whenTrue whenFalse : Option SyntaxTree) :
    (node (.conditional condition whenTrue whenFalse)).marks =
      slotMarks condition ++ .fixed .question ::
        (slotMarks whenTrue ++ .fixed .colon :: slotMarks whenFalse) := by
  simp [marks_node, Layout.shape]

@[simp] theorem marks_parenthesized (expression : Option SyntaxTree) :
    (node (.parenthesized expression)).marks =
      .fixed .openParen :: (slotMarks expression ++ [.fixed .closeParen]) := by
  simp [marks_node, Layout.shape]

@[simp] theorem marks_yieldExpression (delegates : Bool) (expression : Option SyntaxTree) :
    (node (.yieldExpression delegates expression)).marks =
      .fixed .yieldKeyword :: (ifMarks delegates .star ++ slotMarks expression) := by
  cases delegates <;> simp [marks_node, Layout.shape, ifMarks]

@[simp] theorem marks_method (isStatic isAsync isGenerator : Bool) (name : Option SyntaxTree)
    (parameters : List SyntaxTree) (body : Option SyntaxTree) :
    (node (.method isStatic isAsync isGenerator name parameters body)).marks =
      ifMarks isStatic .staticKeyword ++ (ifMarks isAsync .asyncKeyword ++
        (ifMarks isGenerator .star ++ (slotMarks name ++ .fixed .openParen ::
          (commaMarks parameters ++ .fixed .closeParen :: slotMarks body)))) := by
  cases isStatic <;> cases isAsync <;> cases isGenerator <;>
    simp [marks_node, Layout.shape, ifMarks]

@[simp] theorem marks_accessor (role : AccessorRole) (isStatic : Bool) (name : Option SyntaxTree)
    (parameters : List SyntaxTree) (body : Option SyntaxTree) :
    (node (.accessor role isStatic name parameters body)).marks =
      ifMarks isStatic .staticKeyword ++ .fixed role.kind :: (slotMarks name ++ .fixed .openParen ::
        (commaMarks parameters ++ .fixed .closeParen :: slotMarks body)) := by
  cases isStatic <;> simp [marks_node, Layout.shape, ifMarks]

@[simp] theorem marks_classConstructor (parameters : List SyntaxTree) (body : Option SyntaxTree) :
    (node (.classConstructor parameters body)).marks =
      some (.word "constructor") :: Mark.fixed .openParen ::
        (commaMarks parameters ++ .fixed .closeParen :: slotMarks body) := by
  simp [marks_node, Layout.shape]

@[simp] theorem marks_arrowFunction (p : FunctionParts SyntaxTree) :
    (node (.function .arrow p)).marks =
      ifMarks p.isAsync .asyncKeyword ++ .fixed .openParen ::
        (commaMarks p.parameters ++ .fixed .closeParen :: .fixed .arrow :: slotMarks p.body) := by
  cases hasync : p.isAsync <;> simp [marks_node, Layout.shape, Layout.function, ifMarks, hasync]

theorem marks_namedFunction {role : FunctionRole} (hrole : role ≠ .arrow)
    (p : FunctionParts SyntaxTree) :
    (node (.function role p)).marks =
      ifMarks p.isAsync .asyncKeyword ++ .fixed .functionKeyword ::
        (ifMarks p.isGenerator .star ++ (slotMarks p.name ++ .fixed .openParen ::
          (commaMarks p.parameters ++ .fixed .closeParen :: slotMarks p.body))) := by
  cases role with
  | arrow => exact absurd rfl hrole
  | declaration | expression =>
    cases hasync : p.isAsync <;> cases hgenerator : p.isGenerator <;>
      simp [marks_node, Layout.shape, Layout.function, ifMarks, hasync, hgenerator]

/-- The marks of what a class extends. -/
noncomputable def heritageMarks : Option SyntaxTree → List Mark
  | none => []
  | some t => .fixed .extendsKeyword :: t.marks

@[simp] theorem marks_classLike (role : ClassRole) (name heritage : Option SyntaxTree)
    (members : List SyntaxTree) :
    (node (.classLike role name heritage members)).marks =
      .fixed .classKeyword :: (slotMarks name ++ (heritageMarks heritage ++ blockMarks members)) := by
  cases heritage <;> simp [marks_node, Layout.shape, Layout.classLike, heritageMarks]

/-- The marks of the other branch of a statement. -/
noncomputable def alternativeMarks : Option SyntaxTree → List Mark
  | none => []
  | some t => .fixed .elseKeyword :: t.marks

@[simp] theorem marks_ifStatement (condition consequent alternative : Option SyntaxTree) :
    (node (.ifStatement condition consequent alternative)).marks =
      .fixed .ifKeyword :: .fixed .openParen :: (slotMarks condition ++ .fixed .closeParen ::
        (slotMarks consequent ++ alternativeMarks alternative)) := by
  cases alternative <;> simp [marks_node, Layout.shape, Layout.head, alternativeMarks]

/-- The marks of what is exported, and a semicolon behind an expression. -/
noncomputable def exportedMarks : Option SyntaxTree → List Mark
  | none => [.fixed .semicolon]
  | some t => t.marks ++ if t.shape.isDeclaration then [] else [.fixed .semicolon]

@[simp] theorem marks_exportDefault (exported : Option SyntaxTree) :
    (node (.exportDefault exported)).marks =
      .fixed .exportKeyword :: .fixed .defaultKeyword :: exportedMarks exported := by
  cases exported with
  | none => simp [marks_node, Layout.shape, exportedMarks, Layout.isDeclaration]
  | some t =>
    have hdeclares : Layout.isDeclaration (fun t : SyntaxTree => some t.shape) (some t) =
        t.shape.isDeclaration := Layout.isDeclaration_eq rfl
    cases hdeclaration : t.shape.isDeclaration <;>
      simp [marks_node, Layout.shape, exportedMarks, hdeclares, hdeclaration]

@[simp] theorem marks_new (callee : Option SyntaxTree) :
    (node (.new callee none)).marks = .fixed .newKeyword :: slotMarks callee := by
  simp [marks_node, Layout.shape]

@[simp] theorem marks_newCall (callee : Option SyntaxTree) (arguments : List SyntaxTree) :
    (node (.new callee (some arguments))).marks = .fixed .newKeyword :: (slotMarks callee ++
      .fixed .openParen :: (commaMarks arguments ++ [.fixed .closeParen])) := by
  simp [marks_node, Layout.shape]

@[simp] theorem marks_variableList (keyword : VariableKeyword) (declarators : List SyntaxTree) :
    (node (.variableList keyword declarators)).marks =
      .fixed (Grammar.variableKind keyword) :: commaMarks declarators := by
  have hword : (text keyword.spelling).marks = [.fixed (Grammar.variableKind keyword)] := by
    cases keyword
    · exact Layout.marks_spelling (k := .varKeyword) (by decide)
    · exact Layout.marks_spelling (k := .letKeyword) (by decide)
    · exact Layout.marks_spelling (k := .constKeyword) (by decide)
  simp [marks_node, Layout.shape, hword]

variable {k : TokenKind}

theorem marks_binary (hk : k ∈ TokenKind.marks ++ TokenKind.keywords) (left right : Option SyntaxTree) :
    (node (.binary left k right)).marks = slotMarks left ++ .fixed k :: slotMarks right := by
  have hspace : (if k = .comma then Layout.empty else Layout.space).marks = [] := by split <;> rfl
  simp [marks_node, Layout.shape, Layout.marks_spelling hk, hspace]

theorem marks_prefixed (hk : k ∈ TokenKind.marks ++ TokenKind.keywords) (operand : Option SyntaxTree) :
    (node (.prefixed k operand)).marks = .fixed k :: slotMarks operand := by
  cases hkeyword : k.isKeyword <;>
    simp [marks_node, Layout.shape, Layout.marks_spelling hk, hkeyword]

theorem marks_postfixed (hk : k ∈ TokenKind.marks ++ TokenKind.keywords) (operand : Option SyntaxTree) :
    (node (.postfixed k operand)).marks = slotMarks operand ++ [.fixed k] := by
  simp [marks_node, Layout.shape, Layout.marks_spelling hk]

end Shapes

end SyntaxTree

end FunctionNaming
