import FunctionNaming.Proofs.Print.Shape
import FunctionNaming.Proofs.Syntax.Apart

/-!
The layouts of shapes lead from edge to edge where those of their parts do. The parts of a layout are
taken one after the other: what stands before a part is a word or a bracket behind which there may be
anything, or an operator behind which a phrase begins.
-/

namespace FunctionNaming

open Edge
open Literal (IsNumeral)
open Layout (empty text space)

namespace ShapeOf

variable {ν : Type}

/-- What may stand before the shape. -/
def entry (shape : ShapeOf ν) : Edge := if shape.isListed then .settled else .opening

/-- What stands before the parts of the shape at least. -/
def partEntry (shape : ShapeOf ν) : Edge := if shape.holdsListed then .settled else .opening

end ShapeOf

/-! ### Texts of the source -/

theorem opening_allows_of_isWordStart {c : Char} (h : isWordStart c = true) :
    opening.allows c = true := by
  simp only [allows, Bool.and_eq_true, bne_iff_ne]
  refine ⟨⟨⟨?_, ?_⟩, ?_⟩, ?_⟩ <;> rintro rfl <;> revert h <;> decide

theorem opening_allows_of_startsNumber {c : Char} {cs : List Char}
    (h : Lexeme.startsNumber (c :: cs) = true) : opening.allows c = true := by
  simp only [allows, Bool.and_eq_true, bne_iff_ne]
  refine ⟨⟨⟨?_, ?_⟩, ?_⟩, ?_⟩ <;> rintro rfl <;> revert h <;>
    simp [Lexeme.startsNumber, Literal.startsWithDigit]

namespace Follows

variable {e : Edge} {s : String}

theorem word (h : isWord s.toList = true) (he : ∀ c, isWordStart c = true → e.allows c = true)
    (e' : Edge) : Follows e (text s) e' := by
  refine (Follows.text (settled_word h) ?_).to_settled e'
  rw [allowsText]
  cases hs : s.toList with
  | nil => rfl
  | cons c cs =>
    rw [hs] at h
    exact he c (Bool.and_eq_true_iff.1 h).1

theorem quoted {q : Char} (h : isQuote q = true) (value : List Char) (e : Edge) :
    Follows opening (text (String.ofList (Text.quoted q value))) e := by
  have hholds : settled.Holds (String.ofList (Text.quoted q value)).toList := by
    rw [String.toList_ofList]
    exact settled_quoted h value
  refine (Follows.text hholds ?_).to_settled e
  rw [allowsText, String.toList_ofList]
  rcases isQuote_iff.1 h with rfl | rfl <;> rfl

/-- Behind a number with more than digits there may stand the point of an access. -/
theorem number {digits : String} (h : IsNumeral digits.toList)
    (he : e.Within (@ShapeOf.exit NodeId (.numberLiteral digits))) :
    Follows opening (text digits) e := by
  have hholds : (@ShapeOf.exit NodeId (.numberLiteral digits)).Holds digits.toList := by
    obtain ⟨hclosing, hobject⟩ := holds_number h
    rw [ShapeOf.exit]
    split
    · next hmore => exact hobject hmore
    · exact hclosing
  refine (Follows.text hholds ?_).weaken he
  have hstart := (@Lexeme.ofNumber_append_rest digits.toList [] h (by simp)).1
  rw [List.append_nil] at hstart
  rw [allowsText]
  cases hdigits : digits.toList with
  | nil => rfl
  | cons c cs => exact opening_allows_of_startsNumber (hdigits ▸ hstart)

/-- Behind an operator a phrase begins. -/
theorem operator {k : TokenKind} (h : k.isBinaryOperator = true ∨ k.isPrefixOperator = true)
    (hhead : e.allowsText k.spelling = true) : Follows e (text k.spelling) opening := by
  have hkind : k ∈ TokenKind.marks ∧ k ≠ .dot ∨ isSettled k.spelling = true := by
    cases k <;> first
      | exact .inl (by decide)
      | exact .inr (by decide)
      | (rcases h with h | h <;> cases h)
  rcases hkind with ⟨hmark, hpoint⟩ | hsettled
  · exact .mark hmark hpoint hhead
  · exact (Follows.text (settled_of_isSettled hsettled) hhead).to_settled opening

theorem binaryOperator {k : TokenKind} (h : k.isBinaryOperator = true) :
    Follows closing (text k.spelling) opening :=
  operator (.inl h) (by cases k <;> first | decide | cases h)

theorem prefixOperator {k : TokenKind} (h : k.isPrefixOperator = true) :
    Follows opening (text k.spelling) opening :=
  operator (.inr h) (by cases k <;> first | decide | cases h)

/-! ### Shapes with parts that may be missing -/

section

variable {print : NodeId → Layout} {shape? : NodeId → Option Shape} {part : Slot} {e' : Edge}

/-- A part that is there. -/
theorem whole (hpart : part.isSome = true) (h : ∀ p ∈ part.toList, Follows e (print p) e') :
    Follows e (Layout.slot print part) e' := by
  obtain ⟨p, rfl⟩ := Option.isSome_iff_exists.1 hpart
  exact h p (by simp)

/-- What is printed for the parts of a shape, where it does not stand right behind an operator. -/
theorem settledPart (h : ∀ p ∈ part.toList, Follows opening (print p) e') :
    Follows settled (Layout.slot print part) e' :=
  slot fun p hp => (h p hp).of_settled

theorem function {parts : FunctionParts NodeId}
    (hname : ∀ p ∈ parts.name.toList, Follows opening (print p) closing)
    (hparameters : ∀ p ∈ parts.parameters, Follows opening (print p) closing)
    (hbody : ∀ p ∈ parts.body.toList, Follows opening (print p) e) :
    Follows opening (Layout.function shape? print .expression parts) e := by
  obtain ⟨isAsync, isGenerator, name, parameters, body⟩ := parts
  have hword : Follows opening (Layout.wordIf isAsync "async" ++ text "function") settled :=
    (wordIf isAsync "async" (by decide)).append (.fixed "function" settled (by decide))
  -- a parenthesis may stand behind the star as well as behind the name
  obtain ⟨middle, hmiddle, hhead⟩ : ∃ middle : Edge, middle.admits "(" = true ∧
      Follows opening (Layout.wordIf isAsync "async" ++ text "function" ++
        Layout.markIf isGenerator "*" ++ Layout.afterSpace print name) middle := by
    have hstar := hword.append (star isGenerator)
    cases name with
    | none => exact ⟨opening, by decide, hstar.append (.empty opening)⟩
    | some p => exact ⟨closing, by decide,
        hstar.append ((Follows.space opening).append (hname p (by simp)))⟩
  have hlist : Follows middle (Layout.inParentheses shape? print parameters) settled :=
    inParentheses (fun p hp => (hparameters p hp).of_settled) hmiddle settled
  exact ((hhead.append hlist).append (.space settled)).append (settledPart hbody)

theorem arrow {parts : FunctionParts NodeId}
    (hparameters : ∀ p ∈ parts.parameters, Follows opening (print p) closing)
    (hsome : parts.body.isSome = true)
    (hbody : ∀ p ∈ parts.body.toList, Follows opening (print p) e) :
    Follows opening (Layout.function shape? print .arrow parts) e := by
  have hmark : Follows settled (text "=>") opening :=
    .mark (k := .arrow) (by decide) (by decide) (by decide)
  have hlist : Follows opening (Layout.inParentheses shape? print parts.parameters) settled :=
    inParentheses (fun p hp => (hparameters p hp).of_settled) (by decide) settled
  exact (((((wordIf parts.isAsync "async" (by decide)).append hlist).append
    (.space settled)).append hmark).append (.space opening)).append (whole hsome hbody)

theorem classLike {name heritage : Slot} {members : List NodeId}
    (hname : ∀ p ∈ name.toList, Follows settled (print p) settled)
    (hheritage : ∀ p ∈ heritage.toList, Follows settled (print p) closing)
    (hmembers : ∀ p ∈ members, Follows settled (print p) settled) (e : Edge) :
    Follows opening (Layout.classLike print name heritage members) e := by
  have hhead := (Follows.fixed (e := opening) "class" settled (by decide)).append (afterSpace hname)
  have hbody := blockOf hmembers (e := closing) (by decide) e
  cases heritage with
  | none =>
    exact (((hhead.append (.empty settled)).to_settled closing).append (.space closing)).append hbody
  | some p =>
    have hword : Follows settled (space ++ text "extends" ++ space) settled :=
      ((Follows.space settled).append (.fixed "extends" settled (by decide))).append (.space settled)
    exact ((hhead.append (hword.append (hheritage p (by simp)))).append (.space closing)).append hbody

/-- Behind an exported declaration there is no semicolon, so anything may follow it. -/
theorem exportDefault {exported : Slot}
    (hpart : ∀ p ∈ exported.toList, Follows opening (print p) closing)
    (hdeclaration : Layout.isDeclaration shape? exported = true →
      ∀ p ∈ exported.toList, Follows opening (print p) settled) (quotes : QuoteStyle) :
    Follows opening (Layout.shape shape? print quotes (.exportDefault exported)) e := by
  have hwords : settled.Holds "export default".toList :=
    @settled_append_space "export".toList "default".toList (settled_of_isSettled (by decide))
      (settled_of_isSettled (by decide))
  have hhead : Follows opening (text "export default" ++ space) settled :=
    (Follows.text hwords (by decide)).append (.space settled)
  have hlayout : Layout.shape shape? print quotes (.exportDefault exported) =
      text "export default" ++ space ++ Layout.slot print exported ++
        Layout.markIf (!Layout.isDeclaration shape? exported) ";" := rfl
  rw [hlayout]
  cases hdecl : Layout.isDeclaration shape? exported with
  | true =>
    exact ((hhead.append (settledPart (hdeclaration hdecl))).append (.empty settled)).to_settled e
  | false => exact (hhead.append (settledPart hpart)).append (.fixed ";" e (by decide))

theorem ifStatement {condition consequent alternative : Slot}
    (hcondition : ∀ p ∈ condition.toList, Follows settled (print p) closing)
    (hconsequent : ∀ p ∈ consequent.toList, Follows settled (print p) settled)
    (halternative : ∀ p ∈ alternative.toList, Follows settled (print p) e) (quotes : QuoteStyle) :
    Follows opening (Layout.shape shape? print quotes
      (.ifStatement condition consequent alternative)) e := by
  have hhead := (head (e := opening) "if" (by decide) hcondition).append (slot hconsequent)
  cases alternative with
  | none => exact (hhead.append (.empty settled)).to_settled e
  | some p =>
    have hword : Follows settled (space ++ text "else" ++ space) settled :=
      ((Follows.space settled).append (.fixed "else" settled (by decide))).append (.space settled)
    exact hhead.append (hword.append (halternative p (by simp)))

theorem newObject {callee : Slot} {arguments : Option (List NodeId)}
    (hcallee : ∀ p ∈ callee.toList,
      Follows settled (print p) (if arguments.isSome then closing else e))
    (harguments : ∀ p ∈ arguments.getD [], Follows settled (print p) closing)
    (quotes : QuoteStyle) :
    Follows opening (Layout.shape shape? print quotes (.new callee arguments)) e := by
  have hword : Follows opening (text "new" ++ space) settled :=
    (Follows.fixed "new" settled (by decide)).append (.space settled)
  cases arguments with
  | none => exact (hword.append (slot hcallee)).append (.empty e)
  | some ids =>
    have hcallee : Follows settled (Layout.slot print callee) closing := slot hcallee
    exact (hword.append hcallee).append (inParentheses harguments (by decide) e)

theorem patternElement {isRest : Bool} {property name value : Slot}
    (hproperty : ∀ p ∈ property.toList, Follows opening (print p) closing)
    (hsome : name.isSome = true)
    (hname : ∀ p ∈ name.toList, Follows opening (print p) closing)
    (hvalue : ∀ p ∈ value.toList, Follows opening (print p) closing) (quotes : QuoteStyle) :
    Follows opening (Layout.shape shape? print quotes
      (.patternElement isRest property name value)) closing := by
  have hrest : Follows opening (Layout.markIf isRest "...") opening := markIf isRest "..." (by decide)
  have hname := whole hsome hname
  have hvalue := initializer hvalue
  cases property with
  | none => exact ((hrest.append (.empty opening)).append hname).append hvalue
  | some p =>
    have hkey := ((hproperty p (by simp)).append (.fixed ":" opening (by decide))).append
      (.space opening)
    exact ((hrest.append hkey).append hname).append hvalue

theorem binary {left right : Slot} {operator : TokenKind}
    (hoperator : operator.isBinaryOperator = true) (hleftSome : left.isSome = true)
    (hleft : ∀ p ∈ left.toList, Follows opening (print p) closing)
    (hrightSome : right.isSome = true)
    (hright : ∀ p ∈ right.toList, Follows opening (print p) e) (quotes : QuoteStyle) :
    Follows opening (Layout.shape shape? print quotes (.binary left operator right)) e := by
  have hgap : Follows closing (if operator = .comma then empty else space) closing := by
    split
    · exact .empty closing
    · exact .space closing
  exact ((((whole hleftSome hleft).append hgap).append (binaryOperator hoperator)).append
    (.space opening)).append (whole hrightSome hright)

theorem prefixed {operand : Slot} {operator : TokenKind}
    (hoperator : operator.isPrefixOperator = true) (hsome : operand.isSome = true)
    (hoperand : ∀ p ∈ operand.toList, Follows opening (print p) e) (quotes : QuoteStyle) :
    Follows opening (Layout.shape shape? print quotes (.prefixed operator operand)) e := by
  have hgap : Follows opening (if operator.isKeyword then space else empty) opening := by
    split
    · exact .space opening
    · exact .empty opening
  exact ((prefixOperator hoperator).append hgap).append (whole hsome hoperand)

theorem yieldExpression {delegates : Bool} {operand : Slot}
    (hsome : delegates = true → operand.isSome = true)
    (hoperand : ∀ p ∈ operand.toList, Follows opening (print p) e) (quotes : QuoteStyle) :
    Follows opening (Layout.shape shape? print quotes (.yieldExpression delegates operand)) e := by
  have hword : Follows opening (text "yield") settled := .fixed "yield" settled (by decide)
  cases operand with
  | none =>
    cases delegates with
    | true => cases hsome rfl
    | false => exact ((hword.append (.empty settled)).append (.empty settled)).to_settled e
  | some p =>
    exact (hword.append (star delegates)).append ((Follows.space opening).append
      (hoperand p (by simp)))

end

end Follows

/-! ### Shapes -/

/-- What a shape asks for so that its layout leads to an edge: its parts lead to what stands behind
them, its own texts are read as what they are, and nothing is missing. -/
structure FollowsShape (shape? : NodeId → Option Shape) (print : NodeId → Layout) (shape : Shape)
    (e : Edge) : Prop where
  parts : ∀ p ∈ shape.children, Follows shape.partEntry (print p) closing
  settled : ∀ p ∈ shape.settledParts, Follows settled (print p) settled
  last : ∀ p ∈ shape.rightmost?.toList, Follows opening (print p) e
  exit : shape.rightmost? = none → e.Within shape.exit
  complete : shape.isComplete = true
  text : shape.HasLegibleText
  numeral : ∀ digits, shape = .numberLiteral digits → IsNumeral digits.toList
  operator : ∀ left k right, shape = .binary left k right → k.isBinaryOperator = true
  exported : ∀ exported, shape = .exportDefault exported →
    Layout.isDeclaration shape? exported = true →
      ∀ p ∈ exported.toList, Follows opening (print p) .settled
  object : ∀ object name, shape = .propertyAccess object name →
    ∀ p ∈ object.toList, Follows opening (print p) .object
  name : ∀ object name, shape = .propertyAccess object name →
    ∀ p ∈ name.toList, Follows point (print p) .settled

section

variable {shape? : NodeId → Option Shape} {print : NodeId → Layout} {shape : Shape} {e : Edge}

theorem FollowsShape.of_settled (h : FollowsShape shape? print shape e) :
    ∀ p ∈ shape.children, Follows .settled (print p) closing :=
  fun p hp => (h.parts p hp).of_settled

theorem FollowsShape.of_holdsListed (h : FollowsShape shape? print shape e)
    (hheld : shape.holdsListed = false) : ∀ p ∈ shape.children, Follows opening (print p) closing := by
  have hparts := h.parts
  rw [ShapeOf.partEntry, hheld] at hparts
  exact hparts

theorem FollowsShape.isSome_of_mandatory (h : FollowsShape shape? print shape e) :
    ∀ part ∈ shape.mandatory, part.isSome = true := List.all_eq_true.1 h.complete

/-- What a shape cannot do without leads on, even if what stands before it is not what follows it. -/
theorem FollowsShape.whole (h : FollowsShape shape? print shape e) {part : Slot} {d d' : Edge}
    (hpart : part ∈ shape.mandatory) (hfollows : ∀ p ∈ part.toList, Follows d (print p) d') :
    Follows d (Layout.slot print part) d' :=
  Follows.whole (h.isSome_of_mandatory part hpart) hfollows

open Follows in
/-- What stands in lists only does not follow an operator. -/
theorem follows_listed (quotes : QuoteStyle) (h : FollowsShape shape? print shape e)
    (hlisted : shape.isListed = true) :
    Follows settled (Layout.shape shape? print quotes shape) e := by
  have hloose := h.of_settled
  have hwhole := @h.whole
  have hparts := h.of_holdsListed
  obtain ⟨-, hsettled, hlast, -⟩ := h
  cases shape with
  | script statements file => exact (lines hsettled).to_settled e
  | hole => exact (Follows.empty settled).to_settled e
  | method isStatic isAsync isGenerator name parameters body =>
    obtain ⟨hhead, -⟩ := List.forall_mem_append.1 (hparts rfl)
    obtain ⟨hname, -⟩ := List.forall_mem_append.1 hhead
    obtain ⟨hhead, -⟩ := List.forall_mem_append.1 hloose
    obtain ⟨-, hparameters⟩ := List.forall_mem_append.1 hhead
    have hwords : Follows settled (Layout.wordIf isStatic "static" ++ Layout.wordIf isAsync "async")
        settled := (wordIf isStatic "static" (by decide)).append (wordIf isAsync "async" (by decide))
    have hname := hwhole (by simp [ShapeOf.mandatory]) hname
    have hlist : Follows closing (Layout.inParentheses shape? print parameters) settled :=
      inParentheses hparameters (by decide) settled
    exact ((((hwords.append (star isGenerator)).append hname).append hlist).append
      (.space settled)).append (settledPart hlast)
  | _ => cases hlisted

open Follows in
/-- What does not stand in lists only may follow whatever a phrase may follow. -/
theorem follows_unlisted (quotes : QuoteStyle) (h : FollowsShape shape? print shape e)
    (hlisted : shape.isListed = false) :
    Follows opening (Layout.shape shape? print quotes shape) e := by
  have hloose := h.of_settled
  have hthere := h.isSome_of_mandatory
  have hwhole := @h.whole
  have hclosing : ∀ {l : Layout}, shape.rightmost? = none → shape.exit = closing →
      Follows opening l closing → Follows opening l e := by
    intro l hnone hexit hl
    exact hl.weaken (hexit ▸ h.exit hnone)
  have hparts := h.of_holdsListed
  obtain ⟨-, hsettled, hlast, hexit, -, htext, hnumeral, hoperator, hexported, hobject,
    hmember⟩ := h
  cases shape with
  | script | hole | method => cases hlisted
  | variableStatement list =>
    exact (hwhole (by simp [ShapeOf.mandatory]) (hparts rfl)).append
      (.fixed ";" e (by decide))
  | variableList keyword declarators =>
    have hword : Follows opening (text keyword.spelling) settled := by
      cases keyword <;> exact .fixed _ settled (by decide)
    exact hclosing rfl rfl ((hword.append (.space settled)).append (commaList hloose))
  | declarator name value =>
    obtain ⟨hname, hvalue⟩ := List.forall_mem_append.1 (hparts rfl)
    exact hclosing rfl rfl
      ((hwhole (by simp [ShapeOf.mandatory]) hname).append (initializer hvalue))
  | function role parts =>
    obtain ⟨hhead, -⟩ := List.forall_mem_append.1 (hparts rfl)
    obtain ⟨hname, hparameters⟩ := List.forall_mem_append.1 hhead
    cases role with
    | arrow => exact arrow hparameters (hthere parts.body (by simp [ShapeOf.mandatory])) hlast
    | declaration | expression => exact function hname hparameters hlast
  | classLike role name heritage members =>
    obtain ⟨hhead, -⟩ := List.forall_mem_append.1 hloose
    obtain ⟨-, hheritage⟩ := List.forall_mem_append.1 hhead
    obtain ⟨hname, hmembers⟩ := List.forall_mem_append.1 hsettled
    exact classLike hname hheritage hmembers e
  | block statements => exact blockOf hsettled (by decide) e
  | expressionStatement expression =>
    exact (hwhole (by simp [ShapeOf.mandatory]) (hparts rfl)).append
      (.fixed ";" e (by decide))
  | returnStatement expression => exact keywordStatement "return" (by decide) hloose e
  | throwStatement expression => exact keywordStatement "throw" (by decide) hloose e
  | ifStatement condition consequent alternative =>
    obtain ⟨hhead, -⟩ := List.forall_mem_append.1 hloose
    obtain ⟨hcondition, -⟩ := List.forall_mem_append.1 hhead
    exact ifStatement hcondition hsettled (fun p hp => (hlast p hp).of_settled) quotes
  | whileStatement condition body =>
    obtain ⟨hcondition, -⟩ := List.forall_mem_append.1 hloose
    exact (head "while" (by decide) hcondition).append (settledPart hlast)
  | forStatement first condition increment body =>
    obtain ⟨hhead, -⟩ := List.forall_mem_append.1 hloose
    obtain ⟨hhead, hincrement⟩ := List.forall_mem_append.1 hhead
    obtain ⟨hfirst, hcondition⟩ := List.forall_mem_append.1 hhead
    have hopen : Follows opening (text "for" ++ space ++ text "(") settled :=
      ((Follows.fixed "for" settled (by decide)).append (.space settled)).append
        (.fixed "(" settled (by decide))
    have hmark : Follows closing (text ";") settled := .fixed ";" settled (by decide)
    have hhead := ((((hopen.append (slot hfirst)).append hmark).append
      (afterSpace hcondition)).append hmark).append (afterSpace hincrement)
    exact ((hhead.append (.fixed ")" settled (by decide))).append (.space settled)).append
      (settledPart hlast)
  | emptyStatement => exact .fixed ";" e (by decide)
  | exportDefault exported =>
    exact exportDefault (hparts rfl) (hexported exported rfl) quotes
  | exportDeclaration declaration =>
    exact ((Follows.fixed "export" settled (by decide)).append (.space settled)).append
      (settledPart hlast)
  | identifier name => exact word htext (fun _ => opening_allows_of_isWordStart) e
  | stringLiteral written value => exact quoted (isQuote_quote htext quotes) value.toList e
  | numberLiteral digits => exact number (hnumeral digits rfl) (hexit rfl)
  | trueLiteral => exact .fixed "true" e (by decide)
  | falseLiteral => exact .fixed "false" e (by decide)
  | nullLiteral => exact .fixed "null" e (by decide)
  | thisExpression => exact .fixed "this" e (by decide)
  | superExpression => exact .fixed "super" e (by decide)
  | arrayLiteral elements => exact inBrackets hloose (by decide) e
  | objectLiteral members => exact inBraces hloose (by decide) e
  | propertyAssignment name value =>
    obtain ⟨hname, -⟩ := List.forall_mem_append.1 (hparts rfl)
    obtain ⟨-, hvalue⟩ := List.forall_mem_append.1 hloose
    have hhead := (hwhole (by simp [ShapeOf.mandatory]) hname).append
      (.fixed ":" settled (by decide))
    exact hclosing rfl rfl ((hhead.append (.space settled)).append (slot hvalue))
  | shorthandProperty name =>
    exact hclosing rfl rfl (hwhole (by simp [ShapeOf.mandatory]) (hparts rfl))
  | spread expression =>
    exact hclosing rfl rfl ((Follows.fixed "..." settled (by decide)).append (slot hloose))
  | computedName expression =>
    have hinner : Follows settled (Layout.slot print expression) closing := slot hloose
    exact ((Follows.fixed "[" settled (by decide)).append hinner).append (.fixed "]" e (by decide))
  | accessor role isStatic name parameters body =>
    obtain ⟨hhead, -⟩ := List.forall_mem_append.1 hloose
    obtain ⟨hname, hparameters⟩ := List.forall_mem_append.1 hhead
    have hrole : Follows opening (text role.spelling) settled := by
      cases role <;> exact .fixed _ settled (by decide)
    have hhead := (((wordIf isStatic "static" (by decide)).append hrole).append
      (.space settled)).append (slot hname)
    exact ((hhead.append (inParentheses hparameters (by decide) settled)).append
      (.space settled)).append (settledPart hlast)
  | classConstructor parameters body =>
    obtain ⟨hparameters, -⟩ := List.forall_mem_append.1 hloose
    have hlist : Follows settled (Layout.inParentheses shape? print parameters) settled :=
      inParentheses hparameters (by decide) settled
    exact (((Follows.fixed "constructor" settled (by decide)).append hlist).append
      (.space settled)).append (settledPart hlast)
  | classField isStatic name value =>
    obtain ⟨hname, hvalue⟩ := List.forall_mem_append.1 (hparts rfl)
    have hhead := (wordIf isStatic "static" (by decide)).append
      (hwhole (by simp [ShapeOf.mandatory]) hname)
    exact (hhead.append (initializer hvalue)).append (.fixed ";" e (by decide))
  | parameter isRest name value =>
    obtain ⟨hname, hvalue⟩ := List.forall_mem_append.1 (hparts rfl)
    have hhead := (markIf isRest "..." (by decide)).append
      (hwhole (by simp [ShapeOf.mandatory]) hname)
    exact hclosing rfl rfl (hhead.append (initializer hvalue))
  | pattern role elements =>
    cases role with
    | object => exact inBraces hloose (by decide) e
    | array => exact inBrackets hloose (by decide) e
  | patternElement isRest property name value =>
    obtain ⟨hhead, hvalue⟩ := List.forall_mem_append.1 (hparts rfl)
    obtain ⟨hproperty, hname⟩ := List.forall_mem_append.1 hhead
    exact hclosing rfl rfl
      (patternElement hproperty (hthere name (by simp [ShapeOf.mandatory])) hname hvalue quotes)
  | propertyAccess object name =>
    have hpoint : Follows Edge.object (text ".") point := .text point_dot (by decide)
    have hobject := hwhole (by simp [ShapeOf.mandatory]) (hobject object name rfl)
    have hmember := hwhole (by simp [ShapeOf.mandatory]) (hmember object name rfl)
    exact ((hobject.append hpoint).append hmember).to_settled e
  | elementAccess object argument =>
    obtain ⟨hobject, -⟩ := List.forall_mem_append.1 (hparts rfl)
    obtain ⟨-, hargument⟩ := List.forall_mem_append.1 hloose
    have hinner : Follows settled (Layout.slot print argument) closing := slot hargument
    exact (((hwhole (by simp [ShapeOf.mandatory]) hobject).append
      (.fixed "[" settled (by decide))).append hinner).append (.fixed "]" e (by decide))
  | call callee arguments =>
    obtain ⟨hcallee, -⟩ := List.forall_mem_append.1 (hparts rfl)
    obtain ⟨-, harguments⟩ := List.forall_mem_append.1 hloose
    exact (hwhole (by simp [ShapeOf.mandatory]) hcallee).append
      (inParentheses harguments (by decide) e)
  | new callee arguments =>
    obtain ⟨hcallee, harguments⟩ := List.forall_mem_append.1 hloose
    refine newObject (fun p hp => ?_) harguments quotes
    cases arguments with
    | none => exact (hlast p hp).of_settled
    | some ids => exact hcallee p hp
  | binary left operator right =>
    obtain ⟨hleft, -⟩ := List.forall_mem_append.1 (hparts rfl)
    exact binary (hoperator left operator right rfl) (hthere left (by simp [ShapeOf.mandatory]))
      hleft (hthere right (by simp [ShapeOf.mandatory])) hlast quotes
  | prefixed operator operand =>
    exact prefixed htext (hthere operand (by simp [ShapeOf.mandatory])) hlast quotes
  | postfixed operator operand =>
    have hmark : Follows closing (text operator.spelling) e := by
      cases operator <;> first | exact .fixed _ e (by decide) | cases htext
    exact (hwhole (by simp [ShapeOf.mandatory]) (hparts rfl)).append hmark
  | conditional condition whenTrue whenFalse =>
    obtain ⟨hhead, -⟩ := List.forall_mem_append.1 (hparts rfl)
    obtain ⟨hcondition, hwhenTrue⟩ := List.forall_mem_append.1 hhead
    have hquestion : Follows closing (text "?") opening :=
      .mark (k := .question) (by decide) (by decide) (by decide)
    have hhead := ((hwhole (by simp [ShapeOf.mandatory]) hcondition).append
      (.space closing)).append hquestion
    have hbranch := (hhead.append (.space opening)).append
      (hwhole (by simp [ShapeOf.mandatory]) hwhenTrue)
    exact (((hbranch.append (.space closing)).append (.fixed ":" settled (by decide))).append
      (.space settled)).append (settledPart hlast)
  | parenthesized expression =>
    have hinner : Follows settled (Layout.slot print expression) closing := slot hloose
    exact ((Follows.fixed "(" settled (by decide)).append hinner).append (.fixed ")" e (by decide))
  | yieldExpression delegates operand =>
    refine yieldExpression (fun hdelegates => hthere operand ?_) hlast quotes
    simp [ShapeOf.mandatory, hdelegates]

/-- The layout of a shape leads from what stands before the shape to what its last part ends with. -/
theorem follows_shape (quotes : QuoteStyle) (h : FollowsShape shape? print shape e) :
    Follows shape.entry (Layout.shape shape? print quotes shape) e := by
  rw [ShapeOf.entry]
  split
  · next hlisted => exact follows_listed quotes h hlisted
  · next hlisted => exact follows_unlisted quotes h (Bool.not_eq_true _ ▸ hlisted)

end

end FunctionNaming
