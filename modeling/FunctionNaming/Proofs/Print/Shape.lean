import FunctionNaming.Proofs.Print.Cuts
import FunctionNaming.Proofs.Syntax.Legible

/-!
The layouts of shapes are cut where those of their parts are. The parts of a layout are taken one
after the other, in the order in which they stand in the shape.
-/

namespace FunctionNaming

open Layout (empty text space newline)

section

variable {ι : Type} {name : ι → NodeId → Option String} {shape? : ι → NodeId → Option Shape}
  {print : ι → NodeId → Layout} {sites : NodeId → List NodeId}

/-- That a part is cut at its own sites. -/
abbrev CutsPart (name : ι → NodeId → Option String) (print : ι → NodeId → Layout)
    (sites : NodeId → List NodeId) (leads : Bool) (part : NodeId) : Prop :=
  Cuts name leads (fun i => print i part) (sites part)

namespace Cuts

/-! ### Parts -/

theorem slot {part : Slot} (h : ∀ p ∈ part.toList, CutsPart name print sites false p) :
    Cuts name false (fun i => Layout.slot (print i) part) (part.toList.flatMap sites) := by
  cases part with
  | none => exact .empty
  | some p => exact (h p (by simp)).congr (by simp) fun _ _ => rfl

/-- The part with which a layout begins. -/
theorem leftmost {leads : Bool} {part : Slot}
    (h : ∀ p ∈ part.toList, CutsPart name print sites false p)
    (hleads : leads = true → ∃ p, part = some p ∧ CutsPart name print sites true p) :
    Cuts name leads (fun i => Layout.slot (print i) part) (part.toList.flatMap sites) := by
  cases leads with
  | false => exact slot h
  | true =>
    obtain ⟨p, rfl, hp⟩ := hleads rfl
    exact hp.congr (by simp) fun _ _ => rfl

theorem wordIf (condition : Bool) (word : String) (hword : isPlain word = true) :
    Cuts name false (fun _ => Layout.wordIf condition word) [] := by
  cases condition with
  | false => exact .empty
  | true => exact (Cuts.plain word hword).append .space

theorem markIf (condition : Bool) (mark : String) (hmark : isPlain mark = true) :
    Cuts name false (fun _ => Layout.markIf condition mark) [] := by
  cases condition with
  | false => exact .empty
  | true => exact .plain mark hmark

theorem afterSpace {part : Slot} (h : ∀ p ∈ part.toList, CutsPart name print sites false p) :
    Cuts name false (fun i => Layout.afterSpace (print i) part) (part.toList.flatMap sites) := by
  cases part with
  | none => exact .empty
  | some p => exact (Cuts.space.append (h p (by simp))).congr (by simp) fun _ _ => rfl

theorem initializer {part : Slot} (h : ∀ p ∈ part.toList, CutsPart name print sites false p) :
    Cuts name false (fun i => Layout.initializer (print i) part) (part.toList.flatMap sites) := by
  cases part with
  | none => exact .empty
  | some p =>
    have hsign : Cuts name false (fun _ => text "=") [] := .plain "=" (by decide)
    exact (((Cuts.space.append hsign).append .space).append (h p (by simp))).congr (by simp)
      fun _ _ => rfl

theorem separated {parts : List NodeId} (h : ∀ p ∈ parts, CutsPart name print sites false p) :
    Cuts name false (fun i => Layout.separated (parts.map (print i))) (parts.flatMap sites) := by
  induction parts with
  | nil => exact .empty
  | cons p parts ih =>
    obtain ⟨hp, hparts⟩ := List.forall_mem_cons.1 h
    cases parts with
    | nil => exact hp.congr (by simp) fun _ _ => rfl
    | cons q parts =>
      have hcomma : Cuts name false (fun _ => text ",") [] := .plain "," (by decide)
      exact (((hp.append hcomma).append .space).append (ih hparts)).congr (by simp) fun _ _ => rfl

theorem lines {parts : List NodeId} (h : ∀ p ∈ parts, CutsPart name print sites false p) :
    Cuts name false (fun i => Layout.lines (print i) parts) (parts.flatMap sites) := by
  induction parts with
  | nil => exact .empty
  | cons p parts ih =>
    obtain ⟨hp, hparts⟩ := List.forall_mem_cons.1 h
    exact ((hp.append .newline).append (ih hparts)).congr (by simp) fun _ _ => rfl

theorem blockOf {parts : List NodeId} (h : ∀ p ∈ parts, CutsPart name print sites false p) :
    Cuts name false (fun i => Layout.blockOf (print i) parts) (parts.flatMap sites) := by
  cases parts with
  | nil => exact .plain _ (by decide)
  | cons p parts =>
    have hopen : Cuts name false (fun _ => text "\x7b") [] := .plain "\x7b" (by decide)
    have hclose : Cuts name false (fun _ => text "\x7d") [] := .plain "\x7d" (by decide)
    exact (((hopen.append .newline).append (lines h).indented).append hclose).congr (by simp)
      fun _ _ => rfl

/-- Whether a part is a hole does not depend on the names. -/
def SameHoles (shape? : ι → NodeId → Option Shape) (base : NodeId → Option Shape)
    (parts : List NodeId) : Prop :=
  ∀ i, ∀ p ∈ parts, Layout.isHole (shape? i) p = Layout.isHole base p

variable {base : NodeId → Option Shape}

theorem commaList {parts : List NodeId} (h : ∀ p ∈ parts, CutsPart name print sites false p)
    (hholes : SameHoles shape? base parts) :
    Cuts name false (fun i => Layout.commaList (shape? i) (print i) parts) (parts.flatMap sites) := by
  have hlast : ∀ i, parts.getLast?.any (Layout.isHole (shape? i)) =
      parts.getLast?.any (Layout.isHole base) := by
    intro i
    cases hp : parts.getLast? with
    | none => rfl
    | some p => exact hholes i p (List.mem_of_getLast? hp)
  have hcomma : Cuts name false
      (fun _ => Layout.markIf (parts.getLast?.any (Layout.isHole base)) ",") [] :=
    markIf _ "," (by decide)
  refine ((separated h).append hcomma).congr (by simp) fun i w => ?_
  rw [Layout.commaList, hlast]

theorem inParentheses {parts : List NodeId} (h : ∀ p ∈ parts, CutsPart name print sites false p)
    (hholes : SameHoles shape? base parts) (leads : Bool) :
    Cuts name leads (fun i => Layout.inParentheses (shape? i) (print i) parts)
      (parts.flatMap sites) := by
  have hopen : Cuts name leads (fun _ => text "(") [] :=
    .opening "(" (by decide) (by decide) (by decide)
  have hclose : Cuts name false (fun _ => text ")") [] := .plain ")" (by decide)
  exact ((hopen.append (commaList h hholes)).append hclose).congr (by simp) fun _ _ => rfl


theorem inBrackets {parts : List NodeId} (h : ∀ p ∈ parts, CutsPart name print sites false p)
    (hholes : SameHoles shape? base parts) (leads : Bool) :
    Cuts name leads (fun i => Layout.inBrackets (shape? i) (print i) parts)
      (parts.flatMap sites) := by
  have hopen : Cuts name leads (fun _ => text "[") [] :=
    .opening "[" (by decide) (by decide) (by decide)
  have hclose : Cuts name false (fun _ => text "]") [] := .plain "]" (by decide)
  exact ((hopen.append (commaList h hholes)).append hclose).congr (by simp) fun _ _ => rfl

theorem inBraces {parts : List NodeId} (h : ∀ p ∈ parts, CutsPart name print sites false p)
    (hholes : SameHoles shape? base parts) (leads : Bool) :
    Cuts name leads (fun i => Layout.inBraces (shape? i) (print i) parts)
      (parts.flatMap sites) := by
  cases parts with
  | nil => exact .opening _ (by decide) (by decide) (by decide)
  | cons p parts =>
    have hopen : Cuts name leads (fun _ => text "\x7b") [] :=
      .opening "\x7b" (by decide) (by decide) (by decide)
    have hclose : Cuts name false (fun _ => text "\x7d") [] := .plain "\x7d" (by decide)
    exact ((((hopen.append .space).append (commaList h hholes)).append .space).append hclose).congr
      (by simp) fun _ _ => rfl

theorem keywordStatement (word : String) (hword : isPlain word = true) {part : Slot}
    (h : ∀ p ∈ part.toList, CutsPart name print sites false p) :
    Cuts name false (fun i => Layout.keywordStatement (print i) word part)
      (part.toList.flatMap sites) := by
  have hend : Cuts name false (fun _ => text ";") [] := .plain ";" (by decide)
  exact (((Cuts.plain word hword).append (afterSpace h)).append hend).congr (by simp) fun _ _ => rfl

theorem head (word : String) (hword : isPlain word = true) {part : Slot}
    (h : ∀ p ∈ part.toList, CutsPart name print sites false p) :
    Cuts name false (fun i => Layout.head (print i) word part) (part.toList.flatMap sites) := by
  have hopen : Cuts name false (fun _ => text "(") [] := .plain "(" (by decide)
  have hclose : Cuts name false (fun _ => text ")") [] := .plain ")" (by decide)
  exact ((((((Cuts.plain word hword).append .space).append hopen).append (slot h)).append hclose).append
    .space).congr (by simp) fun _ _ => rfl

end Cuts

/-! ### Functions -/

/-- A function with its word is cut where its name stands, and then like its other parts. -/
theorem cuts_function {base : NodeId → Option Shape} {role : FunctionRole} (hrole : role ≠ .arrow)
    {p : FunctionParts NodeId} {slot : ι → Slot} {id : NodeId} (leads : Bool)
    (hname : ∀ i w,
      (Layout.afterSpace (print i) (slot i)).write w = (Cuts.nameLayout (name i id)).write w)
    (hword : ∀ i s, name i id = some s → isWord s.toList = true)
    (hparts : ∀ q ∈ p.parameters ++ p.body.toList, CutsPart name print sites false q)
    (hholes : Cuts.SameHoles shape? base p.parameters) :
    Cuts name leads
      (fun i => Layout.function (shape? i) (print i) role { p with name := slot i })
      (id :: (p.parameters ++ p.body.toList).flatMap sites) := by
  obtain ⟨isAsync, isGenerator, pname, parameters, body⟩ := p
  obtain ⟨hparameters, hbody⟩ := List.forall_mem_append.1 hparts
  have hclose : Cuts name false (fun _ => text ")") [] := .plain ")" (by decide)
  have hlist := Cuts.commaList hparameters hholes
  have hrest := ((hlist.append hclose).append .space).append (Cuts.slot hbody)
  have hhead : ∀ leads, Cuts name leads (fun i => Cuts.functionWord isGenerator ++
      (Cuts.nameLayout (name i id) ++ text "(")) [id] := fun _ => .function isGenerator hword
  have hlayout : ∀ i w, (Layout.function (shape? i) (print i) role
        ⟨isAsync, isGenerator, slot i, parameters, body⟩).write w =
      (Layout.wordIf isAsync "async" ++ (Cuts.functionWord isGenerator ++
        (Cuts.nameLayout (name i id) ++ text "(") ++ (Layout.commaList (shape? i) (print i) parameters ++
          text ")" ++ space ++ Layout.slot (print i) body))).write w := by
    intro i w
    cases role with
    | arrow => exact absurd rfl hrole
    | declaration | expression =>
      simp only [Layout.function, Layout.inParentheses, Cuts.functionWord, Layout.write_append, hname]
  cases isAsync with
  | false =>
    exact ((hhead leads).append hrest).congr (by simp) fun i w => (hlayout i w).trans rfl
  | true =>
    have hasync : Cuts name leads (fun _ => text "async") [] :=
      .opening "async" (by decide) (by decide) (by decide)
    exact ((hasync.append .space).append ((hhead false).append hrest)).congr (by simp)
      fun i w => (hlayout i w).trans rfl

/-! ### Shapes -/

theorem isPlain_of_isNumeral {s : String}
    (h : ∀ c ∈ s.toList, isNumeralPart c = true) :
    Cuts.isPlain s = true ∧ afterSlash s.toList = false := by
  have hslash : ∀ c ∈ s.toList, c ≠ '/' ∧ c ≠ '*' := by
    intro c hc
    have hpart := h c hc
    constructor <;> rintro rfl <;> revert hpart <;> decide
  constructor
  · refine List.all_eq_true.2 fun c hc => ?_
    simp [isQuote_of_isNumeralPart (h c hc), (hslash c hc).1]
  · cases hs : s.toList with
    | nil => rfl
    | cons c cs =>
      have hc := hslash c (by simp [hs])
      simp [afterSlash, hc]

theorem isPlain_of_isWord {s : String} (h : isWord s.toList = true) :
    s ≠ "" ∧ Cuts.isPlain s = true ∧ afterSlash s.toList = false := by
  have hne : s ≠ "" := by
    rintro rfl
    cases h
  refine ⟨hne, isPlain_of_isNumeral fun c hc => ?_⟩
  have hpart : isWordPart c = true := by
    cases hs : s.toList with
    | nil => simp [hs] at hc
    | cons d ds =>
      rw [hs] at h hc
      obtain ⟨hstart, hparts⟩ := Bool.and_eq_true_iff.1 h
      rcases List.mem_cons.1 hc with rfl | hc
      · exact isWordPart_of_isWordStart hstart
      · exact List.all_eq_true.1 hparts c hc
  simp [isNumeralPart, hpart]

theorem isQuote_quote {written : Char} (h : isQuote written = true) (quotes : QuoteStyle) :
    isQuote (quotes.quote written) = true := by
  cases quotes <;> first | rfl | exact h

/-- A string literal. -/
theorem cuts_quoted {q : Char} (hq : isQuote q = true) (value : List Char) (leads : Bool) :
    Cuts name leads (fun _ => text (String.ofList (Text.quoted q value))) [] := by
  have hslash : q ≠ '/' ∧ q ≠ '*' := by
    rcases isQuote_iff.1 hq with rfl | rfl <;> decide
  refine Cuts.text ?_ ?_ fun _ => ⟨?_, ?_⟩
  · rw [String.toList_ofList]
    simpa using Calm.string value hq .nil
  · rw [String.toList_ofList, Text.quoted, List.getLast?_append]
    simpa using hslash.1
  · simp [Text.quoted]
  · simp [Text.quoted, afterSlash, hslash]

section

variable {leads : Bool}

theorem cuts_arrow {base : NodeId → Option Shape} {parts : FunctionParts NodeId}
    (hparts : ∀ q ∈ parts.parameters ++ parts.body.toList, CutsPart name print sites false q)
    (hholes : Cuts.SameHoles shape? base parts.parameters) :
    Cuts name leads (fun i => Layout.function (shape? i) (print i) .arrow parts)
      ((parts.parameters ++ parts.body.toList).flatMap sites) := by
  obtain ⟨isAsync, isGenerator, pname, parameters, body⟩ := parts
  obtain ⟨hparameters, hbody⟩ := List.forall_mem_append.1 hparts
  have hmark : Cuts name false (fun _ => text "=>") [] := .plain "=>" (by decide)
  have hlist := fun leads => Cuts.inParentheses hparameters hholes leads
  cases isAsync with
  | false =>
    exact (((((hlist leads).append .space).append hmark).append .space).append
      (Cuts.slot hbody)).congr (by simp) fun _ _ => rfl
  | true =>
    have hasync : Cuts name leads (fun _ => text "async") [] :=
      .opening "async" (by decide) (by decide) (by decide)
    exact (((((((hasync.append .space).append (hlist false)).append .space).append hmark).append
      .space)).append (Cuts.slot hbody)).congr (by simp) fun _ _ => rfl

theorem cuts_classLike {target heritage : Slot} {members : List NodeId}
    (htarget : ∀ p ∈ target.toList, CutsPart name print sites false p)
    (hheritage : ∀ p ∈ heritage.toList, CutsPart name print sites false p)
    (hmembers : ∀ p ∈ members, CutsPart name print sites false p) :
    Cuts name leads (fun i => Layout.classLike (print i) target heritage members)
      ((target.toList ++ heritage.toList ++ members).flatMap sites) := by
  have hword : Cuts name leads (fun _ => text "class") [] :=
    .opening "class" (by decide) (by decide) (by decide)
  have hextends : Cuts name false (fun _ => text "extends") [] := .plain "extends" (by decide)
  have hhead := hword.append (Cuts.afterSpace htarget)
  have hbody := Cuts.space.append (Cuts.blockOf hmembers)
  cases heritage with
  | none => exact (hhead.append hbody).congr (by simp) fun _ _ => rfl
  | some p =>
    have hparent := ((Cuts.space.append hextends).append .space).append (hheritage p (by simp))
    exact ((hhead.append hparent).append hbody).congr (by simp) fun _ _ => rfl

theorem cuts_ifStatement {condition consequent alternative : Slot}
    (hcondition : ∀ p ∈ condition.toList, CutsPart name print sites false p)
    (hconsequent : ∀ p ∈ consequent.toList, CutsPart name print sites false p)
    (halternative : ∀ p ∈ alternative.toList, CutsPart name print sites false p)
    (quotes : QuoteStyle) :
    Cuts name false (fun i => Layout.shape (shape? i) (print i) quotes
        (.ifStatement condition consequent alternative))
      ((condition.toList ++ consequent.toList ++ alternative.toList).flatMap sites) := by
  have hword : Cuts name false (fun _ => text "else") [] := .plain "else" (by decide)
  have hhead := (Cuts.head "if" (by decide) hcondition).append (Cuts.slot hconsequent)
  cases alternative with
  | none => exact hhead.congr (by simp) fun _ _ => rfl
  | some p =>
    have helse := ((Cuts.space.append hword).append .space).append (halternative p (by simp))
    exact (hhead.append helse).congr (by simp) fun _ _ => rfl

theorem cuts_new {base : NodeId → Option Shape} {callee : Slot} {arguments : Option (List NodeId)}
    (hcallee : ∀ p ∈ callee.toList, CutsPart name print sites false p)
    (harguments : ∀ p ∈ arguments.getD [], CutsPart name print sites false p)
    (hholes : Cuts.SameHoles shape? base (arguments.getD [])) (quotes : QuoteStyle) :
    Cuts name leads (fun i => Layout.shape (shape? i) (print i) quotes (.new callee arguments))
      ((callee.toList ++ arguments.getD []).flatMap sites) := by
  have hword : Cuts name leads (fun _ => text "new") [] :=
    .opening "new" (by decide) (by decide) (by decide)
  have hhead := (hword.append .space).append (Cuts.slot hcallee)
  cases arguments with
  | none => exact hhead.congr (by simp) fun _ _ => rfl
  | some ids =>
    exact (hhead.append (Cuts.inParentheses harguments hholes false)).congr (by simp) fun _ _ => rfl

theorem cuts_patternElement {isRest : Bool} {property target value : Slot}
    (hproperty : ∀ p ∈ property.toList, CutsPart name print sites false p)
    (htarget : ∀ p ∈ target.toList, CutsPart name print sites false p)
    (hvalue : ∀ p ∈ value.toList, CutsPart name print sites false p) (quotes : QuoteStyle) :
    Cuts name false (fun i => Layout.shape (shape? i) (print i) quotes
        (.patternElement isRest property target value))
      ((property.toList ++ target.toList ++ value.toList).flatMap sites) := by
  have hcolon : Cuts name false (fun _ => text ":") [] := .plain ":" (by decide)
  have hrest : Cuts name false (fun _ => Layout.markIf isRest "...") [] :=
    Cuts.markIf isRest "..." (by decide)
  have hend := (Cuts.slot htarget).append (Cuts.initializer hvalue)
  cases property with
  | none => exact (hrest.append hend).congr (by simp) fun _ _ => rfl
  | some p =>
    have hkey := ((hproperty p (by simp)).append hcolon).append .space
    exact ((hrest.append hkey).append hend).congr (by simp) fun _ _ => rfl

theorem cuts_binary {left : Slot} {operator : TokenKind} {p : NodeId}
    (hleft : Cuts name leads (fun i => Layout.slot (print i) left) (left.toList.flatMap sites))
    (hright : CutsPart name print sites true p) (quotes : QuoteStyle) :
    Cuts name leads (fun i => Layout.shape (shape? i) (print i) quotes
        (.binary left operator (some p))) (left.toList.flatMap sites ++ sites p) := by
  have hgap : Cuts name false (fun _ => if operator = .comma then empty else space) [] := by
    split
    · exact .empty
    · exact .space
  exact ((hleft.append hgap).append (hright.operator operator)).congr (by simp) fun _ _ => rfl

theorem cuts_prefixed {operator : TokenKind} (hoperator : operator.isPrefixOperator = true)
    {operand : Slot} (hoperand : ∀ p ∈ operand.toList, CutsPart name print sites false p)
    (quotes : QuoteStyle) :
    Cuts name leads (fun i => Layout.shape (shape? i) (print i) quotes (.prefixed operator operand))
      (operand.toList.flatMap sites) := by
  have hspelling : Cuts.isPlain operator.spelling = true ∧ operator.spelling ≠ "" ∧
      afterSlash operator.spelling.toList = false := by
    cases operator <;> first | decide | cases hoperator
  have hword : Cuts name leads (fun _ => text operator.spelling) [] :=
    .opening _ hspelling.1 hspelling.2.1 hspelling.2.2
  have hgap : Cuts name false (fun _ => if operator.isKeyword then space else empty) [] := by
    split
    · exact .space
    · exact .empty
  exact ((hword.append hgap).append (Cuts.slot hoperand)).congr (by simp) fun _ _ => rfl

end

/-- What a shape asks for in order to be cut: its parts are cut, its own texts are legible, nothing in
it hangs on the names, and the right operand of an operator may follow a slash. -/
structure CutsShape (name : ι → NodeId → Option String) (shape? : ι → NodeId → Option Shape)
    (print : ι → NodeId → Layout) (sites : NodeId → List NodeId) (base : NodeId → Option Shape)
    (shape : Shape) : Prop where
  parts : ∀ p ∈ shape.children, CutsPart name print sites false p
  text : shape.HasLegibleText
  holes : Cuts.SameHoles shape? base shape.children
  declarations : ∀ i exported, shape = .exportDefault exported →
    Layout.isDeclaration (shape? i) exported = Layout.isDeclaration base exported
  operand : ∀ left operator right, shape = .binary left operator right →
    ∃ p, right = some p ∧ CutsPart name print sites true p
  arrow : ∀ parts, shape = .function .arrow parts → parts.name.toList.flatMap sites = []

open Cuts in
/-- The layout of a shape is cut where those of its parts are, one after the other. -/
theorem cuts_shape {base : NodeId → Option Shape} (quotes : QuoteStyle) {shape : Shape}
    (h : CutsShape name shape? print sites base shape)
    (hfunction : ∀ role parts, shape = .function role parts → role = .arrow) {leads : Bool}
    (hleads : leads = true → shape.opens = true ∨
      ∃ p, shape.leftmost? = some p ∧ CutsPart name print sites true p) :
    Cuts name leads (fun i => Layout.shape (shape? i) (print i) quotes shape)
      (shape.children.flatMap sites) := by
  have hrest : shape.opens = false → shape.leftmost? = none → leads = false := by
    intro hopens hleft
    cases leads with
    | false => rfl
    | true => simp [hopens, hleft] at hleads
  have hsemicolon : Cuts name false (fun _ => text ";") [] := .plain ";" (by decide)
  have hcolon : Cuts name false (fun _ => text ":") [] := .plain ":" (by decide)
  have hopen : Cuts name false (fun _ => text "(") [] := .plain "(" (by decide)
  have hclose : Cuts name false (fun _ => text ")") [] := .plain ")" (by decide)
  obtain ⟨hparts, htext, hholes, hdeclarations, hoperand, harrow⟩ := h
  cases shape with
  | script statements file =>
    obtain rfl := hrest rfl rfl
    exact lines hparts
  | variableStatement list =>
    obtain rfl := hrest rfl rfl
    exact ((slot hparts).append hsemicolon).congr (by simp [ShapeOf.children]) fun _ _ => rfl
  | variableList keyword declarators =>
    obtain rfl := hrest rfl rfl
    have hword : Cuts name false (fun _ => text keyword.spelling) [] :=
      .plain _ (by cases keyword <;> decide)
    exact ((hword.append .space).append (commaList hparts hholes)).congr (by simp [ShapeOf.children])
      fun _ _ => rfl
  | declarator target value =>
    obtain rfl := hrest rfl rfl
    obtain ⟨htarget, hvalue⟩ := List.forall_mem_append.1 hparts
    exact ((slot htarget).append (initializer hvalue)).congr (by simp [ShapeOf.children]) fun _ _ => rfl
  | function role parts =>
    obtain rfl := hfunction role parts rfl
    simp only [ShapeOf.children, List.append_assoc, List.flatMap_append, harrow parts rfl,
      List.nil_append, List.forall_mem_append] at hparts ⊢
    rw [← List.flatMap_append]
    exact cuts_arrow (List.forall_mem_append.2 hparts.2) fun i p hp => hholes i p (by
      simp [ShapeOf.children, hp])
  | classLike role target heritage members =>
    simp only [ShapeOf.children, List.forall_mem_append] at hparts
    exact cuts_classLike hparts.1.1 hparts.1.2 hparts.2
  | block statements =>
    obtain rfl := hrest rfl rfl
    exact blockOf hparts
  | expressionStatement expression =>
    obtain rfl := hrest rfl rfl
    exact ((slot hparts).append hsemicolon).congr (by simp [ShapeOf.children]) fun _ _ => rfl
  | returnStatement expression =>
    obtain rfl := hrest rfl rfl
    exact keywordStatement "return" (by decide) hparts
  | throwStatement expression =>
    obtain rfl := hrest rfl rfl
    exact keywordStatement "throw" (by decide) hparts
  | ifStatement condition consequent alternative =>
    obtain rfl := hrest rfl rfl
    simp only [ShapeOf.children, List.forall_mem_append] at hparts
    exact cuts_ifStatement hparts.1.1 hparts.1.2 hparts.2 quotes
  | whileStatement condition body =>
    obtain rfl := hrest rfl rfl
    obtain ⟨hcondition, hbody⟩ := List.forall_mem_append.1 hparts
    exact ((head "while" (by decide) hcondition).append (slot hbody)).congr (by simp [ShapeOf.children])
      fun _ _ => rfl
  | forStatement first condition increment body =>
    obtain rfl := hrest rfl rfl
    simp only [ShapeOf.children, List.forall_mem_append] at hparts
    obtain ⟨⟨⟨hfirst, hcondition⟩, hincrement⟩, hbody⟩ := hparts
    have hword : Cuts name false (fun _ => text "for") [] := .plain "for" (by decide)
    have hhead := (((hword.append .space).append hopen).append (slot hfirst)).append hsemicolon
    have hmiddle := ((hhead.append (afterSpace hcondition)).append hsemicolon).append
      (afterSpace hincrement)
    exact (((hmiddle.append hclose).append .space).append (slot hbody)).congr
      (by simp [ShapeOf.children]) fun _ _ => rfl
  | emptyStatement =>
    obtain rfl := hrest rfl rfl
    exact hsemicolon
  | exportDefault exported =>
    obtain rfl := hrest rfl rfl
    have hword : Cuts name false (fun _ => text "export default") [] :=
      .plain "export default" (by decide)
    have hend : Cuts name false
        (fun _ => Layout.markIf (!Layout.isDeclaration base exported) ";") [] :=
      markIf _ ";" (by decide)
    refine (((hword.append .space).append (slot hparts)).append hend).congr
      (by simp [ShapeOf.children]) fun i w => ?_
    rw [Layout.shape, hdeclarations i exported rfl]
  | exportDeclaration declaration =>
    obtain rfl := hrest rfl rfl
    have hword : Cuts name false (fun _ => text "export") [] := .plain "export" (by decide)
    exact ((hword.append .space).append (slot hparts)).congr (by simp [ShapeOf.children])
      fun _ _ => rfl
  | identifier s =>
    obtain ⟨hne, hplain, hslash⟩ := isPlain_of_isWord htext
    exact .opening s hplain hne hslash
  | stringLiteral quote value => exact cuts_quoted (isQuote_quote htext quotes) value.toList leads
  | numberLiteral s =>
    obtain ⟨hplain, hslash⟩ := isPlain_of_isNumeral htext.2
    exact .opening s hplain htext.1 hslash
  | trueLiteral => exact .opening "true" (by decide) (by decide) (by decide)
  | falseLiteral => exact .opening "false" (by decide) (by decide) (by decide)
  | nullLiteral => exact .opening "null" (by decide) (by decide) (by decide)
  | thisExpression => exact .opening "this" (by decide) (by decide) (by decide)
  | superExpression => exact .opening "super" (by decide) (by decide) (by decide)
  | arrayLiteral elements => exact inBrackets hparts hholes leads
  | objectLiteral members => exact inBraces hparts hholes leads
  | hole =>
    obtain rfl := hrest rfl rfl
    exact .empty
  | propertyAssignment target value =>
    obtain rfl := hrest rfl rfl
    obtain ⟨htarget, hvalue⟩ := List.forall_mem_append.1 hparts
    exact ((((slot htarget).append hcolon).append .space).append (slot hvalue)).congr
      (by simp [ShapeOf.children]) fun _ _ => rfl
  | shorthandProperty target =>
    obtain rfl := hrest rfl rfl
    exact slot hparts
  | spread expression =>
    obtain rfl := hrest rfl rfl
    have hmark : Cuts name false (fun _ => text "...") [] := .plain "..." (by decide)
    exact (hmark.append (slot hparts)).congr (by simp [ShapeOf.children]) fun _ _ => rfl
  | computedName expression =>
    obtain rfl := hrest rfl rfl
    have hleft : Cuts name false (fun _ => text "[") [] := .plain "[" (by decide)
    have hright : Cuts name false (fun _ => text "]") [] := .plain "]" (by decide)
    exact ((hleft.append (slot hparts)).append hright).congr (by simp [ShapeOf.children])
      fun _ _ => rfl
  | method isStatic isAsync isGenerator target parameters body =>
    obtain rfl := hrest rfl rfl
    simp only [ShapeOf.children, List.forall_mem_append] at hparts
    have hholes' : SameHoles shape? base parameters := fun i p hp => hholes i p (by
      simp [ShapeOf.children, hp])
    have hstatic : Cuts name false (fun _ => Layout.wordIf isStatic "static") [] :=
      wordIf isStatic "static" (by decide)
    have hhead := (hstatic.append (wordIf isAsync "async" (by decide))).append
      (markIf isGenerator "*" (by decide))
    exact ((((hhead.append (slot hparts.1.1)).append
      (inParentheses hparts.1.2 hholes' false)).append .space).append (slot hparts.2)).congr
      (by simp [ShapeOf.children]) fun _ _ => rfl
  | accessor role isStatic target parameters body =>
    obtain rfl := hrest rfl rfl
    simp only [ShapeOf.children, List.forall_mem_append] at hparts
    have hholes' : SameHoles shape? base parameters := fun i p hp => hholes i p (by
      simp [ShapeOf.children, hp])
    have hword : Cuts name false (fun _ => text role.spelling) [] :=
      .plain _ (by cases role <;> decide)
    have hhead := ((wordIf isStatic "static" (by decide)).append hword).append .space
    exact ((((hhead.append (slot hparts.1.1)).append
      (inParentheses hparts.1.2 hholes' false)).append .space).append (slot hparts.2)).congr
      (by simp [ShapeOf.children]) fun _ _ => rfl
  | classConstructor parameters body =>
    obtain rfl := hrest rfl rfl
    obtain ⟨hparameters, hbody⟩ := List.forall_mem_append.1 hparts
    have hholes' : SameHoles shape? base parameters := fun i p hp => hholes i p (by
      simp [ShapeOf.children, hp])
    have hword : Cuts name false (fun _ => text "constructor") [] :=
      .plain "constructor" (by decide)
    exact (((hword.append (inParentheses hparameters hholes' false)).append .space).append
      (slot hbody)).congr (by simp [ShapeOf.children]) fun _ _ => rfl
  | classField isStatic target value =>
    obtain rfl := hrest rfl rfl
    obtain ⟨htarget, hvalue⟩ := List.forall_mem_append.1 hparts
    exact ((((wordIf isStatic "static" (by decide)).append (slot htarget)).append
      (initializer hvalue)).append hsemicolon).congr (by simp [ShapeOf.children]) fun _ _ => rfl
  | parameter isRest target value =>
    obtain rfl := hrest rfl rfl
    obtain ⟨htarget, hvalue⟩ := List.forall_mem_append.1 hparts
    exact (((markIf isRest "..." (by decide)).append (slot htarget)).append
      (initializer hvalue)).congr (by simp [ShapeOf.children]) fun _ _ => rfl
  | pattern role elements =>
    obtain rfl := hrest rfl rfl
    cases role with
    | object => exact inBraces hparts hholes false
    | array => exact inBrackets hparts hholes false
  | patternElement isRest property target value =>
    obtain rfl := hrest rfl rfl
    simp only [ShapeOf.children, List.forall_mem_append] at hparts
    exact cuts_patternElement hparts.1.1 hparts.1.2 hparts.2 quotes
  | propertyAccess object target =>
    obtain ⟨hobject, htarget⟩ := List.forall_mem_append.1 hparts
    have hpoint : Cuts name false (fun _ => text ".") [] := .plain "." (by decide)
    have hfirst := leftmost hobject fun hl => (hleads hl).resolve_left Bool.false_ne_true
    exact ((hfirst.append hpoint).append (slot htarget)).congr (by simp [ShapeOf.children])
      fun _ _ => rfl
  | elementAccess object argument =>
    obtain ⟨hobject, hargument⟩ := List.forall_mem_append.1 hparts
    have hleft : Cuts name false (fun _ => text "[") [] := .plain "[" (by decide)
    have hright : Cuts name false (fun _ => text "]") [] := .plain "]" (by decide)
    have hfirst := leftmost hobject fun hl => (hleads hl).resolve_left Bool.false_ne_true
    exact (((hfirst.append hleft).append (slot hargument)).append hright).congr
      (by simp [ShapeOf.children]) fun _ _ => rfl
  | call callee arguments =>
    obtain ⟨hcallee, harguments⟩ := List.forall_mem_append.1 hparts
    have hholes' : SameHoles shape? base arguments := fun i p hp => hholes i p (by
      simp [ShapeOf.children, hp])
    have hfirst := leftmost hcallee fun hl => (hleads hl).resolve_left Bool.false_ne_true
    exact (hfirst.append (inParentheses harguments hholes' false)).congr (by simp [ShapeOf.children])
      fun _ _ => rfl
  | new callee arguments =>
    obtain ⟨hcallee, harguments⟩ := List.forall_mem_append.1 hparts
    exact cuts_new hcallee harguments (fun i p hp => hholes i p (by simp [ShapeOf.children, hp]))
      quotes
  | binary left operator right =>
    obtain ⟨hleft, -⟩ := List.forall_mem_append.1 hparts
    obtain ⟨p, rfl, hp⟩ := hoperand left operator right rfl
    have hfirst := leftmost hleft fun hl => (hleads hl).resolve_left Bool.false_ne_true
    exact (cuts_binary hfirst hp quotes).congr (by simp [ShapeOf.children]) fun _ _ => rfl
  | prefixed operator operand => exact cuts_prefixed htext hparts quotes
  | postfixed operator operand =>
    have hmark : Cuts name false (fun _ => text operator.spelling) [] :=
      .plain _ (by cases operator <;> first | decide | cases htext)
    have hfirst := leftmost hparts fun hl => (hleads hl).resolve_left Bool.false_ne_true
    exact (hfirst.append hmark).congr (by simp [ShapeOf.children]) fun _ _ => rfl
  | conditional condition whenTrue whenFalse =>
    simp only [ShapeOf.children, List.forall_mem_append] at hparts
    have hmark : Cuts name false (fun _ => text "?") [] := .plain "?" (by decide)
    have hfirst := leftmost hparts.1.1 fun hl => (hleads hl).resolve_left Bool.false_ne_true
    have htrue := (((hfirst.append .space).append hmark).append .space).append (slot hparts.1.2)
    exact ((((htrue.append .space).append hcolon).append .space).append (slot hparts.2)).congr
      (by simp [ShapeOf.children]) fun _ _ => rfl
  | parenthesized expression =>
    have hfirst : Cuts name leads (fun _ => text "(") [] :=
      .opening "(" (by decide) (by decide) (by decide)
    exact ((hfirst.append (slot hparts)).append hclose).congr (by simp [ShapeOf.children])
      fun _ _ => rfl
  | yieldExpression delegates expression =>
    have hfirst : Cuts name leads (fun _ => text "yield") [] :=
      .opening "yield" (by decide) (by decide) (by decide)
    exact ((hfirst.append (markIf delegates "*" (by decide))).append (afterSpace hparts)).congr
      (by simp [ShapeOf.children]) fun _ _ => rfl

end

end FunctionNaming
