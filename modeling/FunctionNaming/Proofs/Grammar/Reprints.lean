import FunctionNaming.Proofs.Grammar.ForHead
import FunctionNaming.Proofs.Grammar.Reprints.Statement

/-!
What is printed for the phrases of a script is read as the same phrases. The one exception is an
assignment to an expression that ends with the word `yield`: the script has a line ended between the
word and the sign of assignment, which is not printed.
-/

namespace FunctionNaming

open SyntaxTree (node)

/-- That the shape is no assignment to what ends with the word `yield` without an operand. -/
def SyntaxTree.HasPlainTarget : ShapeOf SyntaxTree → Prop
  | .binary (some left) operator _ => operator.isAssignment = true → ¬left.EndsInYield
  | _ => True

namespace Grammar

variable {c : Category} {Γ : Context} {d : Nat} {T rest : List Token} {ts : List SyntaxTree}

/-- That all tokens ahead are as the scanner makes them, with numbers that are read to their end. -/
def Scanned (T : List Token) : Prop := AllSound T ∧ AllNumeral T

theorem scanned_of_isSuffix {T' : List Token} (h : T' <:+ T) (hT : Scanned T) : Scanned T' :=
  ⟨allSound_of_isSuffix h hT.1, allNumeral_of_isSuffix h hT.2⟩

theorem Scanned.tail {t : Token} (h : Scanned (t :: T)) : Scanned T :=
  scanned_of_isSuffix (List.suffix_cons t T) h

theorem Scanned.isSound {t : Token} (h : Scanned (t :: T)) : t.IsSound := h.1 t List.mem_cons_self

theorem Derives.scanned (h : Derives c Γ d T ts rest) (hT : Scanned T) : Scanned rest :=
  scanned_of_isSuffix h.isSuffix hT

/-- That no tree holds an assignment to what ends with the word `yield` without an operand. -/
def HavePlainTargets (ts : List SyntaxTree) : Prop :=
  ∀ t ∈ ts, t.Everywhere SyntaxTree.HasPlainTarget

theorem havePlainTargets_nil : HavePlainTargets [] ↔ True := by
  simp [HavePlainTargets]

theorem havePlainTargets_cons {t : SyntaxTree} :
    HavePlainTargets (t :: ts) ↔ HavePlainTargets [t] ∧ HavePlainTargets ts := by
  simp [HavePlainTargets]

theorem havePlainTargets_append {ts' : List SyntaxTree} :
    HavePlainTargets (ts ++ ts') ↔ HavePlainTargets ts ∧ HavePlainTargets ts' :=
  List.forall_mem_append

theorem havePlainTargets_node {s : ShapeOf SyntaxTree} :
    HavePlainTargets [node s] ↔ SyntaxTree.HasPlainTarget s ∧ HavePlainTargets s.children :=
  List.forall_mem_singleton.trans SyntaxTree.everywhere_node_iff

theorem Derives.ne_nil_of_declarators (h : Derives .declarators Γ d T ts rest) : ts ≠ [] := by
  cases h <;> exact List.cons_ne_nil _ _

theorem Derives.kindOf_of_arguments (h : Derives .arguments Γ d T ts rest) :
    ∃ t T', T = t :: T' ∧ t.kind = .openParen := by
  cases h with
  | arguments ht => exact ⟨_, _, rfl, ht⟩

/-- What is printed for the trees of a phrase is a phrase with the same trees. -/
theorem Derives.reprints (p : Typeset) (h : Derives c Γ d T ts rest) (hT : Scanned T)
    (hts : HavePlainTargets ts) : Reprints p c Γ d T ts rest := by
  have hoptional : ∀ {c Γ d T ts rest}, c.isOptional = true → Derives c Γ d T ts rest →
      HavePlainTargets ts.head?.toList → HavePlainTargets ts := fun hc h hts =>
    h.toList_head? hc ▸ hts
  have haccepts : ∀ {k b T T'}, Accepts k b T T' → Scanned T → Scanned T' := fun h =>
    scanned_of_isSuffix h.isSuffix
  induction h
  all_goals
    try simp only [havePlainTargets_nil, havePlainTargets_append, havePlainTargets_node,
      ShapeOf.children, SyntaxTree.HasPlainTarget, Option.toList_some, Option.toList_none,
      Option.getD_some, Option.getD_none, and_assoc, and_true, true_and] at hts
  -- Names and literals.
  case word hk => exact .word hT.isSound hk
  case name hk => exact .name hT.isSound hk
  case declaredName ih => exact .declaredName (ih hT hts)
  case noName h => exact .noName
  case string hk => exact .string hT.isSound hk
  case number hk => exact .number (hT.2 _ List.mem_cons_self hk) hk
  case literalName ih => exact .literalName (ih hT hts)
  case wordName ih => exact .wordName (ih hT hts)
  case computedName ht he hc ih => exact .computedName ht (ih hT.tail hts)
  -- Bindings.
  case noInitializer => exact .noInitializer
  case initializer ht he ih => exact .initializer (ih hT.tail hts)
  case restProperty ht hn ih => exact .restProperty (ih hT.tail hts)
  case shorthandBinding hn hcolon hv ihn ihv =>
    exact .shorthandBinding (ihn hT hts.1) (ihv (hn.scanned hT) (hoptional rfl hv hts.2))
  case namedBinding hx hu hn hv ihx ihn ihv =>
    have hT₁ := (hx.scanned hT).tail
    exact .namedBinding (ihx hT hts.1) (ihn hT₁ hts.2.1)
      (ihv (hn.scanned hT₁) (hoptional rfl hv hts.2.2))
  case keyedBinding hbinds hx hu hn hv ihx ihn ihv =>
    have hT₁ := (hx.scanned hT).tail
    exact .keyedBinding hbinds (ihx hT hts.1) (ihn hT₁ hts.2.1)
      (ihv (hn.scanned hT₁) (hoptional rfl hv hts.2.2))
  case restElement ht hn ih => exact .restElement (ih hT.tail hts)
  case elementBinding hn hv ihn ihv =>
    exact .elementBinding (ihn hT hts.1) (ihv (hn.scanned hT) (hoptional rfl hv hts.2))
  case boundName ih => exact .boundName (ih hT hts)
  case objectPattern ht hlist hu ih => exact .objectPattern (ih hT.tail hts)
  case arrayPattern ht hlist hu ih => exact .arrayPattern (ih hT.tail hts)
  case declarator hn hv ihn ihv =>
    exact .declarator (ihn hT hts.1) (ihv (hn.scanned hT) (hoptional rfl hv hts.2))
  case lastDeclarator hx hrest ih =>
    exact .lastDeclarator (hx.isHole_eq_false rfl _ List.mem_cons_self) (ih hT hts)
  case moreDeclarators hx hu hxs ihx ihxs =>
    obtain ⟨hx', hxs'⟩ := havePlainTargets_cons.1 hts
    exact .moreDeclarators hu (ihx hT hx') (ihxs (hx.scanned hT).tail hxs')
      hxs.ne_nil_of_declarators
  case variableList ht hxs ih => exact .variableList (ih hT.tail hts)
  case parameter ha hn hv ihn ihv =>
    have hT₁ := haccepts ha hT
    exact .parameter (ihn hT₁ hts.1) (ihv (hn.scanned hT₁) (hoptional rfl hv hts.2))
  -- Lists.
  case listEnd => exact .listEnd
  case listLast hx hrest ih =>
    have hhole := fun hitem => hx.isHole_eq_false (Category.isSingle_of_isElement hitem) _
      List.mem_cons_self
    exact .listLast hhole (ih hT hts)
  case listMore hx hu hxs ihx ihxs =>
    obtain ⟨hx', hxs'⟩ := havePlainTargets_cons.1 hts
    have hhole := fun hitem => hx.isHole_eq_false (Category.isSingle_of_isElement hitem) _
      List.mem_cons_self
    exact .listMore hhole hu (ihx hT hx') (ihxs (hx.scanned hT).tail hxs')
  case listHole hu hxs ih => exact .listHole (ih hT.tail (havePlainTargets_cons.1 hts).2)
  -- Functions.
  case statementsEnd => exact .statementsEnd
  case statementsMore hx hxs ihx ihxs =>
    obtain ⟨hx', hxs'⟩ := havePlainTargets_cons.1 hts
    exact .statementsMore (ihx hT hx') (ihxs (hx.scanned hT) hxs')
  case block hd ht hxs hu ih => exact .block hd (ih hT.tail hts)
  case signature ht hps hu hbody ihps ihbody =>
    exact .signature (ihps hT.tail hts.1) (ihbody (hps.scanned hT.tail).tail hts.2)
  case function ha ht hs hns hsig ihns ihsig =>
    have hT₂ := haccepts hs (haccepts ha hT).tail
    exact .function ha ht (ihns hT₂ (hoptional rfl hns hts.1))
      (ihsig (hns.scanned hT₂) (havePlainTargets_append.2 hts.2))
  case groupParameters ht hps hu ih => exact .groupParameters (ih hT.tail hts)
  case nameParameter hn ih => exact .nameParameter (ih hT hts)
  case arrowBlock ih => exact .arrowBlock (ih hT hts)
  case arrowExpression hbrace hbody ih => exact .arrowExpression hbrace (ih hT hts)
  case arrow ha hps hu hbody ihps ihbody =>
    have hT₁ := haccepts ha hT
    exact .arrow ha (ihps hT₁ hts.1) (ihbody (hps.scanned hT₁).tail hts.2)
  -- Members.
  case spread ht he ih => exact .spread (ih hT.tail hts)
  case spreadMember ih => exact .spreadMember (ih hT hts)
  case accessorMember hm hn hsig ihn ihsig =>
    have hT₁ := scanned_of_isSuffix (isSuffix_passModifiers hm) hT
    exact .accessorMember (ihn hT₁ hts.1) (ihsig (hn.scanned hT₁) (havePlainTargets_append.2 hts.2))
  case methodMember hm hn hparen hsig ihn ihsig =>
    have hT₁ := scanned_of_isSuffix (isSuffix_passModifiers hm) hT
    exact .methodMember (ihn hT₁ hts.1) (ihsig (hn.scanned hT₁) (havePlainTargets_append.2 hts.2))
  case valueMember hm hn hu hv ihn ihv =>
    have hT₁ := scanned_of_isSuffix (isSuffix_passModifiers hm) hT
    exact .valueMember (ihn hT₁ hts.1) (ihv (hn.scanned hT₁).tail hts.2)
  case shorthandMember hm hbinds hn hparen hcolon ih =>
    exact .shorthandMember hbinds (ih (scanned_of_isSuffix (isSuffix_passModifiers hm) hT) hts)
  case objectLiteral ht hlist hu ih => exact .objectLiteral ht (ih hT.tail hts)
  case classAccessor hs hm hn hsig ihn ihsig =>
    have hT₁ := scanned_of_isSuffix ((isSuffix_passModifiers hm).trans (isSuffix_passStatic hs)) hT
    exact .classAccessor (ihn hT₁ hts.1) (ihsig (hn.scanned hT₁) (havePlainTargets_append.2 hts.2))
  case classConstructor hs hm hn hname hparen hsig ihn ihsig =>
    have hT₁ := scanned_of_isSuffix ((isSuffix_passModifiers hm).trans (isSuffix_passStatic hs)) hT
    exact .classConstructor (ihsig (hn.scanned hT₁) (havePlainTargets_append.2 hts))
  case classMethod hs hm hn hparen hmethod hsig ihn ihsig =>
    have hT₁ := scanned_of_isSuffix ((isSuffix_passModifiers hm).trans (isSuffix_passStatic hs)) hT
    exact .classMethod hmethod (ihn hT₁ hts.1) (ihsig (hn.scanned hT₁) (havePlainTargets_append.2 hts.2))
  case classField hs hm hn hparen hv hend ihn ihv =>
    have hT₁ := scanned_of_isSuffix ((isSuffix_passModifiers hm).trans (isSuffix_passStatic hs)) hT
    exact .classField (ihn hT₁ hts.1) (ihv (hn.scanned hT₁) (hoptional rfl hv hts.2))
  case classMembersEnd => exact .classMembersEnd
  case classMembersSkip ht hxs ih => exact .classMembersSkip (ih hT.tail hts)
  case classMembersMore hx hxs ihx ihxs =>
    obtain ⟨hx', hxs'⟩ := havePlainTargets_cons.1 hts
    exact .classMembersMore (ihx hT hx') (ihxs (hx.scanned hT) hxs')
  case noHeritage => exact .noHeritage
  case heritage ht he ih => exact .heritage (ih hT.tail hts)
  case classLike ht hns hhs ho hms hu ihns ihhs ihms =>
    have hT₁ := hns.scanned hT.tail
    exact .classLike ht (ihns hT.tail (hoptional rfl hns hts.1))
      (ihhs hT₁ (hoptional rfl hhs hts.2.1)) ho (ihms (hhs.scanned hT₁).tail hts.2.2)
  -- The comma and assignment.
  case sequenceFirst ih => exact .sequenceFirst (ih hT hts)
  case sequenceNext hl hu hr ihl ihr =>
    exact .sequenceNext (ihl hT hts.2.1) hu (ihr (hl.scanned hT).tail hts.2.2)
  case expression hrest ih => exact .expression (ih hT hts)
  case yieldAlone ht hstar hends => exact .yieldAlone ht
  case yieldValue ht hstar hends he ih => exact .yieldValue ht (ih hT.tail hts)
  case yieldAll ht hs hline he ih => exact .yieldAll ht (ih hT.tail.tail hts)
  case noCondition he hrest ih => exact .noCondition (ih hT hts)
  case conditional he hq hx hu hy ihe ihx ihy =>
    have hT₁ := (he.scanned hT).tail
    exact .conditional (ihe hT hts.1) hq (ihx hT₁ hts.2.1) hu (ihy (hx.scanned hT₁).tail hts.2.2)
  case assignmentYield hd hyield he ih => exact .assignmentYield hd hyield (ih hT hts)
  case assignmentArrow hd harrow he ih => exact .assignmentArrow hd (ih hT hts)
  case noAssignment hd harrow he hrest ih => exact .noAssignment hd (ih hT hts) hrest
  case assignment hd harrow hl ho hr ihl ihr =>
    exact .assignment hd (hts.1 ho) (ihl hT hts.2.1) ho (ihr (hl.scanned hT).tail hts.2.2)
  -- Operators.
  case operandsFirst ih => exact .operandsFirst (ih hT hts)
  case operandsNext hl ho hstops hr ihl ihr =>
    exact .operandsNext (ihl hT hts.2.1) ho hstops (ihr (hl.scanned hT).tail hts.2.2)
  case binary he hstops ih => exact .binary (ih hT hts) hstops
  case prefixed hd ho he ih => exact .prefixed hd ho (ih hT.tail hts)
  case postfixed he ho hline ih => exact .postfixed (ih hT hts) ho hline
  case operand he hrest ih => exact .operand (ih hT hts) hrest
  -- Accesses and calls.
  case primaryFunction hstarts he ih => exact .primaryFunction hstarts (ih hT hts)
  case primaryClass he ih => exact .primaryClass (eq_of_beq (he.first rfl)) (ih hT hts)
  case parenthesized ht he hu ih => exact .parenthesized ht (ih hT.tail hts)
  case arrayLiteral ht hlist hu ih => exact .arrayLiteral ht (ih hT.tail hts)
  case primaryObject he ih => exact .primaryObject (eq_of_beq (he.first rfl)) (ih hT hts)
  case primaryKeyword hk => exact .primaryKeyword hk
  case primaryLiteral he ih =>
    exact .primaryLiteral (by simpa [Category.first] using he.first rfl) (ih hT hts)
  case primaryName hstarts he ih => exact .primaryName he.tail_of_name (ih hT hts)
  case elementSpread ih => exact .elementSpread (ih hT hts)
  case element ih => exact .element (ih hT hts)
  case arguments ht hlist hu ih => exact .arguments ht (ih hT.tail hts)
  case chainFirst ih => exact .chainFirst (ih hT hts)
  case chainNew ih => exact .chainNew (ih hT hts)
  case propertyAccess hx ho hn ihx ihn =>
    exact .propertyAccess (ihx hT hts.1) ho (ihn (hx.scanned hT).tail hts.2)
  case elementAccess hx ho hy hu ihx ihy =>
    exact .elementAccess (ihx hT hts.1) ho (ihy (hx.scanned hT).tail hts.2)
  case call hx has ihx ihas =>
    obtain ⟨t, T', rfl, ht⟩ := has.kindOf_of_arguments
    exact .call (ihx hT hts.1) ht (ihas (hx.scanned hT) hts.2)
  case leftHandSide he hdot hbracket hparen ih =>
    exact .leftHandSide hdot hbracket hparen (ih hT hts)
  case new hd ht he hdot hbracket hparen ih =>
    exact .new hd ht (ih hT.tail hts) hdot hbracket hparen
  case newCall hd ht he has ihe ihas =>
    obtain ⟨u, T', rfl, hu⟩ := has.kindOf_of_arguments
    exact .newCall hd ht (ihe hT.tail hts.1) hu (ihas (he.scanned hT.tail) hts.2)
  -- Statements.
  case variableStatement hl hend ih => exact .variableStatement (ih hT hts)
  case noReturnValue => exact .noReturnValue
  case returnValue hends he ih => exact .returnValue (ih hT hts)
  case noAlternative h => exact .noAlternative h
  case alternative ht hx ih => exact .alternative ht (ih hT.tail hts)
  case noForInitializer => exact .noForInitializer
  case forVariables ih => exact .forVariables (ih hT hts)
  case forExpression hstarts hne he ih => exact .forExpression hstarts (ih hT hts)
  case noExpression => exact .noExpression
  case expressionBefore hne he ih => exact .expressionBefore (ih hT hts)
  case exportVariables ih => exact .exportVariables (ih hT hts)
  case exportFunction hstarts hx ih => exact .exportFunction (ih hT hts)
  case exportClass ih => exact .exportClass (ih hT hts)
  case defaultFunction hstarts hx ih =>
    exact .defaultFunction (by cases hx; rfl) (ih hT hts)
  case defaultClass hx ih => exact .defaultClass (by cases hx; rfl) (ih hT hts)
  case defaultExpression hstarts hclass hx hend ih =>
    exact .defaultExpression hx.isDeclaration_of_assignment hstarts hclass (ih hT hts)
  case blockStatement ih => exact .blockStatement (ih hT hts)
  case emptyStatement => exact .emptyStatement
  case «variables» ih => exact .variables (ih hT hts)
  case functionStatement hstarts hx ih => exact .functionStatement (ih hT hts)
  case classStatement ih => exact .classStatement (ih hT hts)
  case ifStatement ht ho he hu hx hys ihe ihx ihys =>
    have hT₁ := (he.scanned hT.tail.tail).tail
    exact .ifStatement (ihe hT.tail.tail hts.1) (ihx hT₁ hts.2.1)
      (ihys (hx.scanned hT₁) (hoptional rfl hys hts.2.2))
  case whileStatement ht ho he hu hx ihe ihx =>
    exact .whileStatement (ihe hT.tail.tail hts.1) (ihx (he.scanned hT.tail.tail).tail hts.2)
  case forStatement ht ho hxs hu hys hu' hzs hu'' hx ihxs ihys ihzs ihx =>
    have hT₁ := (hxs.scanned hT.tail.tail).tail
    have hT₂ := (hys.scanned hT₁).tail
    exact .forStatement (ihxs hT.tail.tail (hoptional rfl hxs hts.1))
      (ihys hT₁ (hoptional rfl hys hts.2.1)) (ihzs hT₂ (hoptional rfl hzs hts.2.2.1))
      (ihx (hzs.scanned hT₂).tail hts.2.2.2)
  case returnStatement ht hv hend ih => exact .returnStatement (ih hT.tail (hoptional rfl hv hts))
  case throwStatement ht he hend ih => exact .throwStatement (ih hT.tail hts)
  case exportDefault ht hk hx ih => exact .exportDefault (ih hT.tail.tail hts)
  case exportDeclaration ht hx ih => exact .exportDeclaration (ih hT.tail hts)
  case expressionStatement hstarts he hend ih => exact .expressionStatement hstarts (ih hT hts)
  case statement hd hx ih => exact .statement hd (ih hT hts)

end Grammar

end FunctionNaming
