import FunctionNaming.Script
import FunctionNaming.Proofs.Grammar.Builds

/-!
Every rule of the grammar makes a tree: the node that a rule gives is free, and all that the rule has
put under it was free before. The rules are taken in the order of the grammar. Each needs that the
rules which it reaches through `parse` behave so too.

Blocks, parentheses and operators before their operand add to the nesting in a tree. Blocks and
operators are read by nested rules, and so is what stands in parentheses. Hence their number on a way
down is bounded by the number of nested rules that may be under way at once.
-/

namespace FunctionNaming.Grammar

/-! ### Looking ahead -/

theorem builds_startsBinding : Builds 1 1 [] startsBinding fun _ => [] := by
  refine builds_kind.bind fun k => ?_
  split
  · exact Builds.skip _
  · exact Builds.skip _
  · exact builds_isIdentifier

theorem builds_startsAsyncFunction : Builds 1 1 [] startsAsyncFunction fun _ => [] := by
  refine Builds.lookAhead (builds_advance.bind fun _ => (builds_isAt _).bind fun b => ?_)
  exact builds_afterLineBreak.bind fun _ => Builds.skip _

theorem builds_isArrow : Builds 1 1 [] isArrow fun _ => [] :=
  (builds_isAt _).bind fun _ => builds_afterLineBreak.bind fun _ => Builds.skip _

theorem builds_skipGroupWithin (limit depth : Nat) :
    Builds 1 1 [] (skipGroupWithin limit depth) fun _ => [] := by
  induction limit generalizing depth with
  | zero => exact Builds.cutOff fun _ => Nat.le_refl _
  | succ limit ih =>
    refine builds_kind.bind fun k => ?_
    split
    · exact Builds.skip _
    · split
      · exact Builds.skip _
      · refine builds_advance.bind fun _ => ?_
        split
        · exact ih _
        · split
          · exact ih _
          · exact ih _

theorem builds_arrowFollowsGroup : Builds 1 1 [] arrowFollowsGroup fun _ => [] := by
  refine (builds_inspect _).bind fun s => (builds_skipGroupWithin _ _).bind fun b => ?_
  split
  · exact builds_advance.bind fun _ => builds_isArrow
  · exact Builds.skip _

theorem builds_startsArrowFunction : Builds 1 1 [] startsArrowFunction fun _ => [] := by
  refine builds_kind.bind fun k => ?_
  split
  · exact builds_arrowFollowsGroup.lookAhead
  · refine Builds.lookAhead (builds_advance.bind fun _ => builds_afterLineBreak.bind fun b => ?_)
    split
    · exact Builds.skip _
    · refine (builds_isAt _).bind fun b => ?_
      split
      · exact builds_arrowFollowsGroup
      · refine builds_isIdentifier.bind fun b => ?_
        split
        · exact builds_advance.bind fun _ => builds_isArrow
        · exact Builds.skip _
  · refine builds_isIdentifier.bind fun b => ?_
    split
    · exact Builds.lookAhead (builds_advance.bind fun _ => builds_isArrow)
    · exact Builds.skip _

theorem builds_startsLetDeclaration : Builds 1 1 [] startsLetDeclaration fun _ => [] :=
  Builds.lookAhead (builds_advance.bind fun _ => builds_startsBinding)

theorem builds_startsMember : Builds 1 1 [] startsMember fun _ => [] := by
  refine builds_kind.bind fun k => ?_
  split
  · exact Builds.skip _
  · exact Builds.skip _
  · exact Builds.skip _
  · exact Builds.skip _
  · exact builds_isPropertyWord

theorem builds_isModifier : Builds 1 1 [] isModifier fun _ => [] :=
  Builds.lookAhead (builds_advance.bind fun _ => builds_startsMember)

theorem builds_isAsyncModifier : Builds 1 1 [] isAsyncModifier fun _ => [] :=
  Builds.lookAhead (builds_advance.bind fun _ => builds_afterLineBreak.bind fun _ =>
    builds_startsMember.bind fun _ => Builds.skip _)

theorem builds_staticModifier : Builds 1 1 [] staticModifier fun _ => [] := by
  refine (builds_isAt _).bind fun b => ?_
  split
  · refine builds_isModifier.bind fun b => ?_
    split
    · exact builds_advance.bind fun _ => Builds.skip _
    · exact Builds.skip _
  · exact Builds.skip _

theorem builds_accessorModifier : Builds 1 1 [] accessorModifier fun _ => [] := by
  refine builds_kind.bind fun k => ?_
  split
  · refine builds_isModifier.bind fun b => ?_
    split
    · exact builds_advance.bind fun _ => Builds.skip _
    · exact Builds.skip _
  · refine builds_isModifier.bind fun b => ?_
    split
    · exact builds_advance.bind fun _ => Builds.skip _
    · exact Builds.skip _
  · exact Builds.skip _

theorem builds_asyncModifier : Builds 1 1 [] asyncModifier fun _ => [] := by
  refine (builds_isAt _).bind fun b => ?_
  split
  · refine builds_isAsyncModifier.bind fun b => ?_
    split
    · exact builds_advance.bind fun _ => Builds.skip _
    · exact Builds.skip _
  · exact Builds.skip _

theorem builds_modifiers (isStatic : Bool) : Builds 1 1 [] (modifiers isStatic) fun _ => [] := by
  refine builds_accessorModifier.bind fun role => ?_
  split
  · exact Builds.skip _
  · exact builds_asyncModifier.bind fun isAsync => (builds_accept _).bind fun _ => Builds.skip _

/-! ### Names and literals -/

theorem builds_propertyWord : Builds 1 1 [] propertyWord fun id => [id] := by
  refine builds_isPropertyWord.bind fun b => ?_
  split
  · refine (builds_inspect _).bind fun s => builds_advance.bind fun _ => builds_finish rfl fun id => ?_
    simp [ShapeOf.children]
  · exact (builds_complain _).bind fun _ => builds_missingIdentifier

theorem builds_identifier : Builds 1 1 [] identifier fun id => [id] := by
  refine builds_isIdentifier.bind fun b => ?_
  split
  · exact builds_propertyWord
  · exact (builds_complain _).bind fun _ => builds_missingIdentifier

theorem builds_declaredName (required : Bool) :
    Builds 1 1 [] (declaredName required) Option.toList := by
  refine builds_isIdentifier.bind fun b => ?_
  split
  · exact builds_identifier.map fun _ => rfl
  · split
    · exact (builds_complain _).bind fun _ => Builds.pure fun _ => Nat.le_refl _
    · exact Builds.pure fun _ => Nat.le_refl _

theorem builds_literal : Builds 1 1 [] literal fun id => [id] := by
  refine (builds_inspect _).bind fun s => builds_advance.bind fun _ => ?_
  split
  · exact builds_finish rfl fun id => by simp [ShapeOf.children]
  · exact builds_finish rfl fun id => by simp [ShapeOf.children]

theorem builds_keywordExpression {shape : Shape} (hflat : shape.nesting = 0)
    (h : shape.children = []) : Builds 1 1 [] (keywordExpression shape) fun id => [id] := by
  refine builds_position.bind fun start => builds_advance.bind fun _ =>
    builds_finish hflat fun id => ?_
  simp [h]

section

variable {parse : Rule → Parser Slot} (hparse : ∀ rule, Builds 1 1 [] (parse rule) Option.toList)

include hparse

theorem builds_memberName : Builds 1 1 [] (memberName parse) Option.toList := by
  refine builds_kind.bind fun k => ?_
  split
  · exact builds_literal.map fun _ => rfl
  · exact builds_literal.map fun _ => rfl
  · refine builds_position.bind fun start => builds_advance.bind fun _ => ?_
    refine (hparse _).bind fun expression => (builds_expect _).bind fun _ => ?_
    refine (builds_finish rfl ?_).map fun _ => rfl
    intro id
    simp [ShapeOf.children]
  · refine builds_isPropertyWord.bind fun b => ?_
    split
    · exact builds_propertyWord.map fun _ => rfl
    · exact (builds_complain _).bind fun _ => Builds.pure fun _ => Nat.le_refl _

/-! ### Bindings -/

theorem builds_initializer : Builds 1 1 [] (initializer parse) Option.toList := by
  refine (builds_accept _).bind fun b => ?_
  split
  · exact hparse _
  · exact Builds.pure fun _ => Nat.le_refl _

theorem builds_propertyBinding :
    Builds 1 1 [] (propertyBinding parse) fun r => r.1.toList ++ r.2.toList := by
  refine builds_isIdentifier.bind fun b => ?_
  split
  · refine builds_identifier.bind fun first => (builds_accept _).bind fun b => ?_
    split
    · refine (hparse _).bind fun name => Builds.pure fun id => ?_
      simp only [List.count_append, Option.toList_some]
      omega
    · exact Builds.pure fun id => by simp
  · refine (builds_memberName hparse).bind fun property => (builds_expect _).bind fun _ => ?_
    refine (hparse _).bind fun name => Builds.pure fun id => ?_
    simp only [List.count_append]
    omega

theorem builds_objectPatternElement :
    Builds 1 1 [] (objectPatternElement parse) fun id => [id] := by
  refine builds_position.bind fun start => (builds_accept _).bind fun b => ?_
  split
  · refine builds_identifier.bind fun name => builds_finish rfl fun id => ?_
    simp [ShapeOf.children]
  · refine (builds_propertyBinding hparse).bind fun ⟨property, name⟩ => ?_
    refine (builds_initializer hparse).bind fun value => builds_finish rfl fun id => ?_
    simp only [ShapeOf.children, List.count_append, List.count_nil]
    omega

theorem builds_arrayPatternElement : Builds 1 1 [] (arrayPatternElement parse) fun id => [id] := by
  refine builds_position.bind fun start => (builds_accept _).bind fun isRest => (hparse _).bind fun name => ?_
  split
  · refine Builds.pure_bind (builds_finish rfl fun id => ?_)
    simp [ShapeOf.children]
  · refine (builds_initializer hparse).bind fun value => builds_finish rfl fun id => ?_
    simp only [ShapeOf.children, List.count_append, Option.toList_none, List.count_nil]
    omega

theorem builds_objectPattern : Builds 1 1 [] (objectPattern parse) fun id => [id] := by
  refine builds_position.bind fun start => (builds_expect _).bind fun _ => ?_
  refine (Builds.commaList ((builds_objectPatternElement hparse).map fun _ => rfl)).bind fun elements => ?_
  refine (builds_expect _).bind fun _ => builds_finish rfl fun id => ?_
  simp [ShapeOf.children]

theorem builds_arrayPattern : Builds 1 1 [] (arrayPattern parse) fun id => [id] := by
  refine builds_position.bind fun start => (builds_expect _).bind fun _ => ?_
  refine (Builds.commaListWithHoles ((builds_arrayPatternElement hparse).map fun _ => rfl)).bind
    fun elements => ?_
  refine (builds_expect _).bind fun _ => builds_finish rfl fun id => ?_
  simp [ShapeOf.children]

theorem builds_bindingName : Builds 1 1 [] (bindingName parse) fun id => [id] := by
  refine builds_kind.bind fun k => ?_
  split
  · exact builds_objectPattern hparse
  · exact builds_arrayPattern hparse
  · exact builds_identifier

theorem builds_declarator : Builds 1 1 [] (declarator parse) fun id => [id] := by
  refine builds_position.bind fun start => (hparse _).bind fun name => ?_
  refine (builds_initializer hparse).bind fun value => builds_finish rfl fun id => ?_
  simp only [ShapeOf.children, List.count_append]
  omega

omit hparse in
theorem builds_variableKeyword : Builds 1 1 [] variableKeyword fun _ => [] := by
  refine builds_kind.bind fun k => ?_
  split
  · exact Builds.skip _
  · exact Builds.skip _
  · exact Builds.skip _

theorem builds_declarators : Builds 1 1 [] (declarators parse) id := by
  refine Builds.collect (builds_startsBinding.bind fun b => ?_)
  split
  · refine (builds_declarator hparse).bind fun bound => (builds_accept _).bind fun more => ?_
    exact Builds.pure fun _ => Nat.le_refl _
  · exact (builds_complain _).bind fun _ => Builds.pure fun _ => Nat.le_refl _

theorem builds_variableList : Builds 1 1 [] (variableList parse) fun id => [id] := by
  refine builds_position.bind fun start => builds_variableKeyword.bind fun keyword => ?_
  refine builds_advance.bind fun _ => (builds_declarators hparse).bind fun bound => ?_
  refine builds_finish rfl fun id => ?_
  simp [ShapeOf.children]

theorem builds_parameter : Builds 1 1 [] (parameter parse) fun id => [id] := by
  refine builds_position.bind fun start => (builds_accept _).bind fun isRest => ?_
  refine (hparse _).bind fun name => (builds_initializer hparse).bind fun value => ?_
  refine builds_finish rfl fun id => ?_
  simp only [ShapeOf.children, List.count_append]
  omega

theorem builds_parameterList : Builds 1 1 [] (parameterList parse) id :=
  Builds.commaList ((builds_parameter hparse).map fun _ => rfl)

/-! ### Functions -/

omit hparse in
theorem builds_listedStatement {k : Nat} (hstatement : Builds k k [] (parse .statement) Option.toList) :
    Builds k k [] (listedStatement parse) Option.toList := by
  refine (builds_inspect _).bind fun s => hstatement.bind fun statement => ?_
  refine (builds_inspect _).bind fun s' => builds_kind.bind fun k => ?_
  split
  · refine (builds_complain _).bind fun _ => builds_advance.bind fun _ => ?_
    exact Builds.pure fun id => by simp
  · exact Builds.pure fun id => by simp

theorem builds_statementList : Builds 1 1 [] (statementList parse) id := by
  refine Builds.collect ((builds_isAtOrEnd _).bind fun b => ?_)
  split
  · exact Builds.pure fun _ => Nat.le_refl _
  · refine (builds_listedStatement (hparse _)).bind fun statement => ?_
    exact Builds.pure fun id => by simp

theorem builds_block : Builds 1 1 [] (block parse) Option.toList := by
  refine Builds.nested (builds_position.bind fun start => (builds_expect _).bind fun _ => ?_)
  refine (builds_statementList hparse).bind fun statements => (builds_expect _).bind fun _ => ?_
  refine (builds_finish_nesting rfl fun id => ?_).map fun _ => rfl
  simp [ShapeOf.children]

/-- The nodes that a list of parameters and a body hand over. -/
def signatureNodes (r : List NodeId × Slot) : List NodeId := r.1 ++ r.2.toList

theorem builds_signatureAndBody (isAsync isGenerator : Bool) :
    Builds 1 1 [] (signatureAndBody parse isAsync isGenerator) signatureNodes := by
  refine Builds.withContext ((builds_expect _).bind fun _ => ?_)
  refine (builds_parameterList hparse).bind fun parameters => (builds_expect _).bind fun _ => ?_
  refine (builds_block hparse).bind fun body => Builds.pure fun id => ?_
  simp only [signatureNodes, id_eq, List.count_append, List.nil_append, List.count_nil]
  omega

theorem builds_functionDeclaration (nameRequired : Bool) :
    Builds 1 1 [] (functionDeclaration parse nameRequired) fun id => [id] := by
  refine builds_position.bind fun start => (builds_accept _).bind fun isAsync => ?_
  refine (builds_expect _).bind fun _ => (builds_accept _).bind fun isGenerator => ?_
  refine (builds_declaredName _).bind fun name => ?_
  refine (builds_signatureAndBody hparse _ _).bind fun ⟨parameters, body⟩ => ?_
  refine builds_finish rfl fun id => ?_
  simp only [ShapeOf.children, signatureNodes, List.count_append]
  omega

theorem builds_functionExpression : Builds 1 1 [] (functionExpression parse) fun id => [id] := by
  refine builds_position.bind fun start => (builds_accept _).bind fun isAsync => ?_
  refine (builds_expect _).bind fun _ => (builds_accept _).bind fun isGenerator => ?_
  refine (builds_declaredName _).withContext.bind fun name => ?_
  refine (builds_signatureAndBody hparse _ _).bind fun ⟨parameters, body⟩ => ?_
  refine builds_finish rfl fun id => ?_
  simp only [ShapeOf.children, signatureNodes, List.count_append]
  omega

theorem builds_arrowParameters : Builds 1 1 [] (arrowParameters parse) id := by
  refine (builds_accept _).bind fun b => ?_
  split
  · refine (builds_parameterList hparse).bind fun parameters => (builds_expect _).bind fun _ => ?_
    exact Builds.pure fun id => by simp
  · refine builds_position.bind fun start => builds_identifier.bind fun name => ?_
    refine Builds.seq (builds_finish rfl fun id => ?_) fun node => Builds.pure fun _ => Nat.le_refl _
    simp [ShapeOf.children]

theorem builds_arrowFunction : Builds 1 1 [] (arrowFunction parse) fun id => [id] := by
  have hbody : Builds 1 1 [] (do if ← isAt .openBrace then block parse else parse .assignment)
      Option.toList := by
    refine (builds_isAt _).bind fun b => ?_
    split
    · exact builds_block hparse
    · exact hparse _
  refine builds_position.bind fun start => (builds_accept _).bind fun isAsync => ?_
  refine (builds_arrowParameters hparse).bind fun parameters => (builds_expect _).bind fun _ => ?_
  refine hbody.withContext.bind fun body => builds_finish rfl fun id => ?_
  simp only [ShapeOf.children, List.count_append, id_eq, Option.toList_none, List.nil_append,
    List.count_nil]
  omega

/-! ### Members -/

theorem builds_methodRest (start : Nat) (m : Modifiers) (name : NodeId) :
    Builds 1 1 [name] (methodRest parse start m name) fun id => [id] := by
  refine (builds_signatureAndBody hparse _ _).bind fun ⟨parameters, body⟩ => ?_
  refine builds_finish rfl fun id => ?_
  simp only [ShapeOf.children, signatureNodes, List.count_append, Option.toList_some]
  omega

theorem builds_accessorRest (start : Nat) (role : AccessorRole) (isStatic : Bool)
    (name : NodeId) : Builds 1 1 [name] (accessorRest parse start role isStatic name) fun id => [id] := by
  refine (builds_signatureAndBody hparse _ _).bind fun ⟨parameters, body⟩ => ?_
  refine builds_finish rfl fun id => ?_
  simp only [ShapeOf.children, signatureNodes, List.count_append, Option.toList_some]
  omega

theorem builds_spread : Builds 1 1 [] (spread parse) fun id => [id] := by
  refine builds_position.bind fun start => (builds_expect _).bind fun _ => ?_
  refine (hparse _).bind fun expression => builds_finish rfl fun id => ?_
  simp [ShapeOf.children]

theorem builds_objectMember : Builds 1 1 [] (objectMember parse) Option.toList := by
  refine (builds_isAt _).bind fun b => ?_
  split
  · exact (builds_spread hparse).bind fun node => Builds.pure fun id => by simp
  · refine builds_position.bind fun start => (builds_modifiers _).bind fun m => ?_
    refine builds_isIdentifier.bind fun canStandAlone => ?_
    refine (builds_memberName hparse).bind fun name => ?_
    cases name with
    | none => exact Builds.pure fun _ => Nat.le_refl _
    | some name =>
      have hshorthand : Builds 1 1 [name] (do
          return some (← finish start (.shorthandProperty (some name)))) Option.toList :=
        (builds_finish rfl fun id => by simp [ShapeOf.children]).seq fun node =>
          Builds.pure fun _ => Nat.le_refl _
      dsimp only
      split
      · exact (builds_accessorRest hparse start _ _ name).seq fun node => Builds.pure fun _ => Nat.le_refl _
      · refine (builds_isAt _).bind fun b => ?_
        split
        · exact (builds_methodRest hparse start m name).seq fun node => Builds.pure fun _ => Nat.le_refl _
        · refine (builds_accept _).bind fun b => ?_
          split
          · refine (hparse _).bind fun value => Builds.seq (builds_finish rfl fun id => ?_) fun node =>
              Builds.pure fun _ => Nat.le_refl _
            simp only [ShapeOf.children, List.count_append, Option.toList_some, List.count_nil]
            omega
          · split
            · exact hshorthand
            · exact (builds_expect _).bind fun _ => hshorthand

theorem builds_objectLiteral : Builds 1 1 [] (objectLiteral parse) fun id => [id] := by
  refine builds_position.bind fun start => (builds_expect _).bind fun _ => ?_
  refine (builds_objectMember hparse).commaList.bind fun members => (builds_expect _).bind fun _ => ?_
  refine builds_finish rfl fun id => ?_
  simp [ShapeOf.children]

omit hparse in
theorem builds_isConstructorName (name : NodeId) :
    Builds 1 1 [] (isConstructorName name) fun _ => [] :=
  (builds_inspect _).bind fun _ => Builds.skip _

theorem builds_classMember : Builds 1 1 [] (classMember parse) Option.toList := by
  refine builds_position.bind fun start => builds_staticModifier.bind fun isStatic => ?_
  refine (builds_modifiers _).bind fun m => (builds_memberName hparse).bind fun name => ?_
  cases name with
  | none => exact Builds.pure fun _ => Nat.le_refl _
  | some name =>
    have hmethod : Builds 1 1 [name] (do return some (← methodRest parse start m name))
        Option.toList :=
      (builds_methodRest hparse start m name).seq fun node => Builds.pure fun _ => Nat.le_refl _
    have hfield : Builds 1 1 [name] (do
        let value ← initializer parse
        semicolon
        return some (← finish start (.classField m.isStatic (some name) value))) Option.toList := by
      refine (builds_initializer hparse).bind fun value => builds_semicolon.bind fun _ => ?_
      refine Builds.seq (builds_finish rfl fun id => ?_) fun node => Builds.pure fun _ => Nat.le_refl _
      simp only [ShapeOf.children, List.count_append, Option.toList_some, List.nil_append]
      omega
    dsimp only
    split
    · exact (builds_accessorRest hparse start _ _ name).seq fun node =>
        Builds.pure fun _ => Nat.le_refl _
    · refine (builds_isAt _).bind fun b => ?_
      split
      · refine (builds_isConstructorName name).bind fun b => ?_
        split
        · refine (builds_signatureAndBody hparse _ _).bind fun signature => ?_
          refine Builds.seq (builds_finish rfl fun id => ?_) fun node =>
            Builds.pure fun _ => Nat.le_refl _
          simp only [ShapeOf.children, signatureNodes, List.count_append]
          omega
        · exact hmethod
      · split
        · exact hmethod
        · exact hfield

theorem builds_classMembers : Builds 1 1 [] (classMembers parse) id := by
  refine Builds.collect ((builds_isAtOrEnd _).bind fun b => ?_)
  split
  · exact Builds.pure fun _ => Nat.le_refl _
  · refine (builds_accept _).bind fun b => ?_
    split
    · exact Builds.pure fun _ => Nat.le_refl _
    · refine (builds_inspect _).bind fun s => (builds_classMember hparse).bind fun member => ?_
      refine (builds_inspect _).bind fun s' => ?_
      split
      · exact builds_advance.bind fun _ => Builds.pure fun id => by simp
      · exact Builds.pure fun id => by simp

theorem builds_heritage : Builds 1 1 [] (heritage parse) Option.toList := by
  refine (builds_accept _).bind fun b => ?_
  split
  · exact hparse _
  · exact Builds.pure fun _ => Nat.le_refl _

theorem builds_classLike (role : ClassRole) (nameRequired : Bool) :
    Builds 1 1 [] (classLike parse role nameRequired) fun id => [id] := by
  refine builds_position.bind fun start => (builds_expect _).bind fun _ => ?_
  refine (builds_declaredName _).bind fun name => (builds_heritage hparse).bind fun extended => ?_
  refine (builds_expect _).bind fun _ => (builds_classMembers hparse).bind fun members => ?_
  refine (builds_expect _).bind fun _ => builds_finish rfl fun id => ?_
  simp only [ShapeOf.children, List.count_append, id_eq, List.count_nil]
  omega

/-! ### Expressions -/

omit hparse in
/-- Expressions joined by commas exceed the room by no more than each of them. -/
theorem builds_expression {k : Nat} (hassignment : Builds k k [] (parse .assignment) Option.toList) :
    Builds k k [] (expression parse) Option.toList := by
  refine builds_position.bind fun start => hassignment.seq fun first => ?_
  refine Builds.iterate fun left => (builds_isAt _).bind fun b => ?_
  split
  · refine builds_advance.bind fun _ => hassignment.bind fun right => ?_
    refine Builds.seq (builds_finish rfl fun id => ?_) fun node => Builds.pure fun _ => Nat.le_refl _
    simp only [ShapeOf.children, List.count_append, List.count_nil]
    omega
  · exact Builds.pure fun _ => Nat.le_refl _

omit hparse in
theorem builds_endsYield : Builds 1 1 [] endsYield fun _ => [] := by
  refine builds_kind.bind fun k => ?_
  split
  · exact Builds.pure fun _ => Nat.le_refl _
  · exact Builds.pure fun _ => Nat.le_refl _
  · exact Builds.pure fun _ => Nat.le_refl _
  · exact Builds.pure fun _ => Nat.le_refl _
  · exact builds_canEndStatement

omit hparse in
theorem builds_yieldStar : Builds 1 1 [] yieldStar fun _ => [] := by
  refine builds_afterLineBreak.bind fun b => ?_
  split
  · exact Builds.skip _
  · exact builds_accept _

theorem builds_yieldExpression : Builds 1 1 [] (yieldExpression parse) fun id => [id] := by
  refine builds_position.bind fun start => (builds_expect _).bind fun _ => ?_
  refine builds_yieldStar.bind fun delegates => builds_endsYield.bind fun endsHere => ?_
  split
  · refine (hparse _).bind fun operand => builds_finish rfl fun id => ?_
    simp [ShapeOf.children]
  · exact Builds.pure_bind (builds_finish rfl fun id => by simp [ShapeOf.children])

theorem builds_conditionalExpression : Builds 1 1 [] (conditionalExpression parse) Option.toList := by
  refine builds_position.bind fun start => (hparse _).bind fun condition => ?_
  split
  · exact Builds.pure fun _ => by simp
  · refine (builds_accept _).bind fun b => ?_
    split
    · refine (hparse _).outsideForHead.bind fun whenTrue => (builds_expect _).bind fun _ => ?_
      refine (hparse _).bind fun whenFalse => Builds.seq (builds_finish rfl fun id => ?_) fun node =>
        Builds.pure fun _ => Nat.le_refl _
      simp only [ShapeOf.children, List.count_append]
      omega
    · exact Builds.pure fun _ => by simp

theorem builds_assignmentExpression {j : Nat} :
    Builds j 0 [] (assignmentExpression parse) Option.toList := by
  have hnode : ∀ {p : Parser NodeId}, Builds 1 1 [] p (fun id => [id]) →
      Builds 1 1 [] (do return some (← p)) Option.toList :=
    fun hp => hp.seq fun node => Builds.pure fun _ => Nat.le_refl _
  refine Builds.nested ((builds_isAt _).bind fun b => builds_context.bind fun c => ?_)
  split
  · exact hnode (builds_yieldExpression hparse)
  · refine builds_startsArrowFunction.bind fun b => ?_
    split
    · exact hnode (builds_arrowFunction hparse)
    · refine builds_position.bind fun start => (builds_conditionalExpression hparse).bind fun left => ?_
      refine builds_kind.bind fun operator => ?_
      split
      · refine builds_advance.bind fun _ => (hparse _).bind fun right => ?_
        refine Builds.seq (builds_finish rfl fun id => ?_) fun node => Builds.pure fun _ => Nat.le_refl _
        simp only [ShapeOf.children, List.count_append]
        omega
      · exact Builds.pure fun _ => by simp

theorem builds_binaryExpression (above : Nat) :
    Builds 1 1 [] (binaryExpression parse above) Option.toList := by
  refine builds_position.bind fun start => (hparse _).seq fun first => ?_
  split
  · exact Builds.pure fun _ => by simp
  · refine Builds.iterate fun left => builds_kind.bind fun operator => ?_
    split
    · split
      · exact Builds.pure fun _ => Nat.le_refl _
      · refine builds_context.bind fun c => ?_
        split
        · exact Builds.pure fun _ => Nat.le_refl _
        · refine builds_advance.bind fun _ => (hparse _).bind fun right => ?_
          refine Builds.seq (builds_finish rfl fun id => ?_) fun node =>
            Builds.pure fun _ => Nat.le_refl _
          simp only [ShapeOf.children, List.count_append, List.count_nil]
          omega
    · exact Builds.pure fun _ => Nat.le_refl _

theorem builds_unaryExpression : Builds 1 1 [] (unaryExpression parse) Option.toList := by
  refine builds_position.bind fun start => builds_kind.bind fun operator => ?_
  split
  · refine Builds.nested (builds_advance.bind fun _ => (hparse _).bind fun operand => ?_)
    refine Builds.seq (builds_finish_nesting rfl fun id => ?_) fun node =>
      Builds.pure fun _ => Nat.le_refl _
    simp [ShapeOf.children]
  · refine (hparse _).bind fun operand => builds_kind.bind fun operator => ?_
    refine builds_afterLineBreak.bind fun b => ?_
    split
    · refine builds_advance.bind fun _ => Builds.seq (builds_finish rfl fun id => ?_) fun node =>
        Builds.pure fun _ => Nat.le_refl _
      simp [ShapeOf.children]
    · exact Builds.pure fun _ => by simp

omit hparse in
/-- What stands in parentheses is of a nested rule, so it does not exceed the room yet. -/
theorem builds_parenthesized (hassignment : Builds 0 0 [] (parse .assignment) Option.toList) :
    Builds 1 1 [] (parenthesized parse) fun id => [id] := by
  refine Builds.of_nil (j := 0) ?_
  refine builds_position.bind fun start => (builds_expect _).bind fun _ => ?_
  refine (builds_expression hassignment).outsideForHead.bind fun inner => ?_
  exact (builds_expect _).bind fun _ => builds_finish_nesting rfl fun id => by simp [ShapeOf.children]

theorem builds_element : Builds 1 1 [] (element parse) Option.toList := by
  refine (builds_isAt _).bind fun b => ?_
  split
  · exact (builds_spread hparse).bind fun node => Builds.pure fun id => by simp
  · exact hparse _

theorem builds_arrayLiteral : Builds 1 1 [] (arrayLiteral parse) fun id => [id] := by
  refine builds_position.bind fun start => (builds_expect _).bind fun _ => ?_
  refine (builds_element hparse).commaListWithHoles.outsideForHead.bind fun elements => ?_
  refine (builds_expect _).bind fun _ => builds_finish rfl fun id => ?_
  simp [ShapeOf.children]

section

variable (hassignment : Builds 0 0 [] (parse .assignment) Option.toList)

include hassignment

theorem builds_primaryExpression : Builds 1 1 [] (primaryExpression parse) Option.toList := by
  have hnode : ∀ {p : Parser NodeId}, Builds 1 1 [] p (fun id => [id]) →
      Builds 1 1 [] (some <$> p) Option.toList :=
    fun hp => hp.map fun _ => rfl
  refine builds_kind.bind fun k => ?_
  split
  · exact hnode (builds_functionExpression hparse)
  · exact hnode (builds_classLike hparse _ _)
  · exact hnode (builds_parenthesized hassignment)
  · exact hnode (builds_arrayLiteral hparse)
  · exact hnode (builds_objectLiteral hparse)
  · exact hnode (builds_keywordExpression rfl rfl)
  · exact hnode (builds_keywordExpression rfl rfl)
  · exact hnode (builds_keywordExpression rfl rfl)
  · exact hnode (builds_keywordExpression rfl rfl)
  · exact hnode (builds_keywordExpression rfl rfl)
  · exact hnode builds_literal
  · exact hnode builds_literal
  · refine builds_startsAsyncFunction.bind fun b => ?_
    split
    · exact (builds_functionExpression hparse).bind fun node => Builds.pure fun id => by simp
    · refine builds_isIdentifier.bind fun b => ?_
      split
      · exact builds_identifier.bind fun node => Builds.pure fun id => by simp
      · exact (builds_complain _).bind fun _ => Builds.pure fun _ => Nat.le_refl _

omit hassignment in
theorem builds_argumentList : Builds 1 1 [] (argumentList parse) id := by
  refine (builds_expect _).bind fun _ => ?_
  refine (builds_element hparse).commaList.outsideForHead.bind fun arguments => ?_
  exact (builds_expect _).bind fun _ => Builds.pure fun id => by simp

omit hassignment in
theorem builds_accesses (start : Nat) (object : Slot) (allowCalls : Bool) :
    Builds 1 1 object.toList (accesses parse start object allowCalls) Option.toList := by
  refine Builds.iterate fun object => builds_kind.bind fun k => ?_
  split
  · refine builds_advance.bind fun _ => builds_propertyWord.bind fun name => ?_
    refine Builds.seq (builds_finish rfl fun id => ?_) fun node => Builds.pure fun _ => Nat.le_refl _
    simp only [ShapeOf.children, List.count_append, Option.toList_some, List.count_nil]
    omega
  · refine builds_advance.bind fun _ => (builds_expression (hparse _)).outsideForHead.bind fun argument => ?_
    refine (builds_expect _).bind fun _ => Builds.seq (builds_finish rfl fun id => ?_) fun node =>
      Builds.pure fun _ => Nat.le_refl _
    simp only [ShapeOf.children, List.count_append, List.count_nil]
    omega
  · split
    · refine (builds_argumentList hparse).bind fun arguments => Builds.seq (builds_finish rfl fun id => ?_)
        fun node => Builds.pure fun _ => Nat.le_refl _
      simp only [ShapeOf.children, List.count_append, id_eq, List.count_nil]
      omega
    · exact Builds.pure fun _ => Nat.le_refl _
  · exact Builds.pure fun _ => Nat.le_refl _

theorem builds_chain (allowCalls : Bool) : Builds 1 1 [] (chain parse allowCalls) Option.toList := by
  have hrest : ∀ (start : Nat) (object : Slot), Builds 1 1 object.toList (do
      if object.isNone then return none
      accesses parse start object allowCalls) Option.toList := by
    intro start object
    split
    · exact Builds.pure fun _ => Nat.zero_le _
    · exact builds_accesses hparse start object allowCalls
  refine builds_position.bind fun start => (builds_isAt _).bind fun b => ?_
  split
  · exact (hparse _).seq fun object => hrest start object
  · exact (builds_primaryExpression hparse hassignment).seq fun object => hrest start object

theorem builds_construction : Builds 1 0 [] (construction parse) Option.toList := by
  refine Builds.nested (builds_position.bind fun start => (builds_expect _).bind fun _ => ?_)
  refine (builds_chain hparse hassignment false).bind fun callee => (builds_isAt _).bind fun b => ?_
  split
  · have harguments : Builds 1 1 [] (some <$> argumentList parse) fun r => r.getD [] :=
      (builds_argumentList hparse).map fun _ => rfl
    refine harguments.bind fun arguments => Builds.seq (builds_finish rfl fun id => ?_) fun node =>
      Builds.pure fun _ => Nat.le_refl _
    simp only [ShapeOf.children, List.count_append, List.count_nil]
    omega
  · refine Builds.pure_bind (Builds.seq (builds_finish rfl fun id => ?_) fun node =>
      Builds.pure fun _ => Nat.le_refl _)
    simp [ShapeOf.children]

theorem builds_leftHandSideExpression :
    Builds 1 1 [] (leftHandSideExpression parse) Option.toList :=
  builds_chain hparse hassignment true

end

/-! ### Statements -/

omit hparse in
theorem builds_emptyStatement : Builds 1 1 [] emptyStatement fun id => [id] :=
  builds_position.bind fun start => (builds_expect _).bind fun _ =>
    builds_finish rfl fun id => by simp [ShapeOf.children]

theorem builds_expressionStatement : Builds 1 1 [] (expressionStatement parse) Option.toList := by
  refine builds_position.bind fun start => (builds_expression (hparse _)).bind fun inner => ?_
  split
  · exact Builds.pure fun _ => Nat.zero_le _
  · refine builds_semicolon.bind fun _ => Builds.seq (builds_finish rfl fun id => ?_) fun node =>
      Builds.pure fun _ => Nat.le_refl _
    simp [ShapeOf.children]

theorem builds_variableStatement : Builds 1 1 [] (variableStatement parse) fun id => [id] := by
  refine builds_position.bind fun start => (builds_variableList hparse).bind fun list => ?_
  refine builds_semicolon.bind fun _ => builds_finish rfl fun id => ?_
  simp [ShapeOf.children]

theorem builds_returnValue : Builds 1 1 [] (returnValue parse) Option.toList := by
  refine builds_canEndStatement.bind fun b => ?_
  split
  · exact Builds.pure fun _ => Nat.le_refl _
  · exact builds_expression (hparse _)

theorem builds_returnStatement : Builds 1 1 [] (returnStatement parse) fun id => [id] := by
  refine builds_position.bind fun start => (builds_expect _).bind fun _ => ?_
  refine (builds_returnValue hparse).bind fun value => builds_semicolon.bind fun _ => ?_
  exact builds_finish rfl fun id => by simp [ShapeOf.children]

theorem builds_throwStatement : Builds 1 1 [] (throwStatement parse) fun id => [id] := by
  refine builds_position.bind fun start => (builds_expect _).bind fun _ => ?_
  refine (builds_expression (hparse _)).bind fun value => builds_semicolon.bind fun _ => ?_
  exact builds_finish rfl fun id => by simp [ShapeOf.children]

theorem builds_headCondition : Builds 1 1 [] (headCondition parse) Option.toList := by
  refine (builds_expect _).bind fun _ => (builds_expression (hparse _)).bind fun condition => ?_
  exact (builds_expect _).bind fun _ => Builds.pure fun id => by simp

theorem builds_alternative : Builds 1 1 [] (alternative parse) Option.toList := by
  refine (builds_accept _).bind fun b => ?_
  split
  · exact hparse _
  · exact Builds.pure fun _ => Nat.le_refl _

theorem builds_ifStatement : Builds 1 1 [] (ifStatement parse) fun id => [id] := by
  refine builds_position.bind fun start => (builds_expect _).bind fun _ => ?_
  refine (builds_headCondition hparse).bind fun condition => (hparse _).bind fun consequent => ?_
  refine (builds_alternative hparse).bind fun otherwise => builds_finish rfl fun id => ?_
  simp only [ShapeOf.children, List.count_append]
  omega

theorem builds_whileStatement : Builds 1 1 [] (whileStatement parse) fun id => [id] := by
  refine builds_position.bind fun start => (builds_expect _).bind fun _ => ?_
  refine (builds_headCondition hparse).bind fun condition => (hparse _).bind fun body => ?_
  refine builds_finish rfl fun id => ?_
  simp only [ShapeOf.children, List.count_append]
  omega

theorem builds_forFirst : Builds 1 1 [] (forFirst parse) Option.toList := by
  refine Builds.withContext (builds_kind.bind fun k => ?_)
  split
  · exact (builds_variableList hparse).map fun _ => rfl
  · exact (builds_variableList hparse).map fun _ => rfl
  · refine builds_startsLetDeclaration.bind fun b => ?_
    split
    · exact (builds_variableList hparse).bind fun list => Builds.pure fun id => by simp
    · exact builds_expression (hparse _)

theorem builds_forInitializer : Builds 1 1 [] (forInitializer parse) Option.toList := by
  refine (builds_isAt _).bind fun b => ?_
  split
  · exact Builds.pure fun _ => Nat.le_refl _
  · exact builds_forFirst hparse

theorem builds_expressionBefore (k : TokenKind) :
    Builds 1 1 [] (expressionBefore parse k) Option.toList := by
  refine (builds_isAt _).bind fun b => ?_
  split
  · exact Builds.pure fun _ => Nat.le_refl _
  · exact builds_expression (hparse _)

theorem builds_forStatement : Builds 1 1 [] (forStatement parse) fun id => [id] := by
  refine builds_position.bind fun start => (builds_expect _).bind fun _ => ?_
  refine (builds_expect _).bind fun _ => (builds_forInitializer hparse).bind fun first => ?_
  refine (builds_expect _).bind fun _ => (builds_expressionBefore hparse _).bind fun condition => ?_
  refine (builds_expect _).bind fun _ => (builds_expressionBefore hparse _).bind fun increment => ?_
  refine (builds_expect _).bind fun _ => (hparse _).bind fun body => builds_finish rfl fun id => ?_
  simp only [ShapeOf.children, List.count_append, List.count_nil]
  omega

theorem builds_defaultExport : Builds 1 1 [] (defaultExport parse) Option.toList := by
  refine builds_kind.bind fun k => ?_
  split
  · exact (builds_functionDeclaration hparse _).map fun _ => rfl
  · exact (builds_classLike hparse _ _).map fun _ => rfl
  · refine builds_startsAsyncFunction.bind fun b => ?_
    split
    · exact (builds_functionDeclaration hparse _).bind fun node => Builds.pure fun id => by simp
    · refine (hparse _).bind fun value => builds_semicolon.bind fun _ => ?_
      exact Builds.pure fun id => by simp

theorem builds_exportedDeclaration : Builds 1 1 [] (exportedDeclaration parse) Option.toList := by
  refine builds_kind.bind fun k => ?_
  split
  · exact (builds_variableStatement hparse).map fun _ => rfl
  · exact (builds_variableStatement hparse).map fun _ => rfl
  · exact (builds_variableStatement hparse).map fun _ => rfl
  · exact (builds_functionDeclaration hparse _).map fun _ => rfl
  · exact (builds_classLike hparse _ _).map fun _ => rfl
  · refine builds_startsAsyncFunction.bind fun b => ?_
    split
    · exact (builds_functionDeclaration hparse _).bind fun node => Builds.pure fun id => by simp
    · exact (builds_complain _).bind fun _ => Builds.pure fun _ => Nat.le_refl _

theorem builds_exportStatement : Builds 1 1 [] (exportStatement parse) fun id => [id] := by
  refine builds_position.bind fun start => (builds_expect _).bind fun _ => ?_
  refine (builds_accept _).bind fun b => ?_
  split
  · refine (builds_defaultExport hparse).bind fun exported => builds_finish rfl fun id => ?_
    simp [ShapeOf.children]
  · refine (builds_exportedDeclaration hparse).bind fun declaration => builds_finish rfl fun id => ?_
    simp [ShapeOf.children]

theorem builds_statement : Builds 1 0 [] (statement parse) Option.toList := by
  have hnode : ∀ {p : Parser NodeId}, Builds 1 1 [] p (fun id => [id]) →
      Builds 1 1 [] (some <$> p) Option.toList :=
    fun hp => hp.map fun _ => rfl
  refine Builds.nested (builds_kind.bind fun k => ?_)
  split
  · exact builds_block hparse
  · exact hnode builds_emptyStatement
  · exact hnode (builds_variableStatement hparse)
  · exact hnode (builds_variableStatement hparse)
  · exact hnode (builds_functionDeclaration hparse _)
  · exact hnode (builds_classLike hparse _ _)
  · exact hnode (builds_ifStatement hparse)
  · exact hnode (builds_whileStatement hparse)
  · exact hnode (builds_forStatement hparse)
  · exact hnode (builds_returnStatement hparse)
  · exact hnode (builds_throwStatement hparse)
  · exact hnode (builds_exportStatement hparse)
  · refine builds_startsLetDeclaration.bind fun b => ?_
    split
    · exact (builds_variableStatement hparse).bind fun node => Builds.pure fun id => by simp
    · refine builds_startsAsyncFunction.bind fun b => ?_
      split
      · exact (builds_functionDeclaration hparse _).bind fun node => Builds.pure fun id => by simp
      · exact builds_expressionStatement hparse

end

/-! ### All rules -/

/-- How much the nesting in the nodes of a rule may exceed the room. It does not in those of the rules
that are always entered as nested ones. -/
def Rule.excess : Rule → Nat
  | .statement | .assignment | .construction => 0
  | _ => 1

theorem Rule.excess_le_one (rule : Rule) : rule.excess ≤ 1 := by
  cases rule <;> simp [excess]

section

variable {parse : Rule → Parser Slot}
  (hparse : ∀ rule : Rule, Builds 1 rule.excess [] (parse rule) Option.toList)

include hparse

theorem builds_body (rule : Rule) : Builds 1 rule.excess [] (body parse rule) Option.toList := by
  have hassignment : Builds 0 0 [] (parse .assignment) Option.toList := (hparse .assignment).of_nil
  replace hparse : ∀ rule, Builds 1 1 [] (parse rule) Option.toList := fun rule =>
    (hparse rule).relax rule.excess_le_one
  cases rule with
  | statement => exact builds_statement hparse
  | assignment => exact builds_assignmentExpression hparse
  | binary above => exact builds_binaryExpression hparse above
  | unary => exact builds_unaryExpression hparse
  | leftHandSide => exact builds_leftHandSideExpression hparse hassignment
  | construction => exact builds_construction hparse hassignment
  | bindingName => exact (builds_bindingName hparse).map fun _ => rfl

theorem builds_scriptStatements : Builds 0 0 [] (scriptStatements parse) id := by
  refine Builds.collect (builds_kind.bind fun k => ?_)
  split
  · exact Builds.pure fun _ => Nat.le_refl _
  · refine (builds_complain _).bind fun _ => builds_advance.bind fun _ => ?_
    exact Builds.pure fun _ => Nat.le_refl _
  · have hstatement : Builds 0 0 [] (parse .statement) Option.toList := (hparse .statement).of_nil
    exact (builds_listedStatement hstatement).bind fun statement => Builds.pure fun id => by simp

end

/-- The rules tie the knot: the rule with a number of references left uses those with fewer. -/
theorem builds_parseWithin (limit : Nat) (rule : Rule) :
    Builds 1 rule.excess [] (parseWithin limit rule) Option.toList := by
  induction limit generalizing rule with
  | zero =>
    have hmissing : Builds 0 0 [] (parseWithin 0 rule) Option.toList :=
      (builds_complain _).bind fun _ => Builds.cutOff fun _ => Nat.le_refl _
    exact hmissing.of_nil.relax (Nat.zero_le _)
  | succ limit ih => exact builds_body ih rule

end FunctionNaming.Grammar

namespace FunctionNaming.Script

/-- Whatever the source text is, the statements that are read from it are free, and the nesting in
none of them exceeds the limit. -/
theorem holds_readStatements (tokens : List Token) :
    (readStatements tokens).2.Holds 0 (readStatements tokens).1 [] :=
  Grammar.builds_scriptStatements (Grammar.builds_parseWithin _) (.start tokens) []
    ⟨Forest.linked_empty, nofun⟩

/-- The root stands above the statements, and there is nothing else. -/
theorem holds_root (file source : String) :
    ((readStatements (TokenStream.ofSource source.toList).tokens.toList).2.add 0 source.utf8ByteSize
        (.script (readStatements (TokenStream.ofSource source.toList).tokens.toList).1 file)).Holds 0
      [(Script.parse file source).root] [] := by
  rw [parse_root]
  exact (holds_readStatements _).add (fun _ => Nat.le_refl _) 0 source.utf8ByteSize

/-- Whatever the source text is, what is read from it is a tree. -/
theorem linked_parse (file source : String) :
    (Script.parse file source).forest.Linked [(Script.parse file source).root] := by
  rw [parse_forest]
  exact (holds_root file source).linked

theorem nestsWithin_parse (file source : String) :
    (Script.parse file source).forest.NestsWithin Grammar.maxNesting
      (Script.parse file source).root := by
  rw [parse_forest]
  exact ((holds_root file source).nests _ List.mem_cons_self).mono (Nat.sub_le _ _)

/-- Whatever the source text is, no way down from the root passes more than `maxNesting` blocks,
parentheses and operators before their operand, even if all of these are counted together. -/
theorem nesting_parse_le {file source : String} {ids : List NodeId}
    (h : (Script.parse file source).forest.IsWayDown ((Script.parse file source).root :: ids)) :
    (((Script.parse file source).root :: ids).map (Script.parse file source).forest.nestingAt).sum ≤
      Grammar.maxNesting :=
  (nestsWithin_parse file source).sum_le h

/-- A block, parentheses and an operator on one way down. -/
theorem nesting_parse_le_block :
    (Script.parse "a.js" "{(!a)}").forest.IsWayDown
        ((Script.parse "a.js" "{(!a)}").root :: [4, 3, 2, 1, 0]) ∧
      (((Script.parse "a.js" "{(!a)}").root :: [4, 3, 2, 1, 0]).map
        (Script.parse "a.js" "{(!a)}").forest.nestingAt).sum ≤ Grammar.maxNesting :=
  have hdown : (Script.parse "a.js" "{(!a)}").forest.IsWayDown
      ((Script.parse "a.js" "{(!a)}").root :: [4, 3, 2, 1, 0]) := by decide +kernel
  ⟨hdown, nesting_parse_le hdown⟩

end FunctionNaming.Script
