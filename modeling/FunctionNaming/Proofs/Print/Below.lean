import FunctionNaming.Print.Node
import FunctionNaming.Proofs.Syntax.Tree

/-!
What is printed for a node depends on what stands below it, and on nothing else in the forest. The
layout of a shape asks for the shapes and the layouts of its parts only. So whatever is kept when
layouts are put together holds of the layouts of a shape if it holds of those of its parts, and two
forests that agree on the nodes that can be reached from a node downwards give it the same text.
-/

namespace FunctionNaming

namespace Layout

/-- That layouts that are related stay so when they are put together. How they are related may depend
on a condition, which a part brings along to the whole. -/
structure IsCongruence (R : Prop → Layout → Layout → Prop) : Prop where
  refl : ∀ l, R False l l
  append : ∀ {P Q : Prop} {l l' m m' : Layout}, R P l l' → R Q m m' → R (P ∨ Q) (l ++ m) (l' ++ m')
  indented : ∀ {P : Prop} {l l' : Layout}, R P l l' → R P (indented l) (indented l')

section

variable {ν : Type} (R : Prop → Layout → Layout → Prop) (shape? shape?' : ν → Option (ShapeOf ν))
  (print print' : ν → Layout) (P : ν → Prop)

/-- That the layouts of the nodes in a list are related, and that the same of them are holes and
declarations. -/
def Relates (parts : List ν) : Prop :=
  ∀ part ∈ parts, isHole shape?' part = isHole shape? part ∧
    isDeclaration shape?' (some part) = isDeclaration shape? (some part) ∧
      R (P part) (print part) (print' part)

variable {R shape? shape?' print print' P}

theorem relates_append {parts parts' : List ν} :
    Relates R shape? shape?' print print' P (parts ++ parts') ↔
      Relates R shape? shape?' print print' P parts ∧
        Relates R shape? shape?' print print' P parts' :=
  List.forall_mem_append

namespace IsCongruence

variable {Q Q' : Prop} {l l' : Layout} {part : Option ν} {parts : List ν}

theorem of_iff (_ : IsCongruence R) (h : R Q l l') (hQ : Q ↔ Q') : R Q' l l' := propext hQ ▸ h

variable (hR : IsCongruence R)

include hR

theorem append_left (before : Layout) (h : R Q l l') : R Q (before ++ l) (before ++ l') :=
  hR.of_iff (hR.append (hR.refl before) h) (by simp)

theorem append_right (h : R Q l l') (after : Layout) : R Q (l ++ after) (l' ++ after) :=
  hR.of_iff (hR.append h (hR.refl after)) (by simp)

/-- What lays out nothing has no parts. -/
theorem nothing (l : Layout) : R (∃ p ∈ ([] : List ν), P p) l l :=
  hR.of_iff (hR.refl l) (by simp)

theorem only {p : ν} (h : R (P p) l l') : R (∃ q ∈ [p], P q) l l' := hR.of_iff h (by simp)

theorem slot (h : Relates R shape? shape?' print print' P part.toList) :
    R (∃ p ∈ part.toList, P p) (slot print part) (slot print' part) := by
  cases part with
  | none => exact hR.nothing _
  | some part => exact hR.only (h part List.mem_cons_self).2.2

theorem afterSpace (h : Relates R shape? shape?' print print' P part.toList) :
    R (∃ p ∈ part.toList, P p) (afterSpace print part) (afterSpace print' part) := by
  cases part with
  | none => exact hR.nothing _
  | some part => exact hR.only (hR.append_left _ (h part List.mem_cons_self).2.2)

theorem initializer (h : Relates R shape? shape?' print print' P part.toList) :
    R (∃ p ∈ part.toList, P p) (initializer print part) (initializer print' part) := by
  cases part with
  | none => exact hR.nothing _
  | some part => exact hR.only (hR.append_left _ (h part List.mem_cons_self).2.2)

theorem separated (h : Relates R shape? shape?' print print' P parts) :
    R (∃ p ∈ parts, P p) (separated (parts.map print)) (separated (parts.map print')) := by
  induction parts with
  | nil => exact hR.nothing _
  | cons part parts ih =>
    obtain ⟨⟨-, -, hpart⟩, hparts⟩ := List.forall_mem_cons.1 h
    cases parts with
    | nil => exact hR.only hpart
    | cons next parts =>
      have hrest := hR.append (hR.append_right (hR.append_right hpart (.text ",")) .space) (ih hparts)
      exact hR.of_iff hrest (by simp)

theorem commaList (h : Relates R shape? shape?' print print' P parts) :
    R (∃ p ∈ parts, P p) (commaList shape? print parts) (commaList shape?' print' parts) := by
  have hlast : parts.getLast?.any (isHole shape?') = parts.getLast?.any (isHole shape?) := by
    cases hpart : parts.getLast? with
    | none => rfl
    | some part => exact (h part (List.mem_of_getLast? hpart)).1
  rw [Layout.commaList, Layout.commaList, hlast]
  exact hR.append_right (hR.separated h) _

theorem lines (h : Relates R shape? shape?' print print' P parts) :
    R (∃ p ∈ parts, P p) (lines print parts) (lines print' parts) := by
  induction parts with
  | nil => exact hR.nothing _
  | cons part parts ih =>
    obtain ⟨⟨-, -, hpart⟩, hparts⟩ := List.forall_mem_cons.1 h
    exact hR.of_iff (hR.append (hR.append_right hpart .newline) (ih hparts)) (by simp)

theorem inParentheses (h : Relates R shape? shape?' print print' P parts) :
    R (∃ p ∈ parts, P p) (inParentheses shape? print parts) (inParentheses shape?' print' parts) :=
  hR.append_right (hR.append_left _ (hR.commaList h)) _

theorem inBrackets (h : Relates R shape? shape?' print print' P parts) :
    R (∃ p ∈ parts, P p) (inBrackets shape? print parts) (inBrackets shape?' print' parts) :=
  hR.append_right (hR.append_left _ (hR.commaList h)) _

theorem inBraces (h : Relates R shape? shape?' print print' P parts) :
    R (∃ p ∈ parts, P p) (inBraces shape? print parts) (inBraces shape?' print' parts) := by
  rw [Layout.inBraces, Layout.inBraces]
  split
  · next hempty =>
    obtain rfl := List.isEmpty_iff.1 hempty
    exact hR.nothing _
  · exact hR.append_right (hR.append_right (hR.append_left _ (hR.commaList h)) _) _

theorem blockOf (h : Relates R shape? shape?' print print' P parts) :
    R (∃ p ∈ parts, P p) (blockOf print parts) (blockOf print' parts) := by
  rw [Layout.blockOf, Layout.blockOf]
  split
  · next hempty =>
    obtain rfl := List.isEmpty_iff.1 hempty
    exact hR.nothing _
  · exact hR.append_right (hR.append_left _ (hR.indented (hR.lines h))) _

theorem head (word : String) (h : Relates R shape? shape?' print print' P part.toList) :
    R (∃ p ∈ part.toList, P p) (head print word part) (head print' word part) :=
  hR.append_right (hR.append_right (hR.append_left _ (hR.slot h)) _) _

theorem keywordStatement (word : String)
    (h : Relates R shape? shape?' print print' P part.toList) :
    R (∃ p ∈ part.toList, P p) (keywordStatement print word part)
      (keywordStatement print' word part) :=
  hR.append_right (hR.append_left _ (hR.afterSpace h)) _

/-- A function. The name of an arrow function is not laid out. -/
theorem function {role : FunctionRole} {parts : FunctionParts ν}
    (harrow : role = .arrow → ∀ name ∈ parts.name, ¬P name)
    (h : Relates R shape? shape?' print print' P (ShapeOf.function role parts).children) :
    R (∃ p ∈ (ShapeOf.function role parts).children, P p) (function shape? print role parts)
      (function shape?' print' role parts) := by
  simp only [ShapeOf.children, relates_append] at h
  obtain ⟨⟨hname, hparameters⟩, hbody⟩ := h
  have hlist := hR.inParentheses hparameters
  have hend := hR.slot hbody
  cases role with
  | arrow =>
    have hstart := hR.append_right (hR.append_left (.wordIf parts.isAsync "async") hlist) .space
    refine hR.of_iff (hR.append (hR.append_right (hR.append_right hstart (.text "=>")) .space) hend) ?_
    have hnone : ¬∃ name ∈ parts.name.toList, P name := by simpa using harrow rfl
    simp only [ShapeOf.children, List.mem_append, or_and_right, exists_or, hnone, false_or]
  | declaration | expression =>
    have hstart := hR.append_left
      (.wordIf parts.isAsync "async" ++ .text "function" ++ .markIf parts.isGenerator "*")
      (hR.afterSpace hname)
    refine hR.of_iff (hR.append (hR.append_right (hR.append hstart hlist) .space) hend) ?_
    simp only [ShapeOf.children, List.mem_append, or_and_right, exists_or]

/-- Shapes are related if their parts are. -/
theorem shape (quotes : QuoteStyle) {shape : ShapeOf ν}
    (harrow : ∀ parts, shape = .function .arrow parts → ∀ name ∈ parts.name, ¬P name)
    (h : Relates R shape? shape?' print print' P shape.children) :
    R (∃ p ∈ shape.children, P p) (Layout.shape shape? print quotes shape)
      (Layout.shape shape?' print' quotes shape) := by
  cases shape
  -- shapes with one sort of parts
  case script => exact hR.lines h
  case block => exact hR.blockOf h
  case arrayLiteral => exact hR.inBrackets h
  case objectLiteral => exact hR.inBraces h
  case pattern role elements =>
    cases role with
    | object => exact hR.inBraces h
    | array => exact hR.inBrackets h
  case shorthandProperty => exact hR.slot h
  case returnStatement | throwStatement => exact hR.keywordStatement _ h
  case variableStatement | expressionStatement | postfixed => exact hR.append_right (hR.slot h) _
  case variableList => exact hR.append_left _ (hR.commaList h)
  case exportDeclaration | spread | prefixed => exact hR.append_left _ (hR.slot h)
  case yieldExpression => exact hR.append_left _ (hR.afterSpace h)
  case parenthesized | computedName => exact hR.append_right (hR.append_left _ (hR.slot h)) _
  case exportDefault exported =>
    have hdeclaration : isDeclaration shape?' exported = isDeclaration shape? exported := by
      cases exported with
      | none => rfl
      | some part => exact (h part (by simp [ShapeOf.children])).2.1
    simp only [Layout.shape, hdeclaration]
    exact hR.append_right (hR.append_left _ (hR.slot h)) _
  case function role parts => exact hR.function (fun heq => harrow parts (by rw [heq])) h
  case new callee arguments =>
    obtain ⟨hcallee, harguments⟩ := relates_append.1 h
    have hstart := hR.append_left (.text "new" ++ .space) (hR.slot hcallee)
    cases arguments with
    | none => exact hR.of_iff (hR.append_right hstart .empty) (by simp [ShapeOf.children])
    | some ids =>
      refine hR.of_iff (hR.append hstart (hR.inParentheses harguments)) ?_
      simp only [ShapeOf.children, Option.getD_some, List.mem_append, or_and_right, exists_or]
  -- all other shapes have several sorts of parts, or none
  all_goals
    simp only [ShapeOf.children, relates_append] at h
    simp only [ShapeOf.children, List.mem_append, or_and_right, exists_or]
  case declarator => exact hR.append (hR.slot h.1) (hR.initializer h.2)
  case parameter =>
    exact hR.append (hR.append_left _ (hR.slot h.1)) (hR.initializer h.2)
  case classField =>
    exact hR.append_right (hR.append (hR.append_left _ (hR.slot h.1)) (hR.initializer h.2)) _
  case patternElement isRest property name value =>
    obtain ⟨⟨hproperty, hname⟩, hvalue⟩ := h
    refine hR.append (hR.append ?_ (hR.slot hname)) (hR.initializer hvalue)
    cases property with
    | none => exact hR.append_left _ (hR.nothing _)
    | some part =>
      have hpart := (hproperty part List.mem_cons_self).2.2
      exact hR.append_left _ (hR.only (hR.append_right (hR.append_right hpart _) _))
  case propertyAssignment =>
    exact hR.append (hR.append_right (hR.append_right (hR.slot h.1) _) _) (hR.slot h.2)
  case propertyAccess => exact hR.append (hR.append_right (hR.slot h.1) _) (hR.slot h.2)
  case elementAccess =>
    exact hR.append_right (hR.append (hR.append_right (hR.slot h.1) _) (hR.slot h.2)) _
  case call => exact hR.append (hR.slot h.1) (hR.inParentheses h.2)
  case binary =>
    refine hR.append ?_ (hR.slot h.2)
    exact hR.append_right (hR.append_right (hR.append_right (hR.slot h.1) _) _) _
  case conditional =>
    refine hR.append (hR.append_right (hR.append_right (hR.append_right ?_ _) _) _) (hR.slot h.2)
    refine hR.append ?_ (hR.slot h.1.2)
    exact hR.append_right (hR.append_right (hR.append_right (hR.slot h.1.1) _) _) _
  case classConstructor =>
    exact hR.append (hR.append_right (hR.append_left _ (hR.inParentheses h.1)) _) (hR.slot h.2)
  case method | accessor =>
    refine hR.append (hR.append_right ?_ _) (hR.slot h.2)
    exact hR.append (hR.append_left _ (hR.slot h.1.1)) (hR.inParentheses h.1.2)
  case whileStatement => exact hR.append (hR.head _ h.1) (hR.slot h.2)
  case ifStatement condition consequent alternative =>
    obtain ⟨⟨hcondition, hconsequent⟩, halternative⟩ := h
    refine hR.append (hR.append (hR.head _ hcondition) (hR.slot hconsequent)) ?_
    cases alternative with
    | none => exact hR.nothing _
    | some part => exact hR.only (hR.append_left _ (halternative part List.mem_cons_self).2.2)
  case classLike role name heritage members =>
    obtain ⟨⟨hname, hheritage⟩, hmembers⟩ := h
    refine hR.append (hR.append_right (hR.append (hR.append_left _ (hR.afterSpace hname)) ?_) _)
      (hR.blockOf hmembers)
    cases heritage with
    | none => exact hR.nothing _
    | some part => exact hR.only (hR.append_left _ (hheritage part List.mem_cons_self).2.2)
  case forStatement =>
    refine hR.append (hR.append_right (hR.append_right ?_ _) _) (hR.slot h.2)
    refine hR.append (hR.append_right (hR.append ?_ (hR.afterSpace h.1.1.2)) _) (hR.afterSpace h.1.2)
    exact hR.append_right (hR.append_left _ (hR.slot h.1.1.1)) _
  all_goals exact hR.nothing _

end IsCongruence

/-- Equality is a congruence, whatever the condition. -/
theorem isCongruence_eq : IsCongruence fun _ l l' => l' = l where
  refl _ := rfl
  append := by
    rintro P Q l l' m m' rfl rfl
    rfl
  indented := by
    rintro P l l' rfl
    rfl

/-- The layout of a shape asks for its parts only. -/
theorem shape_congr (quotes : QuoteStyle) {shape : ShapeOf ν}
    (h : ∀ part ∈ shape.children, shape?' part = shape? part ∧ print' part = print part) :
    Layout.shape shape?' print' quotes shape = Layout.shape shape? print quotes shape := by
  refine isCongruence_eq.shape quotes (P := fun _ => False) (fun _ _ _ _ => id) fun part hpart => ?_
  obtain ⟨hshape, hprint⟩ := h part hpart
  simp only [isHole, isDeclaration, Option.bind_some, hshape, hprint, and_self]

end

end Layout

namespace Forest

/-- Two forests that agree on a set of nodes lay out its members alike, if the set holds the parts of
its members. Every part has to have a smaller rank, so that limits beyond the rank do not matter. -/
theorem layoutWithin_congr {f g : Forest} (quotes : QuoteStyle) {inside : NodeId → Prop}
    {rank : NodeId → Nat} (hshape : ∀ n, inside n → g.shape? n = f.shape? n)
    (hpart : ∀ n, inside n → ∀ child ∈ f.children n, inside child ∧ rank child < rank n)
    {limit limit' : Nat} {id : NodeId} (hid : inside id) (hlimit : rank id < limit)
    (hlimit' : rank id < limit') :
    g.layoutWithin quotes limit' id = f.layoutWithin quotes limit id := by
  induction limit generalizing limit' id with
  | zero => exact absurd hlimit (Nat.not_lt_zero _)
  | succ limit ih =>
    obtain ⟨limit', rfl⟩ := Nat.exists_eq_add_one.2 (Nat.zero_lt_of_lt hlimit')
    rw [layoutWithin, layoutWithin, hshape id hid]
    cases hnode : f.shape? id with
    | none => rfl
    | some shape =>
      refine Layout.shape_congr quotes fun child hchild => ?_
      obtain ⟨hinside, hrank⟩ := hpart id hid child (mem_children_iff.2 ⟨shape, hnode, hchild⟩)
      have hlt : rank child < limit := Nat.lt_of_lt_of_le hrank (Nat.le_of_lt_succ hlimit)
      have hlt' : rank child < limit' := Nat.lt_of_lt_of_le hrank (Nat.le_of_lt_succ hlimit')
      exact ⟨hshape child hinside, ih hinside hlt hlt'⟩

end Forest

end FunctionNaming
