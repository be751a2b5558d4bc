import FunctionNaming.Proofs.Syntax.Everywhere

/-!
Which expressions stand beside which operators without parentheses. Operands are read by rules that
do not read a looser operator, so what stands beside a binary operator is held together by operators
that bind no more loosely, on its right by such that bind more tightly; what stands beside an operator
with one operand, and what is accessed, called or constructed, is held together by no such operator
at all. Printing adds no parentheses, so this is what lets a script be read again as it was.
-/

namespace FunctionNaming

/-- Assignment has no precedence among the binary operators, and is not a comma. -/
theorem TokenKind.ne_comma_of_isAssignment {k : TokenKind} (h : k.isAssignment = true) :
    k.precedence? = none ∧ k ≠ .comma := by
  cases k <;> first | exact ⟨rfl, TokenKind.noConfusion⟩ | cases h

namespace ShapeOf

variable {ν : Type}

/-- Whether the shape is an expression that falls apart beside an operator: a binary operator, a
comma or an assignment with its operands, a choice, an arrow function, or the word `yield` with what
it hands over. -/
def isLoose : ShapeOf ν → Bool
  | binary .. | conditional .. | yieldExpression .. | function .arrow _ => true
  | _ => false

/-- Whether the shape is not torn apart by a binary operator beside it that binds as tightly as
`precedence`: it is not loose, or its own operator binds at least as tightly. Commas and assignments
have no precedence, so no binary operator leaves them whole. -/
def bindsAt (precedence : Nat) : ShapeOf ν → Bool
  | binary _ operator _ => operator.precedence?.any (precedence ≤ ·)
  | shape => !shape.isLoose

/-- Whether the shape is two expressions joined by a comma. -/
def isComma : ShapeOf ν → Bool
  | binary _ operator _ => operator == .comma
  | _ => false

/-- Whether the shape is a call. -/
def isCall : ShapeOf ν → Bool
  | call .. => true
  | _ => false

/-- The place of what an operator with one operand is applied to, or of what is accessed, called or
constructed. -/
def base? : ShapeOf ν → Option (Option ν)
  | prefixed _ operand | postfixed _ operand => some operand
  | propertyAccess object _ | elementAccess object _ => some object
  | call callee _ | new callee _ => some callee
  | _ => none

/-- What an access takes a member of. -/
def object? : ShapeOf ν → Option ν
  | propertyAccess object _ | elementAccess object _ => object
  | _ => none

theorem bindsAt_of_isLoose_eq_false {shape : ShapeOf ν} (h : shape.isLoose = false)
    (precedence : Nat) : shape.bindsAt precedence = true := by
  cases shape with
  | function role parts => simp [bindsAt, h]
  | _ => first | rfl | cases h

theorem isComma_eq_false_of_bindsAt {shape : ShapeOf ν} {precedence : Nat}
    (h : shape.bindsAt precedence = true) : shape.isComma = false := by
  cases shape with
  | binary left operator right =>
    cases operator <;> first | rfl | cases h
  | _ => rfl

section

variable {α β : Type} {g : α → Option β} {shape : ShapeOf α} {shape' : ShapeOf β}

theorem isLoose_of_replace? (h : shape.replace? g = some shape') :
    shape'.isLoose = shape.isLoose := by
  refine eq_of_replace? isLoose (fun f shape => ?_) h
  cases shape with
  | function role parts => cases role <;> rfl
  | _ => rfl

theorem bindsAt_of_replace? (h : shape.replace? g = some shape') (precedence : Nat) :
    shape'.bindsAt precedence = shape.bindsAt precedence := by
  refine eq_of_replace? (bindsAt precedence) (fun f shape => ?_) h
  cases shape with
  | function role parts => cases role <;> rfl
  | _ => rfl

theorem isComma_of_replace? (h : shape.replace? g = some shape') :
    shape'.isComma = shape.isComma :=
  eq_of_replace? isComma (fun _ shape => by cases shape <;> rfl) h

theorem isCall_of_replace? (h : shape.replace? g = some shape') : shape'.isCall = shape.isCall :=
  eq_of_replace? isCall (fun _ shape => by cases shape <;> rfl) h

theorem mapM_object? (h : shape.replace? g = some shape') :
    shape.object?.mapM g = some shape'.object? :=
  optionMapM_of_replace? object? (fun _ shape => by cases shape <;> rfl) h

theorem mapM_base? {slot : Option α} (h : shape.replace? g = some shape')
    (hslot : shape.base? = some slot) :
    ∃ slot', shape'.base? = some slot' ∧ slot.mapM g = some slot' := by
  cases shape <;> simp only [replace?.eq_def, Option.bind_eq_bind, Option.bind_eq_some_iff,
    Option.pure_def, Option.some.injEq] at h <;> grind -linarith [base?]

end

end ShapeOf

namespace SyntaxTree

def isLoose : SyntaxTree → Bool
  | node shape => shape.isLoose

def bindsAt (precedence : Nat) : SyntaxTree → Bool
  | node shape => shape.bindsAt precedence

def isComma : SyntaxTree → Bool
  | node shape => shape.isComma

/-- That neither the tree nor anything that it accesses a member of is a call. -/
inductive Uncalled : SyntaxTree → Prop
  | node {shape : ShapeOf SyntaxTree} : shape.isCall = false →
      (∀ tree, shape.object? = some tree → Uncalled tree) → Uncalled (.node shape)

@[simp] theorem uncalled_node_iff {shape : ShapeOf SyntaxTree} :
    Uncalled (.node shape) ↔
      shape.isCall = false ∧ ∀ tree, shape.object? = some tree → Uncalled tree := by
  constructor
  · rintro ⟨hshape, hobject⟩
    exact ⟨hshape, hobject⟩
  · rintro ⟨hshape, hobject⟩
    exact .node hshape hobject

/-- What a shape asks of the expressions beside its operator. -/
def HoldsOperands : ShapeOf SyntaxTree → Prop
  | .binary left operator right =>
    (∀ p, operator.precedence? = some p →
      (∃ tree, left = some tree ∧ tree.bindsAt p = true) ∧
        ∃ tree, right = some tree ∧ tree.bindsAt (p + 1) = true) ∧
      (operator = .comma → ∃ tree, right = some tree ∧ tree.isComma = false)
  | .prefixed _ part | .postfixed _ part | .propertyAccess part _ | .elementAccess part _
  | .call part _ => ∃ tree, part = some tree ∧ tree.isLoose = false
  | .new callee _ => ∃ tree, callee = some tree ∧ tree.isLoose = false ∧ tree.Uncalled
  | _ => True

theorem HoldsOperands.base {shape : ShapeOf SyntaxTree} {slot : Option SyntaxTree}
    (h : HoldsOperands shape) (hslot : shape.base? = some slot) :
    ∃ tree, slot = some tree ∧ tree.isLoose = false := by
  cases shape <;> cases hslot
  case new =>
    obtain ⟨tree, htree, htight, -⟩ := h
    exact ⟨tree, htree, htight⟩
  all_goals exact h

/-- That every shape in a tree has beside its operator what it asks for. -/
abbrev RespectsOperators : SyntaxTree → Prop := Everywhere HoldsOperands

end SyntaxTree

namespace Grammar

variable {c : Category} {Γ : Context} {d above p : Nat} {T rest : List Token}
  {ts : List SyntaxTree} {tree : SyntaxTree}

/-! ### What the rules for operands read -/

/-- Whether the phrases of the category hold together beside any operator. -/
def Category.isTight : Category → Bool
  | .word | .name | .literal | .objectLiteral | .function .expression _ | .classLike .. | .primary
  | .chain _ | .leftHandSide | .construction | .unary => true
  | _ => false

/-- Whether the phrases of the category are neither calls nor accesses to what a call gives. -/
def Category.isUncalled : Category → Bool
  | .word | .name | .literal | .objectLiteral | .function .expression _ | .classLike .. | .primary
  | .chain false | .construction => true
  | _ => false

/-- A word that is an expression by itself has no operands. -/
theorem of_keywordShape? {k : TokenKind} {shape : ShapeOf SyntaxTree}
    (h : keywordShape? k = some shape) :
    shape.isLoose = false ∧ SyntaxTree.Uncalled (.node shape) ∧
      SyntaxTree.RespectsOperators (.node shape) := by
  cases k <;> cases h <;>
    exact ⟨rfl, .node rfl nofun, .node trivial nofun⟩

theorem Derives.isLoose_eq_false (h : Derives c Γ d T ts rest) (hc : c.isTight = true) :
    ∀ tree ∈ ts, tree.isLoose = false := by
  induction h with
  | primaryKeyword hk => simpa [SyntaxTree.isLoose] using (of_keywordShape? hk).1
  | function =>
    cases ‹FunctionRole› <;> cases hc
    simp [SyntaxTree.isLoose, ShapeOf.isLoose]
  | _ => simp_all [Category.isTight, SyntaxTree.isLoose, ShapeOf.isLoose]

theorem Derives.uncalled (h : Derives c Γ d T ts rest) (hc : c.isUncalled = true) :
    ∀ tree ∈ ts, tree.Uncalled := by
  induction h with
  | primaryKeyword hk => simpa using (of_keywordShape? hk).2.1
  | function =>
    cases ‹FunctionRole› <;> cases hc
    simp [ShapeOf.isCall, ShapeOf.object?]
  | chainFirst | chainNew | propertyAccess | elementAccess =>
    cases ‹Bool› <;> simp_all [Category.isUncalled, ShapeOf.isCall, ShapeOf.object?]
  | _ => simp_all [Category.isUncalled, ShapeOf.isCall, ShapeOf.object?]

/-! ### What the rules for binary operators read -/

theorem bindsAt_of_isLoose_eq_false (h : tree.isLoose = false) (p : Nat) :
    tree.bindsAt p = true := by
  cases tree with
  | node shape => exact ShapeOf.bindsAt_of_isLoose_eq_false h p

theorem stopsOperands_eq_false_iff {k : TokenKind} (hk : k.precedence? = some p) :
    stopsOperands Γ above k = false ↔ above < p ∧ ¬(k = .inKeyword ∧ Γ.inForHead = true) := by
  simp [stopsOperands, hk]

/-- Operands joined by operators that bind more tightly than `above`. -/
theorem Derives.bindsAt_of_operands (h : Derives (.operands above) Γ d T [tree] rest) :
    tree.bindsAt (above + 1) = true := by
  cases h with
  | operandsFirst hunary =>
    exact bindsAt_of_isLoose_eq_false (hunary.isLoose_eq_false rfl tree List.mem_cons_self) _
  | operandsNext _ hp hgoes _ =>
    have habove := ((stopsOperands_eq_false_iff hp).1 (Bool.eq_false_iff.2 hgoes)).1
    simp only [SyntaxTree.bindsAt, ShapeOf.bindsAt, hp, Option.any_some, decide_eq_true_eq]
    exact habove

/-- Operands that an operator follows with which they go on: the last of them was left at that
operator, so the operator before it binds no more loosely. -/
theorem Derives.bindsAt_of_goesOn (h : Derives (.operands above) Γ d T [tree] rest)
    (hp : (kindOf rest).precedence? = some p) (hgoes : ¬stopsOperands Γ above (kindOf rest)) :
    tree.bindsAt p = true := by
  cases h with
  | operandsFirst hunary =>
    exact bindsAt_of_isLoose_eq_false (hunary.isLoose_eq_false rfl tree List.mem_cons_self) _
  | operandsNext _ hq _ hright =>
    cases hright with
    | binary _ hstops =>
      have hin := ((stopsOperands_eq_false_iff hp).1 (Bool.eq_false_iff.2 hgoes)).2
      simp only [SyntaxTree.bindsAt, ShapeOf.bindsAt, hq, Option.any_some, decide_eq_true_eq]
      by_contra hlt
      have hgoes' := (stopsOperands_eq_false_iff hp).2 ⟨Nat.lt_of_not_le hlt, hin⟩
      exact Bool.false_ne_true (hgoes'.symm.trans hstops)

theorem Derives.bindsAt_of_binary (h : Derives (.binary above) Γ d T [tree] rest) :
    tree.bindsAt (above + 1) = true := by
  cases h with
  | binary hoperands _ => exact hoperands.bindsAt_of_operands

/-- Nothing but the rule for commas joins expressions by a comma. -/
theorem Derives.isComma_eq_false (h : Derives .assignment Γ d T [tree] rest) :
    tree.isComma = false := by
  have hconditional : ∀ {d rest}, Derives .conditional Γ d T [tree] rest → tree.isComma = false := by
    intro d rest h
    cases h with
    | noCondition hbinary =>
      cases tree with
      | node shape => exact ShapeOf.isComma_eq_false_of_bindsAt hbinary.bindsAt_of_binary
    | conditional => rfl
  cases h with
  | assignmentYield _ _ hyield => cases hyield <;> rfl
  | assignmentArrow _ _ harrow =>
    cases harrow
    rfl
  | noAssignment _ _ h _ => exact hconditional h
  | assignment _ _ _ ho _ => exact beq_eq_false_iff_ne.2 (TokenKind.ne_comma_of_isAssignment ho).2

/-! ### All phrases -/

/-- What is derived respects its operators: what stands beside an operator was read by a rule that
reads nothing looser. -/
theorem Derives.everywhere_holdsOperands (h : Derives c Γ d T ts rest) :
    ∀ tree ∈ ts, tree.RespectsOperators := by
  -- The parts that operators and accesses are about are phrases of one tree.
  have htight : ∀ {c Γ d T rest tree}, Derives c Γ d T [tree] rest → c.isTight = true →
      tree.isLoose = false := fun h hc => h.isLoose_eq_false hc _ List.mem_cons_self
  induction h with
  | primaryKeyword hk => simpa using (of_keywordShape? hk).2.2
  | sequenceNext _ _ hright ihl ihr =>
    have hcomma := hright.isComma_eq_false
    simp_all [SyntaxTree.HoldsOperands, ShapeOf.children, TokenKind.precedence?]
  | @assignment _ _ _ _ o _ _ _ _ _ _ ho _ ihl ihr =>
    have hnone := TokenKind.ne_comma_of_isAssignment ho
    simp_all [SyntaxTree.HoldsOperands, ShapeOf.children]
  | @operandsNext _ _ _ _ _ o _ _ _ _ hleft hp hgoes hright ihl ihr =>
    have hl := hleft.bindsAt_of_goesOn hp hgoes
    have hr := hright.bindsAt_of_binary
    have hcomma : o.kind ≠ .comma := by
      intro hk
      rw [hk] at hp
      cases hp
    simp_all [SyntaxTree.HoldsOperands, ShapeOf.children]
  | prefixed _ _ hoperand ih =>
    simpa [SyntaxTree.HoldsOperands, ShapeOf.children, htight hoperand rfl] using ih
  | postfixed hoperand _ _ ih =>
    simpa [SyntaxTree.HoldsOperands, ShapeOf.children, htight hoperand rfl] using ih
  | propertyAccess hobject _ _ iho ihn =>
    simp_all [SyntaxTree.HoldsOperands, ShapeOf.children, htight hobject rfl]
  | elementAccess hobject _ _ _ iho iha =>
    simp_all [SyntaxTree.HoldsOperands, ShapeOf.children, htight hobject rfl]
  | call hcallee _ ihc iha =>
    simp_all [SyntaxTree.HoldsOperands, ShapeOf.children, htight hcallee rfl]
  | new _ _ hcallee _ _ _ ih =>
    have huncalled := hcallee.uncalled rfl
    simp_all [SyntaxTree.HoldsOperands, ShapeOf.children, htight hcallee rfl]
  | newCall _ _ hcallee _ ihc iha =>
    have huncalled := hcallee.uncalled rfl
    simp_all [SyntaxTree.HoldsOperands, ShapeOf.children, htight hcallee rfl]
  | _ =>
    -- No operator is read: the trees are those of a part, or stand around those of the parts.
    try assumption
    all_goals
      simp only [SyntaxTree.everywhere_node_iff, SyntaxTree.HoldsOperands, ShapeOf.children,
        List.not_mem_nil, List.mem_cons, List.mem_append, Option.mem_toList, Option.toList_some,
        Option.toList_none, forall_eq_or_imp, forall_eq, false_implies, or_false, implies_true,
        and_true, true_and] at *
      try grind -linarith [List.mem_of_mem_head?]

end Grammar

namespace Forest

/-- That `m` is what is reached from `n` when members are no longer accessed, or on the way there. -/
inductive Spine (f : Forest) : NodeId → NodeId → Prop
  | self {n : NodeId} : Spine f n n
  | object {n object m : NodeId} {shape : Shape} : f.shape? n = some shape →
      shape.object? = some object → Spine f object m → Spine f n m

/-- That below a root expressions stand where they hold together without parentheses. -/
structure RespectsOperators (f : Forest) (root : NodeId) : Prop where
  /-- What stands to the left of a binary operator binds as tightly or more so. -/
  left : ∀ {n p : Nat} {left right : Slot} {operator : TokenKind}, f.Contains root n →
    f.shape? n = some (.binary left operator right) → operator.precedence? = some p →
    ∃ m shape, left = some m ∧ f.shape? m = some shape ∧ shape.bindsAt p = true
  /-- What stands to the right of a binary operator binds more tightly. -/
  right : ∀ {n p : Nat} {left right : Slot} {operator : TokenKind}, f.Contains root n →
    f.shape? n = some (.binary left operator right) → operator.precedence? = some p →
    ∃ m shape, right = some m ∧ f.shape? m = some shape ∧ shape.bindsAt (p + 1) = true
  /-- Commas are taken from the left. -/
  comma : ∀ {n : NodeId} {left right : Slot}, f.Contains root n →
    f.shape? n = some (.binary left .comma right) →
    ∃ m shape, right = some m ∧ f.shape? m = some shape ∧ shape.isComma = false
  /-- Operators with one operand, accesses, calls and `new` bind most tightly. -/
  base : ∀ {n : NodeId} {shape : Shape} {slot : Slot}, f.Contains root n →
    f.shape? n = some shape → shape.base? = some slot →
    ∃ m shape', slot = some m ∧ f.shape? m = some shape' ∧ shape'.isLoose = false
  /-- What `new` constructs is accessed without calls. -/
  callee : ∀ {n m : NodeId} {callee : Slot} {arguments : Option (List NodeId)} {shape : Shape},
    f.Contains root n → f.shape? n = some (.new callee arguments) →
    (∃ c, callee = some c ∧ f.Spine c m) → f.shape? m = some shape → shape.isCall = false

/-- Along the way from a tree without calls there are none. -/
theorem Spine.isCall_eq_false {f : Forest} {limit : Nat} {n m : NodeId} {tree : SyntaxTree}
    {shape : Shape} (hm : f.Spine n m) (htree : f.treeWithin limit n = some tree)
    (h : tree.Uncalled) (hshape : f.shape? m = some shape) : shape.isCall = false := by
  induction hm generalizing limit tree with
  | self =>
    obtain ⟨_, shape', _, hshape', hreplace, rfl⟩ := exists_shape?_of_treeWithin htree
    obtain rfl := Option.some.inj (hshape.symm.trans hshape')
    rw [← ShapeOf.isCall_of_replace? hreplace]
    exact (SyntaxTree.uncalled_node_iff.1 h).1
  | object hn hobject _ ih =>
    obtain ⟨limit, shape', _, hn', hreplace, rfl⟩ := exists_shape?_of_treeWithin htree
    obtain rfl := Option.some.inj (hn.symm.trans hn')
    have hpart := ShapeOf.mapM_object? hreplace
    rw [hobject] at hpart
    obtain ⟨part, hread, hpart⟩ := Option.map_eq_some_iff.1 hpart
    exact ih hread ((SyntaxTree.uncalled_node_iff.1 h).2 part hpart.symm) hshape

theorem respectsOperators_of_treeWithin {f : Forest} {limit : Nat} {root : NodeId}
    {tree : SyntaxTree} (htree : f.treeWithin limit root = some tree)
    (h : tree.RespectsOperators) : f.RespectsOperators root := by
  have hbelow : ∀ {n : NodeId} {shape : Shape}, f.Contains root n → f.shape? n = some shape →
      ∃ limit shape', shape.replace? (f.treeWithin limit) = some shape' ∧
        SyntaxTree.HoldsOperands shape' :=
    fun hn hshape => hn.exists_replace?_of_everywhere htree h hshape
  -- A binary operator in the forest, with the trees of its operands.
  have hbinary : ∀ {n : NodeId} {left right : Slot} {operator : TokenKind}, f.Contains root n →
      f.shape? n = some (.binary left operator right) →
      ∃ limit left' right', left.mapM (f.treeWithin limit) = some left' ∧
        right.mapM (f.treeWithin limit) = some right' ∧
        SyntaxTree.HoldsOperands (.binary left' operator right') := by
    intro n left right operator hn hshape
    obtain ⟨limit, shape', hreplace, hholds⟩ := hbelow hn hshape
    simp only [ShapeOf.replace?, Option.bind_eq_bind, Option.bind_eq_some_iff, Option.pure_def,
      Option.some.injEq] at hreplace
    obtain ⟨left', hleft, right', hright, rfl⟩ := hreplace
    exact ⟨limit, left', right', hleft, hright, hholds⟩
  constructor
  case left =>
    intro n p left right operator hn hshape hp
    obtain ⟨limit, left', right', hleft, -, hholds⟩ := hbinary hn hshape
    obtain ⟨tree, rfl, hbinds⟩ := (hholds.1 p hp).1
    obtain ⟨m, shape, shape', _, rfl, -, hm, hreplace, rfl⟩ := exists_shape?_of_mapM hleft
    exact ⟨m, shape, rfl, hm, (ShapeOf.bindsAt_of_replace? hreplace p).symm.trans hbinds⟩
  case right =>
    intro n p left right operator hn hshape hp
    obtain ⟨limit, left', right', -, hright, hholds⟩ := hbinary hn hshape
    obtain ⟨tree, rfl, hbinds⟩ := (hholds.1 p hp).2
    obtain ⟨m, shape, shape', _, rfl, -, hm, hreplace, rfl⟩ := exists_shape?_of_mapM hright
    exact ⟨m, shape, rfl, hm, (ShapeOf.bindsAt_of_replace? hreplace (p + 1)).symm.trans hbinds⟩
  case comma =>
    intro n left right hn hshape
    obtain ⟨limit, left', right', -, hright, hholds⟩ := hbinary hn hshape
    obtain ⟨tree, rfl, hcomma⟩ := hholds.2 rfl
    obtain ⟨m, shape, shape', _, rfl, -, hm, hreplace, rfl⟩ := exists_shape?_of_mapM hright
    exact ⟨m, shape, rfl, hm, (ShapeOf.isComma_of_replace? hreplace).symm.trans hcomma⟩
  case base =>
    intro n shape slot hn hshape hslot
    obtain ⟨limit, shape', hreplace, hholds⟩ := hbelow hn hshape
    obtain ⟨slot', hslot', hread⟩ := ShapeOf.mapM_base? hreplace hslot
    obtain ⟨tree, rfl, htight⟩ := hholds.base hslot'
    obtain ⟨m, shape', _, _, rfl, -, hm, hreplace, rfl⟩ := exists_shape?_of_mapM hread
    exact ⟨m, shape', rfl, hm, (ShapeOf.isLoose_of_replace? hreplace).symm.trans htight⟩
  case callee =>
    rintro n m callee arguments shape hn hshape ⟨c, rfl, hspine⟩ hm
    obtain ⟨limit, shape', hreplace, hholds⟩ := hbelow hn hshape
    simp only [ShapeOf.replace?, Option.bind_eq_bind, Option.bind_eq_some_iff, Option.pure_def,
      Option.some.injEq] at hreplace
    obtain ⟨callee', hcallee, arguments', -, rfl⟩ := hreplace
    obtain ⟨tree, rfl, -, huncalled⟩ := hholds
    obtain ⟨_, _, _, _, ⟨⟩, hread, -⟩ := exists_shape?_of_mapM hcallee
    exact hspine.isCall_eq_false hread huncalled hm

end Forest

namespace Script

open Grammar

/-- In a script without diagnostics expressions stand where they hold together without parentheses:
operators of one precedence are taken from the left, tighter ones first, and parentheses stand around
whatever else is beside an operator. -/
theorem respectsOperators {file source : String}
    (h : (Script.parse file source).diagnostics = []) :
    (Script.parse file source).forest.RespectsOperators (Script.parse file source).root := by
  obtain ⟨ts, last, hderives, -, htree⟩ := exists_derives h
  exact Forest.respectsOperators_of_treeWithin htree (.node trivial hderives.everywhere_holdsOperands)

/-- Operators of four precedences, some of them in parentheses, a choice and a comma. -/
theorem respectsOperators_mixed :
    (Script.parse "test.js" "a = b - c * -d.e(f) - (g, h) in i ? new j.k(l) : m, n").diagnostics =
        [] ∧
      (Script.parse "test.js"
        "a = b - c * -d.e(f) - (g, h) in i ? new j.k(l) : m, n").forest.RespectsOperators
          (Script.parse "test.js"
            "a = b - c * -d.e(f) - (g, h) in i ? new j.k(l) : m, n").root := by
  have hclean :
      (Script.parse "test.js" "a = b - c * -d.e(f) - (g, h) in i ? new j.k(l) : m, n").diagnostics =
        [] := by
    decide +kernel
  exact ⟨hclean, respectsOperators hclean⟩

end Script

end FunctionNaming
