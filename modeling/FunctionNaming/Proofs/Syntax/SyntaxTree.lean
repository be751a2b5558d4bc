import Mathlib.Order.Filter.AtTopBot.Basic
import FunctionNaming.Proofs.Syntax.Forest

/-!
Syntax trees: what is left of a forest below a node when places, numbers and parents are forgotten.
Two nodes of two forests stand for the same syntax if the same tree is read from both.

A tree is read from a forest with a limit on its height. What is read with one limit is read with all
larger ones, so what can be read at all is what is read with every limit that is large enough.
-/

namespace FunctionNaming

open Filter (atTop)

/-- A shape whose parts are syntax trees. -/
inductive SyntaxTree where
  | node (shape : ShapeOf SyntaxTree)

/-! ### Replacing the parts of a shape -/

namespace ShapeOf

variable {α β : Type} (g : α → Option β)

/-- The shape in which `g` replaces each part, if it replaces all of them. -/
def replace? : ShapeOf α → Option (ShapeOf β)
  | script statements file => do return script (← statements.mapM g) file
  | variableStatement list => do return variableStatement (← list.mapM g)
  | variableList keyword declarators => do return variableList keyword (← declarators.mapM g)
  | declarator name initializer => do return declarator (← name.mapM g) (← initializer.mapM g)
  | function role ⟨isAsync, isGenerator, name, parameters, body⟩ => do
    return function role
      ⟨isAsync, isGenerator, ← name.mapM g, ← parameters.mapM g, ← body.mapM g⟩
  | classLike role name heritage members => do
    return classLike role (← name.mapM g) (← heritage.mapM g) (← members.mapM g)
  | block statements => do return block (← statements.mapM g)
  | expressionStatement expression => do return expressionStatement (← expression.mapM g)
  | returnStatement expression => do return returnStatement (← expression.mapM g)
  | throwStatement expression => do return throwStatement (← expression.mapM g)
  | ifStatement condition consequent alternative => do
    return ifStatement (← condition.mapM g) (← consequent.mapM g) (← alternative.mapM g)
  | whileStatement condition body => do return whileStatement (← condition.mapM g) (← body.mapM g)
  | forStatement initializer condition increment body => do
    return forStatement (← initializer.mapM g) (← condition.mapM g) (← increment.mapM g)
      (← body.mapM g)
  | emptyStatement => some emptyStatement
  | exportDefault exported => do return exportDefault (← exported.mapM g)
  | exportDeclaration declaration => do return exportDeclaration (← declaration.mapM g)
  | identifier text => some (identifier text)
  | stringLiteral quote value => some (stringLiteral quote value)
  | numberLiteral text => some (numberLiteral text)
  | trueLiteral => some trueLiteral
  | falseLiteral => some falseLiteral
  | nullLiteral => some nullLiteral
  | thisExpression => some thisExpression
  | superExpression => some superExpression
  | arrayLiteral elements => do return arrayLiteral (← elements.mapM g)
  | objectLiteral members => do return objectLiteral (← members.mapM g)
  | hole => some hole
  | propertyAssignment name value => do
    return propertyAssignment (← name.mapM g) (← value.mapM g)
  | shorthandProperty name => do return shorthandProperty (← name.mapM g)
  | spread expression => do return spread (← expression.mapM g)
  | computedName expression => do return computedName (← expression.mapM g)
  | method isStatic isAsync isGenerator name parameters body => do
    return method isStatic isAsync isGenerator (← name.mapM g) (← parameters.mapM g)
      (← body.mapM g)
  | accessor role isStatic name parameters body => do
    return accessor role isStatic (← name.mapM g) (← parameters.mapM g) (← body.mapM g)
  | classConstructor parameters body => do
    return classConstructor (← parameters.mapM g) (← body.mapM g)
  | classField isStatic name initializer => do
    return classField isStatic (← name.mapM g) (← initializer.mapM g)
  | parameter isRest name initializer => do
    return parameter isRest (← name.mapM g) (← initializer.mapM g)
  | pattern role elements => do return pattern role (← elements.mapM g)
  | patternElement isRest property name initializer => do
    return patternElement isRest (← property.mapM g) (← name.mapM g) (← initializer.mapM g)
  | propertyAccess object name => do return propertyAccess (← object.mapM g) (← name.mapM g)
  | elementAccess object argument => do
    return elementAccess (← object.mapM g) (← argument.mapM g)
  | call callee arguments => do return call (← callee.mapM g) (← arguments.mapM g)
  | new callee arguments => do
    return new (← callee.mapM g) (← arguments.mapM fun parts => parts.mapM g)
  | binary left operator right => do return binary (← left.mapM g) operator (← right.mapM g)
  | prefixed operator operand => do return prefixed operator (← operand.mapM g)
  | postfixed operator operand => do return postfixed operator (← operand.mapM g)
  | conditional condition whenTrue whenFalse => do
    return conditional (← condition.mapM g) (← whenTrue.mapM g) (← whenFalse.mapM g)
  | parenthesized expression => do return parenthesized (← expression.mapM g)
  | yieldExpression delegates expression => do
    return yieldExpression delegates (← expression.mapM g)

/-- The shape with other parts in the same places. -/
def map (f : α → β) : ShapeOf α → ShapeOf β
  | script statements file => script (statements.map f) file
  | variableStatement list => variableStatement (list.map f)
  | variableList keyword declarators => variableList keyword (declarators.map f)
  | declarator name initializer => declarator (name.map f) (initializer.map f)
  | function role parts =>
    function role ⟨parts.isAsync, parts.isGenerator, parts.name.map f, parts.parameters.map f,
      parts.body.map f⟩
  | classLike role name heritage members =>
    classLike role (name.map f) (heritage.map f) (members.map f)
  | block statements => block (statements.map f)
  | expressionStatement expression => expressionStatement (expression.map f)
  | returnStatement expression => returnStatement (expression.map f)
  | throwStatement expression => throwStatement (expression.map f)
  | ifStatement condition consequent alternative =>
    ifStatement (condition.map f) (consequent.map f) (alternative.map f)
  | whileStatement condition body => whileStatement (condition.map f) (body.map f)
  | forStatement initializer condition increment body =>
    forStatement (initializer.map f) (condition.map f) (increment.map f) (body.map f)
  | emptyStatement => emptyStatement
  | exportDefault exported => exportDefault (exported.map f)
  | exportDeclaration declaration => exportDeclaration (declaration.map f)
  | identifier text => identifier text
  | stringLiteral quote value => stringLiteral quote value
  | numberLiteral text => numberLiteral text
  | trueLiteral => trueLiteral
  | falseLiteral => falseLiteral
  | nullLiteral => nullLiteral
  | thisExpression => thisExpression
  | superExpression => superExpression
  | arrayLiteral elements => arrayLiteral (elements.map f)
  | objectLiteral members => objectLiteral (members.map f)
  | hole => hole
  | propertyAssignment name value => propertyAssignment (name.map f) (value.map f)
  | shorthandProperty name => shorthandProperty (name.map f)
  | spread expression => spread (expression.map f)
  | computedName expression => computedName (expression.map f)
  | method isStatic isAsync isGenerator name parameters body =>
    method isStatic isAsync isGenerator (name.map f) (parameters.map f) (body.map f)
  | accessor role isStatic name parameters body =>
    accessor role isStatic (name.map f) (parameters.map f) (body.map f)
  | classConstructor parameters body => classConstructor (parameters.map f) (body.map f)
  | classField isStatic name initializer => classField isStatic (name.map f) (initializer.map f)
  | parameter isRest name initializer => parameter isRest (name.map f) (initializer.map f)
  | pattern role elements => pattern role (elements.map f)
  | patternElement isRest property name initializer =>
    patternElement isRest (property.map f) (name.map f) (initializer.map f)
  | propertyAccess object name => propertyAccess (object.map f) (name.map f)
  | elementAccess object argument => elementAccess (object.map f) (argument.map f)
  | call callee arguments => call (callee.map f) (arguments.map f)
  | new callee arguments => new (callee.map f) (arguments.map fun parts => parts.map f)
  | binary left operator right => binary (left.map f) operator (right.map f)
  | prefixed operator operand => prefixed operator (operand.map f)
  | postfixed operator operand => postfixed operator (operand.map f)
  | conditional condition whenTrue whenFalse =>
    conditional (condition.map f) (whenTrue.map f) (whenFalse.map f)
  | parenthesized expression => parenthesized (expression.map f)
  | yieldExpression delegates expression => yieldExpression delegates (expression.map f)

theorem mapM_mono {g g' : α → Option β} {as : List α} {bs : List β}
    (h : ∀ a ∈ as, ∀ b, g a = some b → g' a = some b) (has : as.mapM g = some bs) :
    as.mapM g' = some bs := by
  induction as generalizing bs with
  | nil => exact has
  | cons a as ih =>
    simp only [List.mapM_cons, Option.bind_eq_bind, Option.bind_eq_some_iff, Option.pure_def,
      Option.some.injEq] at has ⊢
    obtain ⟨b, hb, bs, hbs, rfl⟩ := has
    obtain ⟨ha, has⟩ := List.forall_mem_cons.1 h
    exact ⟨b, ha b hb, bs, ih has hbs, rfl⟩

theorem optionMapM_mono {g g' : α → Option β} {slot : Option α} {slot' : Option β}
    (h : ∀ a ∈ slot.toList, ∀ b, g a = some b → g' a = some b)
    (hslot : slot.mapM g = some slot') : slot.mapM g' = some slot' := by
  cases slot with
  | none => exact hslot
  | some a =>
    simp only [Option.mapM_some, Option.map_eq_map, Option.map_eq_some_iff] at hslot ⊢
    obtain ⟨b, hb, rfl⟩ := hslot
    exact ⟨b, h a (by simp) b hb, rfl⟩

theorem exists_of_mapM_some {g : α → Option β} {slot : Option α} {x : β}
    (h : slot.mapM g = some (some x)) : ∃ a, slot = some a ∧ g a = some x := by
  cases slot with
  | none => cases h
  | some a => exact ⟨a, rfl, by simpa using h⟩

theorem exists_of_mapM_cons {g : α → Option β} {as : List α} {x : β} {xs : List β}
    (h : as.mapM g = some (x :: xs)) :
    ∃ a as', as = a :: as' ∧ g a = some x ∧ as'.mapM g = some xs := by
  cases as with
  | nil => cases h
  | cons a as =>
    simp only [List.mapM_cons, Option.bind_eq_bind, Option.bind_eq_some_iff, Option.pure_def,
      Option.some.injEq] at h
    obtain ⟨y, hy, ys, hys, heq⟩ := h
    cases heq
    exact ⟨a, as, rfl, hy, hys⟩

theorem eq_nil_of_mapM {g : α → Option β} {as : List α}
    (h : as.mapM g = some []) : as = [] := by
  cases as with
  | nil => rfl
  | cons a as => simp [Option.bind_eq_some_iff] at h

theorem eq_none_of_mapM {g : α → Option β} {slot : Option α}
    (h : slot.mapM g = some none) : slot = none := by
  cases slot with
  | none => rfl
  | some a => simp at h

theorem exists_of_mem_mapM {g : α → Option β} {as : List α} {bs : List β}
    (h : as.mapM g = some bs) {a : α} (ha : a ∈ as) : ∃ b ∈ bs, g a = some b := by
  induction as generalizing bs with
  | nil => cases ha
  | cons c as ih =>
    simp only [List.mapM_cons, Option.bind_eq_bind, Option.bind_eq_some_iff, Option.pure_def,
      Option.some.injEq] at h
    obtain ⟨b, hb, bs, hbs, rfl⟩ := h
    rcases List.mem_cons.1 ha with rfl | ha
    · exact ⟨b, List.mem_cons_self, hb⟩
    · obtain ⟨b', hb', hg⟩ := ih hbs ha
      exact ⟨b', List.mem_cons_of_mem _ hb', hg⟩

theorem mapM_eq_some_iff {g : α → Option β} {as : List α} {bs : List β} :
    as.mapM g = some bs ↔ as.map g = bs.map some := by
  induction as generalizing bs with
  | nil => cases bs <;> simp
  | cons a as ih =>
    cases bs with
    | nil => simp [Option.bind_eq_some_iff]
    | cons b bs => simp [Option.bind_eq_some_iff, ih]

theorem optionMapM_eq_some_iff {g : α → Option β} {slot : Option α} {slot' : Option β} :
    slot.mapM g = some slot' ↔ slot.map g = slot'.map some := by
  cases slot <;> cases slot' <;> simp

theorem map_eq_of_replace? {g : α → Option β} {shape : ShapeOf α} {shape' : ShapeOf β}
    (h : shape.replace? g = some shape') : shape.map g = shape'.map some := by
  have hlist := @mapM_eq_some_iff α β g
  have hslot := @optionMapM_eq_some_iff α β g
  cases shape <;> simp only [replace?.eq_def, Option.bind_eq_bind, Option.bind_eq_some_iff,
    Option.pure_def, Option.some.injEq] at h
  case new callee arguments =>
    obtain ⟨callee', hcallee, arguments', harguments, rfl⟩ := h
    cases arguments with
    | none =>
      cases harguments
      rw [map, map, hslot.1 hcallee]
      rfl
    | some arguments =>
      obtain ⟨parts, hparts, rfl⟩ := Option.map_eq_some_iff.1 harguments
      rw [map, map, hslot.1 hcallee, Option.map_some, Option.map_some, hlist.1 hparts]
  all_goals grind -linarith [map]

/-- What does not depend on the parts of a shape is kept when they are replaced. -/
theorem eq_of_replace? {γ : Type} (P : ∀ {ν : Type}, ShapeOf ν → γ)
    (hP : ∀ {ν ν' : Type} (f : ν → ν') (shape : ShapeOf ν), P (shape.map f) = P shape)
    {g : α → Option β} {shape : ShapeOf α} {shape' : ShapeOf β}
    (h : shape.replace? g = some shape') : P shape' = P shape := by
  rw [← hP some shape', ← map_eq_of_replace? h, hP g shape]

/-- What is in a place of a shape is replaced as the parts of the shape are. -/
theorem optionMapM_of_replace? (place : ∀ {ν : Type}, ShapeOf ν → Option ν)
    (hplace : ∀ {ν ν' : Type} (f : ν → ν') (shape : ShapeOf ν),
      place (shape.map f) = (place shape).map f)
    {g : α → Option β} {shape : ShapeOf α} {shape' : ShapeOf β}
    (h : shape.replace? g = some shape') : (place shape).mapM g = some (place shape') := by
  rw [optionMapM_eq_some_iff, ← hplace g shape, map_eq_of_replace? h, hplace some shape']

theorem mapM_of_replace? (places : ∀ {ν : Type}, ShapeOf ν → List ν)
    (hplaces : ∀ {ν ν' : Type} (f : ν → ν') (shape : ShapeOf ν),
      places (shape.map f) = (places shape).map f)
    {g : α → Option β} {shape : ShapeOf α} {shape' : ShapeOf β}
    (h : shape.replace? g = some shape') : (places shape).mapM g = some (places shape') := by
  rw [mapM_eq_some_iff, ← hplaces g shape, map_eq_of_replace? h, hplaces some shape']

theorem children_map (f : α → β) (shape : ShapeOf α) :
    (shape.map f).children = shape.children.map f := by
  cases shape with
  | new callee arguments => cases arguments <;> simp [map, children, Option.toList_map]
  | _ => simp [map, children, Option.toList_map]

/-- The parts of a shape are replaced one by one. -/
theorem mapM_children {g : α → Option β} {shape : ShapeOf α} {shape' : ShapeOf β}
    (h : shape.replace? g = some shape') : shape.children.mapM g = some shape'.children :=
  mapM_of_replace? children children_map h

theorem namesConstructor_of_replace? {g : α → Option β} {shape : ShapeOf α} {shape' : ShapeOf β}
    (h : shape.replace? g = some shape') : shape'.namesConstructor = shape.namesConstructor :=
  eq_of_replace? namesConstructor (fun _ shape => by cases shape <;> rfl) h

/-- A replacement that extends another on the parts of a shape gives no less. -/
theorem replace?_mono {g g' : α → Option β} {shape : ShapeOf α} {shape' : ShapeOf β}
    (h : ∀ a ∈ shape.children, ∀ b, g a = some b → g' a = some b)
    (hshape : shape.replace? g = some shape') : shape.replace? g' = some shape' := by
  have hlist := @mapM_mono α β g g'
  have hslot := @optionMapM_mono α β g g'
  have hslots : ∀ {slot : Option (List α)} {slot' : Option (List β)},
      (∀ a ∈ slot.getD [], ∀ b, g a = some b → g' a = some b) →
      (slot.mapM fun parts => parts.mapM g) = some slot' →
      (slot.mapM fun parts => parts.mapM g') = some slot' := by
    intro slot slot' hparts heq
    refine optionMapM_mono (fun parts hmem parts' => mapM_mono ?_) heq
    rw [Option.mem_toList.1 hmem] at hparts
    exact hparts
  cases shape <;> simp only [replace?.eq_def, Option.bind_eq_bind, Option.bind_eq_some_iff,
      Option.pure_def, Option.some.injEq, children, List.forall_mem_append] at h hshape ⊢ <;> grind -linarith

end ShapeOf

/-! ### Reading trees -/

namespace Forest

/-- The tree below a node, if it is at most `limit` levels high. -/
def treeWithin (f : Forest) : Nat → NodeId → Option SyntaxTree
  | 0, _ => none
  | limit + 1, id => do
    let shape ← f.shape? id
    return .node (← shape.replace? (f.treeWithin limit))

theorem pos_of_treeWithin {f : Forest} {limit : Nat} {id : NodeId} {tree : SyntaxTree}
    (h : f.treeWithin limit id = some tree) : 0 < limit := by
  cases limit with
  | zero => cases h
  | succ limit => exact Nat.succ_pos limit

/-- A tree that is read from a node stands for its shape. -/
theorem treeWithin_succ_eq_some_iff {f : Forest} {limit : Nat} {id : NodeId}
    {tree : SyntaxTree} :
    f.treeWithin (limit + 1) id = some tree ↔
      ∃ shape shape', f.shape? id = some shape ∧
        shape.replace? (f.treeWithin limit) = some shape' ∧ tree = .node shape' := by
  simp only [treeWithin, Option.bind_eq_bind, Option.bind_eq_some_iff, Option.pure_def,
    Option.some.injEq]
  constructor
  · rintro ⟨shape, hshape, shape', hreplace, rfl⟩
    exact ⟨shape, shape', hshape, hreplace, rfl⟩
  · rintro ⟨shape, shape', hshape, hreplace, rfl⟩
    exact ⟨shape, hshape, shape', hreplace, rfl⟩

theorem exists_shape?_of_treeWithin {f : Forest} {limit : Nat} {id : NodeId} {tree : SyntaxTree}
    (h : f.treeWithin limit id = some tree) :
    ∃ limit' shape shape', f.shape? id = some shape ∧
      shape.replace? (f.treeWithin limit') = some shape' ∧ tree = .node shape' := by
  obtain ⟨limit, rfl⟩ := Nat.exists_eq_add_one.2 (pos_of_treeWithin h)
  exact ⟨limit, treeWithin_succ_eq_some_iff.1 h⟩

theorem treeWithin_mono {f f' : Forest}
    (h : ∀ id shape, f.shape? id = some shape → f'.shape? id = some shape) (limit : Nat) (id : NodeId)
    (tree : SyntaxTree) (htree : f.treeWithin limit id = some tree) :
    f'.treeWithin limit id = some tree := by
  induction limit generalizing id tree with
  | zero => cases htree
  | succ limit ih =>
    rw [treeWithin_succ_eq_some_iff] at htree ⊢
    obtain ⟨shape, shape', hshape, hreplace, rfl⟩ := htree
    exact ⟨shape, shape', h id shape hshape, ShapeOf.replace?_mono (fun id _ => ih id) hreplace, rfl⟩

/-- Where parts have smaller numbers than what they are parts of, no tree is higher than its number
says. -/
theorem treeWithin_of_lt {f : Forest} (hchild : ∀ id, ∀ child ∈ f.children id, child < id)
    {limit limit' : Nat} {id : NodeId} {tree : SyntaxTree}
    (htree : f.treeWithin limit id = some tree) (hid : id < limit') :
    f.treeWithin limit' id = some tree := by
  induction limit generalizing limit' id tree with
  | zero => cases htree
  | succ limit ih =>
    obtain ⟨limit', rfl⟩ := Nat.exists_eq_add_one.2 (Nat.zero_lt_of_lt hid)
    rw [treeWithin_succ_eq_some_iff] at htree ⊢
    obtain ⟨shape, shape', hshape, hreplace, rfl⟩ := htree
    refine ⟨shape, shape', hshape, ShapeOf.replace?_mono (fun p hp tree hp' => ?_) hreplace, rfl⟩
    have hlt := hchild id p (mem_children_iff.2 ⟨shape, hshape, hp⟩)
    exact ih hp' (Nat.lt_of_lt_of_le hlt (Nat.le_of_lt_succ hid))

/-- That the trees below `ids` are `trees`. -/
def Reads (f : Forest) (ids : List NodeId) (trees : List SyntaxTree) : Prop :=
  ∀ᶠ limit in atTop, ids.mapM (f.treeWithin limit) = some trees

theorem Reads.mono {f f' : Forest}
    (h : ∀ id shape, f.shape? id = some shape → f'.shape? id = some shape) {ids : List NodeId}
    {trees : List SyntaxTree} (hreads : f.Reads ids trees) : f'.Reads ids trees :=
  Filter.Eventually.mono hreads fun limit hlimit =>
    ShapeOf.mapM_mono (fun id _ tree => treeWithin_mono h limit id tree) hlimit

/-- A node is read in one way only. -/
theorem Reads.unique {f : Forest} {ids : List NodeId} {trees trees' : List SyntaxTree}
    (h : f.Reads ids trees) (h' : f.Reads ids trees') : trees = trees' := by
  obtain ⟨limit, hlimit, hlimit'⟩ := (Filter.Eventually.and h h').exists
  exact Option.some.inj (hlimit.symm.trans hlimit')

theorem reads_nil (f : Forest) : f.Reads [] [] :=
  Filter.Eventually.of_forall fun _ => rfl

theorem Reads.append {f : Forest} {ids ids' : List NodeId} {trees trees' : List SyntaxTree}
    (h : f.Reads ids trees) (h' : f.Reads ids' trees') : f.Reads (ids ++ ids') (trees ++ trees') := by
  filter_upwards [h, h'] with limit hlimit hlimit'
  simp [List.mapM_append, hlimit, hlimit']

theorem Reads.length_eq {f : Forest} {ids : List NodeId} {trees : List SyntaxTree}
    (h : f.Reads ids trees) : trees.length = ids.length := by
  obtain ⟨limit, hlimit⟩ := Filter.Eventually.exists h
  clear h
  induction ids generalizing trees with
  | nil =>
    cases hlimit
    rfl
  | cons id ids ih =>
    simp only [List.mapM_cons, Option.bind_eq_bind, Option.bind_eq_some_iff, Option.pure_def,
      Option.some.injEq] at hlimit
    obtain ⟨tree, -, trees, htrees, rfl⟩ := hlimit
    rw [List.length_cons, List.length_cons, ih htrees]

/-- A node is read from its shape and its parts. -/
theorem reads_node {f : Forest} {id : NodeId} {shape : Shape} {shape' : ShapeOf SyntaxTree}
    (hshape : f.shape? id = some shape)
    (h : ∀ᶠ limit in atTop, shape.replace? (f.treeWithin limit) = some shape') :
    f.Reads [id] [.node shape'] := by
  obtain ⟨limit₀, h⟩ := Filter.eventually_atTop.1 h
  refine Filter.eventually_atTop.2 ⟨limit₀ + 1, fun limit hlimit => ?_⟩
  obtain ⟨limit, rfl⟩ : ∃ n, limit = n + 1 := ⟨limit - 1, by omega⟩
  have hreplace := h limit (by omega)
  simp [treeWithin, hshape, hreplace]

/-- A part that may be missing is read as a list of at most one tree. -/
theorem Reads.slot {f : Forest} {slot : Slot} {trees : List SyntaxTree}
    (h : f.Reads slot.toList trees) :
    ∀ᶠ limit in atTop, slot.mapM (f.treeWithin limit) = some trees.head? := by
  filter_upwards [h] with limit hlimit
  cases slot with
  | none =>
    cases hlimit
    rfl
  | some id =>
    simp only [Option.toList_some, List.mapM_cons, List.mapM_nil, Option.bind_eq_bind,
      Option.bind_eq_some_iff, Option.pure_def, Option.some.injEq] at hlimit
    obtain ⟨tree, htree, rest, rfl, rfl⟩ := hlimit
    simp [htree]

theorem Reads.some {f : Forest} {id : NodeId} {tree : SyntaxTree} (h : f.Reads [id] [tree]) :
    ∀ᶠ limit in atTop, f.treeWithin limit id = .some tree := by
  have hslot : f.Reads (Option.some id).toList [tree] := h
  filter_upwards [hslot.slot] with limit hlimit
  simpa using hlimit

theorem Reads.treeWithin_of_lt {f : Forest} (hchild : ∀ id, ∀ child ∈ f.children id, child < id)
    {id : NodeId} {tree : SyntaxTree} (h : f.Reads [id] [tree]) {limit : Nat} (hid : id < limit) :
    f.treeWithin limit id = .some tree := by
  obtain ⟨limit', htree⟩ := h.some.exists
  exact Forest.treeWithin_of_lt hchild htree hid

/-- The shape of a node is that of its tree. -/
theorem Reads.exists_shape? {f : Forest} {id : NodeId} {shape' : ShapeOf SyntaxTree}
    (h : f.Reads [id] [.node shape']) :
    ∃ shape limit, f.shape? id = .some shape ∧
      shape.replace? (f.treeWithin limit) = .some shape' := by
  obtain ⟨_, hread⟩ := h.some.exists
  obtain ⟨limit, shape, _, hshape, hreplace, ⟨⟩⟩ := exists_shape?_of_treeWithin hread
  exact ⟨shape, limit, hshape, hreplace⟩

end Forest

end FunctionNaming
