import FunctionNaming.Proofs.Grammar.Clean
import FunctionNaming.Proofs.Syntax.Tree

/-!
Where values with keys stand in the trees of phrases: they are members of object literals and of
nothing else, and their names are such that there is a key. In the forest of a script without
diagnostics this holds everywhere below the root.
-/

namespace FunctionNaming

namespace ShapeOf

variable {ν : Type}

/-- Whether the shape is a value with a key. -/
def isPropertyAssignment : ShapeOf ν → Bool
  | propertyAssignment .. => true
  | _ => false

def isObjectLiteral : ShapeOf ν → Bool
  | objectLiteral _ => true
  | _ => false

/-- Whether the shape can name a member. -/
def isMemberName : ShapeOf ν → Bool
  | identifier _ | stringLiteral .. | numberLiteral _ | computedName _ => true
  | _ => false

section

variable {α β : Type} {g : α → Option β} {shape : ShapeOf α} {shape' : ShapeOf β}

theorem isPropertyAssignment_of_replace? (h : shape.replace? g = some shape') :
    shape'.isPropertyAssignment = shape.isPropertyAssignment :=
  eq_of_replace? isPropertyAssignment (fun _ shape => by cases shape <;> rfl) h

theorem isObjectLiteral_of_replace? (h : shape.replace? g = some shape') :
    shape'.isObjectLiteral = shape.isObjectLiteral :=
  eq_of_replace? isObjectLiteral (fun _ shape => by cases shape <;> rfl) h

theorem isMemberName_of_replace? (h : shape.replace? g = some shape') :
    shape'.isMemberName = shape.isMemberName :=
  eq_of_replace? isMemberName (fun _ shape => by cases shape <;> rfl) h

end

end ShapeOf

namespace SyntaxTree

def isPropertyAssignment : SyntaxTree → Bool
  | node shape => shape.isPropertyAssignment

def isMemberName : SyntaxTree → Bool
  | node shape => shape.isMemberName

/-- What is asked of a value with a key. -/
def HasKey : ShapeOf SyntaxTree → Prop
  | .propertyAssignment name value =>
    (∃ tree, name = some tree ∧ tree.isMemberName = true) ∧ ∃ tree, value = some tree
  | _ => True

/-- That all values with keys are members of object literals and have a key. -/
inductive KeepsMembers : SyntaxTree → Prop
  | node {shape : ShapeOf SyntaxTree} : HasKey shape →
      (∀ tree ∈ shape.children, tree.isPropertyAssignment = true → shape.isObjectLiteral = true) →
      (∀ tree ∈ shape.children, KeepsMembers tree) → KeepsMembers (.node shape)

@[simp] theorem keepsMembers_node_iff {shape : ShapeOf SyntaxTree} :
    KeepsMembers (.node shape) ↔ HasKey shape ∧
      (∀ tree ∈ shape.children, tree.isPropertyAssignment = true → shape.isObjectLiteral = true) ∧
      ∀ tree ∈ shape.children, KeepsMembers tree := by
  constructor
  · rintro ⟨hkey, hplace, hparts⟩
    exact ⟨hkey, hplace, hparts⟩
  · rintro ⟨hkey, hplace, hparts⟩
    exact .node hkey hplace hparts

end SyntaxTree

namespace Grammar

open SyntaxTree (KeepsMembers)

/-- Whether the phrases of the category may be values with keys. -/
def Category.givesMembers : Category → Bool
  | .objectMember => true
  | .list _ _ item => item.givesMembers
  | _ => false

/-- Whether the phrases of the category can name a member. -/
def Category.givesNames : Category → Bool
  | .word | .name | .literal | .memberName => true
  | _ => false

/-- What the trees of the phrases of a category are. -/
def Category.Keeps (c : Category) (tree : SyntaxTree) : Prop :=
  tree.KeepsMembers ∧ (tree.isPropertyAssignment = true → c.givesMembers = true) ∧
    (c.givesNames = true → tree.isMemberName = true)

theorem keeps_of_keywordShape? {k : TokenKind} {shape : ShapeOf SyntaxTree}
    (h : keywordShape? k = some shape) : Category.primary.Keeps (.node shape) := by
  have hshape : SyntaxTree.HasKey shape ∧ shape.children = [] ∧
      shape.isPropertyAssignment = false := by
    cases k <;> cases h <;> exact ⟨trivial, rfl, rfl⟩
  obtain ⟨hkey, hchildren, hproperty⟩ := hshape
  refine ⟨.node hkey (by simp [hchildren]) (by simp [hchildren]), ?_, nofun⟩
  intro htrue
  exact absurd (hproperty.symm.trans htrue) Bool.false_ne_true

/-- What is derived keeps its members in place: one rule makes values with keys, and the lists of its
phrases go to one rule only, the one for object literals. -/
theorem Derives.keeps {c : Category} {Γ : Context} {d : Nat} {T T' : List Token}
    {ts : List SyntaxTree} (h : Derives c Γ d T ts T') : ∀ tree ∈ ts, c.Keeps tree := by
  induction h with
  | primaryKeyword hk => simpa using keeps_of_keywordShape? hk
  | _ =>
    simp only [Category.Keeps, Category.givesMembers, Category.givesNames,
      SyntaxTree.keepsMembers_node_iff, SyntaxTree.isPropertyAssignment, SyntaxTree.isMemberName,
      SyntaxTree.HasKey, ShapeOf.isPropertyAssignment, ShapeOf.isObjectLiteral,
      ShapeOf.isMemberName, ShapeOf.children, List.not_mem_nil, List.mem_cons, List.mem_append,
      Option.mem_toList, Option.toList_some, Option.toList_none, Option.some.injEq,
      forall_eq_or_imp, forall_eq, false_implies, or_false, true_implies, implies_true,
      Bool.false_eq_true, and_true, true_and] at *
    try grind -linarith [List.mem_of_mem_head?]

end Grammar

namespace Forest

/-- What a tree hands down to its parts holds of the trees of all the nodes below. -/
theorem Below.exists_treeWithin {f : Forest} {P : SyntaxTree → Prop}
    (hP : ∀ shape, P (.node shape) → ∀ tree ∈ shape.children, P tree) {level limit : Nat}
    {id n : NodeId} {tree : SyntaxTree} (hn : f.Below level id n)
    (htree : f.treeWithin limit id = some tree) (h : P tree) :
    ∃ limit' tree', f.treeWithin limit' n = some tree' ∧ P tree' := by
  induction hn generalizing limit tree with
  | self => exact ⟨limit, tree, htree, h⟩
  | part hchild _ ih =>
    obtain ⟨limit, rfl⟩ := Nat.exists_eq_add_one.2 (pos_of_treeWithin htree)
    obtain ⟨shape, shape', hshape, hreplace, rfl⟩ := treeWithin_succ_eq_some_iff.1 htree
    obtain ⟨shape, hshape', hmem⟩ := mem_children_iff.1 hchild
    obtain rfl := Option.some.inj (hshape.symm.trans hshape')
    obtain ⟨part, hpart, htree'⟩ :=
      ShapeOf.exists_of_mem_mapM (ShapeOf.mapM_children hreplace) hmem
    exact ih htree' (hP shape' h part hpart)

/-- What a tree hands down to its parts holds of the shapes of all the nodes below, with trees in the
place of their parts. -/
theorem Contains.exists_replace? {f : Forest} {P : SyntaxTree → Prop}
    (hP : ∀ shape, P (.node shape) → ∀ tree ∈ shape.children, P tree) {limit : Nat}
    {root n : NodeId} {shape : Shape} {tree : SyntaxTree} (hn : f.Contains root n)
    (htree : f.treeWithin limit root = some tree) (h : P tree) (hshape : f.shape? n = some shape) :
    ∃ limit shape', shape.replace? (f.treeWithin limit) = some shape' ∧ P (.node shape') := by
  obtain ⟨level, hn⟩ := hn
  obtain ⟨_, tree, hread, htree⟩ := hn.exists_treeWithin hP htree h
  obtain ⟨limit, shape, shape', hshape', hreplace, rfl⟩ := exists_shape?_of_treeWithin hread
  obtain rfl := Option.some.inj (hshape.symm.trans hshape')
  exact ⟨limit, shape', hreplace, htree⟩

/-- That all values with keys below a root are members of object literals, and have a key. -/
structure MembersInPlace (f : Forest) (root : NodeId) : Prop where
  literal : ∀ {parent property : NodeId} {shape : Shape}, f.Contains root parent →
    property ∈ f.children parent → f.shape? property = some shape →
    shape.isPropertyAssignment = true → ∃ members, f.shape? parent = some (.objectLiteral members)
  key : ∀ {property : NodeId} {name value : Slot}, f.Contains root property →
    f.shape? property = some (.propertyAssignment name value) →
    ∃ n v shape, name = some n ∧ value = some v ∧ f.shape? n = some shape ∧
      shape.isMemberName = true

theorem membersInPlace_of_treeWithin {f : Forest} {limit : Nat} {root : NodeId} {tree : SyntaxTree}
    (htree : f.treeWithin limit root = some tree) (h : tree.KeepsMembers) :
    f.MembersInPlace root := by
  have hbelow : ∀ {n : NodeId} {shape : Shape}, f.Contains root n → f.shape? n = some shape →
      ∃ limit shape', shape.replace? (f.treeWithin limit) = some shape' ∧
        SyntaxTree.KeepsMembers (.node shape') := fun hn hshape =>
    hn.exists_replace? (fun _ hnode => (SyntaxTree.keepsMembers_node_iff.1 hnode).2.2) htree h hshape
  constructor
  case literal =>
    intro parent property shape hparent hchild hshape hproperty
    obtain ⟨pshape, hpshape, hmem⟩ := mem_children_iff.1 hchild
    obtain ⟨limit, pshape', hreplace, hkeeps⟩ := hbelow hparent hpshape
    obtain ⟨part, hpart, hread⟩ := ShapeOf.exists_of_mem_mapM (ShapeOf.mapM_children hreplace) hmem
    obtain ⟨_, shape', part', hshape', hreplace', rfl⟩ := exists_shape?_of_treeWithin hread
    obtain rfl := Option.some.inj (hshape.symm.trans hshape')
    have hliteral : pshape.isObjectLiteral = true := by
      rw [← ShapeOf.isObjectLiteral_of_replace? hreplace]
      refine (SyntaxTree.keepsMembers_node_iff.1 hkeeps).2.1 _ hpart ?_
      exact (ShapeOf.isPropertyAssignment_of_replace? hreplace').trans hproperty
    cases pshape with
    | objectLiteral members => exact ⟨members, hpshape⟩
    | _ => cases hliteral
  case key =>
    intro property name value hproperty hshape
    obtain ⟨limit, shape', hreplace, hkeeps⟩ := hbelow hproperty hshape
    simp only [ShapeOf.replace?, Option.bind_eq_bind, Option.bind_eq_some_iff, Option.pure_def,
      Option.some.injEq] at hreplace
    obtain ⟨name', hname, value', hvalue, rfl⟩ := hreplace
    obtain ⟨⟨tree, rfl, hmember⟩, tree', rfl⟩ := (SyntaxTree.keepsMembers_node_iff.1 hkeeps).1
    cases name with
    | none => cases hname
    | some n =>
      cases value with
      | none => cases hvalue
      | some v =>
        simp only [Option.mapM_some, Option.map_eq_map, Option.map_eq_some_iff, Option.some.injEq,
          exists_eq_right] at hname
        obtain ⟨_, shape, shape', hn, hreplace, rfl⟩ := exists_shape?_of_treeWithin hname
        exact ⟨n, v, shape, rfl, rfl, hn,
          (ShapeOf.isMemberName_of_replace? hreplace).symm.trans hmember⟩

end Forest

namespace Script

theorem membersInPlace {file source : String} (h : (Script.parse file source).diagnostics = []) :
    (Script.parse file source).forest.MembersInPlace (Script.parse file source).root := by
  obtain ⟨ts, last, hderives, -, htree⟩ := exists_derives h
  refine Forest.membersInPlace_of_treeWithin htree (.node trivial ?_ ?_)
  · intro tree hmem hproperty
    exact absurd ((hderives.keeps tree hmem).2.1 hproperty) Bool.false_ne_true
  · exact fun tree hmem => (hderives.keeps tree hmem).1

end Script

end FunctionNaming
