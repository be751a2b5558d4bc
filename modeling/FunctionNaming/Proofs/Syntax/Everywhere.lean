import FunctionNaming.Proofs.Grammar.Members

/-!
Properties that all shapes of a tree have. In a forest they are found again at every node below the
one that the tree is read from, with trees in the place of the parts of a node.
-/

namespace FunctionNaming

/-- That all shapes in a tree have a property, which may look into the parts of a shape. -/
inductive SyntaxTree.Everywhere (P : ShapeOf SyntaxTree → Prop) : SyntaxTree → Prop
  | node {shape : ShapeOf SyntaxTree} : P shape →
      (∀ tree ∈ shape.children, Everywhere P tree) → Everywhere P (.node shape)

@[simp] theorem SyntaxTree.everywhere_node_iff {P : ShapeOf SyntaxTree → Prop}
    {shape : ShapeOf SyntaxTree} :
    Everywhere P (.node shape) ↔ P shape ∧ ∀ tree ∈ shape.children, Everywhere P tree := by
  constructor
  · rintro ⟨hshape, hparts⟩
    exact ⟨hshape, hparts⟩
  · rintro ⟨hshape, hparts⟩
    exact .node hshape hparts

theorem ShapeOf.exists_of_mapM_mem {α β : Type} {g : α → Option β} {as : List α} {bs : List β}
    (h : as.mapM g = some bs) {b : β} (hb : b ∈ bs) : ∃ a ∈ as, g a = some b := by
  induction as generalizing bs with
  | nil =>
    cases h
    cases hb
  | cons a as ih =>
    simp only [List.mapM_cons, Option.bind_eq_bind, Option.bind_eq_some_iff, Option.pure_def,
      Option.some.injEq] at h
    obtain ⟨c, hc, cs, hcs, rfl⟩ := h
    rcases List.mem_cons.1 hb with rfl | hb
    · exact ⟨a, List.mem_cons_self, hc⟩
    · obtain ⟨a', ha', hg⟩ := ih hcs hb
      exact ⟨a', List.mem_cons_of_mem _ ha', hg⟩

namespace Forest

variable {f : Forest} {limit : Nat}

/-- What all nodes below a node have, with trees in the place of their parts, is had everywhere in its
tree. -/
theorem everywhere_of_contains {P : ShapeOf SyntaxTree → Prop} {root id : NodeId} {tree : SyntaxTree}
    (hP : ∀ k < limit, ∀ n shape shape', f.Contains root n → f.shape? n = some shape →
      shape.replace? (f.treeWithin k) = some shape' → P shape')
    (hid : f.Contains root id) (htree : f.treeWithin limit id = some tree) : tree.Everywhere P := by
  induction limit generalizing id tree with
  | zero => cases htree
  | succ limit ih =>
    obtain ⟨shape, shape', hshape, hreplace, rfl⟩ := treeWithin_succ_eq_some_iff.1 htree
    refine .node (hP limit (Nat.lt_succ_self limit) id shape shape' hid hshape hreplace) ?_
    intro part hpart
    obtain ⟨p, hp, hread⟩ := ShapeOf.exists_of_mapM_mem (ShapeOf.mapM_children hreplace) hpart
    obtain ⟨-, pshape, -, hpshape, -⟩ := exists_shape?_of_treeWithin hread
    exact ih (fun k hk => hP k (Nat.lt_succ_of_lt hk)) (hid.part hshape hp (by simp [hpshape])) hread

theorem Contains.exists_replace?_of_everywhere {P : ShapeOf SyntaxTree → Prop} {root n : NodeId}
    {tree : SyntaxTree} {shape : Shape} (hn : f.Contains root n)
    (htree : f.treeWithin limit root = some tree) (h : tree.Everywhere P)
    (hshape : f.shape? n = some shape) :
    ∃ limit shape', shape.replace? (f.treeWithin limit) = some shape' ∧ P shape' := by
  obtain ⟨limit, shape', hreplace, htree⟩ := hn.exists_replace?
    (fun _ hnode => (SyntaxTree.everywhere_node_iff.1 hnode).2) htree h hshape
  exact ⟨limit, shape', hreplace, (SyntaxTree.everywhere_node_iff.1 htree).1⟩

/-- What is known of the tree in a place is known of the shape of the node there. -/
theorem exists_shape?_of_mapM {slot : Slot} {tree : SyntaxTree}
    (h : slot.mapM (f.treeWithin limit) = some (some tree)) :
    ∃ m shape shape' limit', slot = some m ∧ f.treeWithin limit m = some tree ∧
      f.shape? m = some shape ∧ shape.replace? (f.treeWithin limit') = some shape' ∧
      tree = .node shape' := by
  obtain ⟨m, rfl, hread⟩ := ShapeOf.exists_of_mapM_some h
  obtain ⟨limit', shape, shape', hshape, hreplace, htree⟩ := exists_shape?_of_treeWithin hread
  exact ⟨m, shape, shape', limit', rfl, hread, hshape, hreplace, htree⟩

end Forest

end FunctionNaming
