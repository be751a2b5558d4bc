import FunctionNaming.Proofs.Syntax.Forest
import Mathlib.Data.List.Nodup

/-!
Forests in the making. While a script is read, the nodes fall into those that stand under a parent
already and those that are still free to be put under one. A node stands under one parent at most and
in one place of it, its link leads there, and a free node has no link. These facts belong together:
a new node takes free nodes as its parts and is free itself.

Ownership is counted: how often a number is listed as a part and how often it is held free come to
one at most.
-/

namespace FunctionNaming.Forest

/-- All the parts of all the nodes. -/
def references (f : Forest) : List NodeId := (List.range f.size).flatMap f.children

/-- That every node stands in one place at most, where its link leads, and that the nodes in `free`
stand nowhere. -/
structure Linked (f : Forest) (free : List NodeId) : Prop where
  once : ∀ id, f.references.count id + free.count id ≤ 1
  free_lt : ∀ id ∈ free, id < f.size
  child_lt : ∀ id, ∀ child ∈ f.children id, child < id
  parent_iff : ∀ id parent, f.parent? id = some parent ↔ id ∈ f.children parent

theorem mem_references_iff {f : Forest} {id : NodeId} :
    id ∈ f.references ↔ ∃ parent, id ∈ f.children parent := by
  rw [references, List.mem_flatMap]
  constructor
  · rintro ⟨parent, -, hmem⟩
    exact ⟨parent, hmem⟩
  · rintro ⟨parent, hmem⟩
    obtain ⟨shape, hshape, -⟩ := mem_children_iff.1 hmem
    exact ⟨parent, List.mem_range.2 (lt_size_of_shape? hshape), hmem⟩

theorem linked_empty : empty.Linked [] where
  once := by
    intro id
    simp [references, size, empty]
  free_lt := by simp
  child_lt := by
    intro id child hchild
    obtain ⟨shape, hshape, -⟩ := mem_children_iff.1 hchild
    exact absurd (lt_size_of_shape? hshape) (Nat.not_lt_zero id)
  parent_iff := by
    intro id parent
    constructor
    · intro h
      simp [parent?, node?, empty] at h
    · intro h
      obtain ⟨shape, hshape, -⟩ := mem_children_iff.1 h
      exact absurd (lt_size_of_shape? hshape) (Nat.not_lt_zero parent)

namespace Linked

variable {f : Forest} {free held : List NodeId}

/-- Free nodes may be forgotten, and their order does not matter. -/
theorem mono (h : f.Linked free) (hcount : ∀ id, held.count id ≤ free.count id) :
    f.Linked held where
  once := fun id => Nat.le_trans (Nat.add_le_add_left (hcount id) _) (h.once id)
  free_lt := by
    intro id hid
    apply h.free_lt
    exact List.count_pos_iff.1 (Nat.lt_of_lt_of_le (List.count_pos_iff.2 hid) (hcount id))
  child_lt := h.child_lt
  parent_iff := h.parent_iff

theorem not_mem_references (h : f.Linked free) {id : NodeId} (hid : id ∈ free) :
    id ∉ f.references := by
  intro href
  have honce := h.once id
  have hfree := List.count_pos_iff.2 hid
  have href' := List.count_pos_iff.2 href
  omega

theorem nodup_references (h : f.Linked free) : f.references.Nodup :=
  List.nodup_iff_count_le_one.2 fun id => Nat.le_trans (Nat.le_add_right _ _) (h.once id)

/-- A node has one parent. -/
theorem parent_unique (h : f.Linked free) {id p q : NodeId} (hp : id ∈ f.children p)
    (hq : id ∈ f.children q) : p = q := by
  rw [← h.parent_iff] at hp hq
  exact Option.some.inj (hp.symm.trans hq)

theorem parent?_of_shape? (h : f.Linked free) {id parent : NodeId} {shape : Shape}
    (hshape : f.shape? parent = some shape) (hmem : id ∈ shape.children) :
    f.parent? id = some parent :=
  (h.parent_iff id parent).2 (mem_children_iff.2 ⟨shape, hshape, hmem⟩)

theorem lt_of_shape? (h : f.Linked free) {id parent : NodeId} {shape : Shape}
    (hshape : f.shape? parent = some shape) (hmem : id ∈ shape.children) : id < parent :=
  h.child_lt parent id (mem_children_iff.2 ⟨shape, hshape, hmem⟩)

/-- Parents have larger numbers, so a way up needs no more steps than there are numbers left. -/
theorem size_le_parent_add (h : f.Linked free) {id parent limit : Nat}
    (hparent : f.parent? id = some parent) (hlimit : f.size ≤ id + (limit + 1)) :
    f.size ≤ parent + limit := by
  have hlt : id < parent := h.child_lt parent id ((h.parent_iff id parent).1 hparent)
  omega

end Linked

/-! ### A new node -/

theorem children_add (f : Forest) (start stop : Nat) (shape : Shape) (id : NodeId) :
    (f.add start stop shape).children id =
      if id = f.size then shape.children else f.children id := by
  by_cases hid : id = f.size
  · rw [if_pos hid, children, shape?_add, if_pos hid]
  · rw [if_neg hid, children, shape?_add, if_neg hid, children]

theorem references_add (f : Forest) (start stop : Nat) (shape : Shape) :
    (f.add start stop shape).references = f.references ++ shape.children := by
  have hold : (List.range f.size).flatMap (f.add start stop shape).children = f.references := by
    refine List.flatMap_congr fun id hid => ?_
    rw [children_add, if_neg (Nat.ne_of_lt (List.mem_range.1 hid))]
  rw [references, size_add, List.range_succ, List.flatMap_append, hold, List.flatMap_singleton,
    children_add, if_pos rfl]

/-- A new node whose parts were free is free. -/
theorem Linked.add {f : Forest} {free : List NodeId} (h : f.Linked free) {shape : Shape}
    {held : List NodeId}
    (hcount : ∀ id, shape.children.count id + held.count id ≤ free.count id) (start stop : Nat) :
    (f.add start stop shape).Linked (f.size :: held) where
  once := by
    intro id
    have honce := h.once id
    have hid := hcount id
    rw [references_add, List.count_append, List.count_cons]
    by_cases heq : f.size = id
    · have href : f.references.count id = 0 := by
        refine List.count_eq_zero.2 fun hmem => ?_
        obtain ⟨parent, hparent⟩ := mem_references_iff.1 hmem
        obtain ⟨shape', hshape, -⟩ := mem_children_iff.1 hparent
        have hlt := h.child_lt parent id hparent
        have hparent_lt := lt_size_of_shape? hshape
        exact absurd (Nat.lt_trans hlt hparent_lt) (heq ▸ Nat.lt_irrefl _)
      have hfree : free.count id = 0 := by
        refine List.count_eq_zero.2 fun hmem => ?_
        exact absurd (h.free_lt id hmem) (heq ▸ Nat.lt_irrefl _)
      simp [heq]
      omega
    · simp [heq]
      omega
  free_lt := by
    intro id hid
    rw [size_add]
    rcases List.mem_cons.1 hid with rfl | hid
    · exact Nat.lt_succ_self _
    · have hpos := List.count_pos_iff.2 hid
      have hfree : id ∈ free := List.count_pos_iff.1 (by have := hcount id; omega)
      exact Nat.lt_succ_of_lt (h.free_lt id hfree)
  child_lt := by
    intro id child hchild
    rw [children_add] at hchild
    split at hchild
    · next heq =>
      have hpos := List.count_pos_iff.2 hchild
      have hfree : child ∈ free := List.count_pos_iff.1 (by have := hcount child; omega)
      exact heq ▸ h.free_lt child hfree
    · exact h.child_lt id child hchild
  parent_iff := by
    intro id parent
    rw [parent?_add, children_add]
    by_cases hid : id ∈ shape.children
    · have hpos := List.count_pos_iff.2 hid
      have hfree : id ∈ free := List.count_pos_iff.1 (by have := hcount id; omega)
      have hnot : id ∉ f.children parent := fun hmem =>
        h.not_mem_references hfree (mem_references_iff.2 ⟨parent, hmem⟩)
      rw [if_pos ⟨hid, Nat.le_of_lt (h.free_lt id hfree)⟩, Option.some_inj]
      by_cases hparent : parent = f.size
      · simp [hparent, hid]
      · simp [hparent, hnot, Ne.symm hparent]
    · rw [if_neg (fun hand => hid hand.1), h.parent_iff]
      by_cases hparent : parent = f.size
      · rw [if_pos hparent, hparent, children_size]
        simp [hid]
      · rw [if_neg hparent]

end FunctionNaming.Forest
