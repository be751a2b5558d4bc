import FunctionNaming.Proofs.Syntax.Forest
import Mathlib.Algebra.GroupWithZero.Nat
import Mathlib.Data.List.Chain

/-!
How deeply blocks, parentheses and operators before their operand are nested in one another. The bound
is kept for each node: `NestsWithin n id` says that no way down from the node passes more than `n` of
them. A forest that grows changes no shape, so bounds last.
-/

namespace FunctionNaming

/-- How much a node adds to the nesting of what stands below it. -/
def ShapeOf.nesting {ν : Type} : ShapeOf ν → Nat
  | .block _ | .parenthesized _ | .prefixed .. => 1
  | _ => 0

namespace Forest

/-- How much the node with a number adds to the nesting. -/
def nestingAt (f : Forest) (id : NodeId) : Nat := (f.shape? id).elim 0 ShapeOf.nesting

/-- A way down: every node but the first is a part of the one before it. -/
def IsWayDown (f : Forest) (ids : List NodeId) : Prop :=
  ids.IsChain fun parent child => child ∈ f.children parent

instance (f : Forest) (ids : List NodeId) : Decidable (f.IsWayDown ids) :=
  inferInstanceAs (Decidable (ids.IsChain fun parent child => child ∈ f.children parent))

/-- That the nesting on every way down from a node adds up to `n` at most. -/
inductive NestsWithin (f : Forest) : Nat → NodeId → Prop
  | node {n m : Nat} {id : NodeId} {shape : Shape} (hshape : f.shape? id = some shape)
      (hn : shape.nesting + m ≤ n) (hparts : ∀ part ∈ shape.children, NestsWithin f m part) :
      NestsWithin f n id

namespace NestsWithin

variable {f g : Forest} {n m : Nat} {id : NodeId}

theorem mono (h : f.NestsWithin n id) (hnm : n ≤ m) : f.NestsWithin m id := by
  obtain ⟨hshape, hn, hparts⟩ := h
  exact .node hshape (Nat.le_trans hn hnm) hparts

/-- What grows keeps its bounds. -/
theorem grow (h : f.NestsWithin n id)
    (hgrow : ∀ id shape, f.shape? id = some shape → g.shape? id = some shape) :
    g.NestsWithin n id := by
  induction h with
  | node hshape hn _ ih => exact .node (hgrow _ _ hshape) hn ih

theorem nestingAt_le (h : f.NestsWithin n id) : f.nestingAt id ≤ n := by
  obtain ⟨hshape, hn, -⟩ := h
  rw [nestingAt, hshape]
  exact Nat.le_of_add_right_le hn

theorem of_part (h : f.NestsWithin n id) {part : NodeId} (hpart : part ∈ f.children id) :
    f.NestsWithin (n - f.nestingAt id) part := by
  obtain ⟨hshape, hn, hparts⟩ := h
  obtain ⟨shape, hshape', hmem⟩ := mem_children_iff.1 hpart
  obtain rfl := Option.some.inj (hshape.symm.trans hshape')
  rw [nestingAt, hshape]
  refine (hparts part hmem).mono ?_
  show _ ≤ n - ShapeOf.nesting _
  omega

/-- The bound of a node is a bound for each way down that begins with it. -/
theorem sum_le {ids : List NodeId} (h : f.NestsWithin n id) (hids : f.IsWayDown (id :: ids)) :
    ((id :: ids).map f.nestingAt).sum ≤ n := by
  induction ids generalizing n id with
  | nil => simpa using h.nestingAt_le
  | cons part ids ih =>
    obtain ⟨hpart, hrest⟩ := List.isChain_cons_cons.1 hids
    have hle := h.nestingAt_le
    have hsum := ih (h.of_part hpart) hrest
    rw [List.map_cons, List.sum_cons]
    omega

end NestsWithin

end Forest

end FunctionNaming
