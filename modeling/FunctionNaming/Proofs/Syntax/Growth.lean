import FunctionNaming.Proofs.Grammar.Linked
import FunctionNaming.Proofs.Syntax.Tree

/-!
Forests after reading. More identifiers may be added to a forest, and functions may receive names,
in any order. A name is a part of its function but has the larger number, so numbers do not tell the
levels of a tree any more. What lasts is that links and parts agree, and that every way up ends: a new
node has no parts, so it is the end of no other way.
-/

namespace FunctionNaming.Forest

/-- What may be done to a forest after it was read. -/
inductive Change where
  /-- Adds an identifier that stands alone. -/
  | identifier (start stop : Nat) (text : String)
  /-- Attaches a name to a function, if it can be attached there. -/
  | name (function : NodeId) (text : String)

/-- The forest after a change. -/
def change (f : Forest) : Change → Forest
  | .identifier start stop text => f.add start stop (.identifier text)
  | .name function text => (f.attachName? function text).getD f

/-- The node that is `steps` links above a node. -/
def ancestor? (f : Forest) : Nat → NodeId → Slot
  | 0, id => some id
  | steps + 1, id => (f.parent? id).bind (f.ancestor? steps)

/-- That the way up from a node ends at a node without a parent. -/
def EndsAbove (f : Forest) (id : NodeId) : Prop :=
  ∃ steps top, f.ancestor? steps id = some top ∧ f.parent? top = none

/-- That the links of a forest make trees of its nodes, where `root` is at the top of one. -/
structure LinksAgree (f : Forest) (root : NodeId) : Prop where
  parent_iff : ∀ child parent, f.parent? child = some parent ↔ child ∈ f.children parent
  once : ∀ parent, ∀ child ∈ f.children parent, (f.children parent).count child = 1
  child_lt : ∀ parent, ∀ child ∈ f.children parent, child < f.size
  ends : ∀ id, f.EndsAbove id
  root_lt : root < f.size
  parent?_root : f.parent? root = none

/-! ### Ways up -/

theorem endsAbove_of_top {f : Forest} {id : NodeId} (h : f.parent? id = none) : f.EndsAbove id :=
  ⟨0, id, rfl, h⟩

theorem EndsAbove.below {f : Forest} {id parent : NodeId} (h : f.EndsAbove parent)
    (hparent : f.parent? id = some parent) : f.EndsAbove id := by
  obtain ⟨steps, top, hsteps, htop⟩ := h
  refine ⟨steps + 1, top, ?_, htop⟩
  rw [ancestor?, hparent]
  exact hsteps

/-- A way up stays as it is if the nodes that were there keep their links. -/
theorem EndsAbove.of_parent?_eq {f f' : Forest}
    (hkept : ∀ id, id < f.size → f'.parent? id = f.parent? id)
    (hparent : ∀ id parent, f.parent? id = some parent → parent < f.size) {id : NodeId}
    (hid : id < f.size) (h : f.EndsAbove id) : f'.EndsAbove id := by
  obtain ⟨steps, top, hsteps, htop⟩ := h
  induction steps generalizing id with
  | zero =>
    obtain rfl := Option.some.inj hsteps
    exact endsAbove_of_top ((hkept id hid).trans htop)
  | succ steps ih =>
    rw [ancestor?, Option.bind_eq_some_iff] at hsteps
    obtain ⟨parent, hlink, hsteps⟩ := hsteps
    exact (ih (hparent id parent hlink) hsteps).below ((hkept id hid).trans hlink)

/-- Where parts have smaller numbers, every way up ends, by induction on the numbers that are left. -/
theorem Linked.endsAbove {f : Forest} {free : List NodeId} (h : f.Linked free) (id : NodeId) :
    f.EndsAbove id := by
  obtain ⟨left, hleft⟩ : ∃ left, f.size ≤ id + left := ⟨f.size, Nat.le_add_left _ _⟩
  induction left generalizing id with
  | zero => exact endsAbove_of_top (parent?_eq_none_of_size_le hleft)
  | succ left ih =>
    cases hparent : f.parent? id with
    | none => exact endsAbove_of_top hparent
    | some parent =>
      exact (ih parent (h.size_le_parent_add hparent hleft)).below hparent

theorem Linked.linksAgree {f : Forest} {root : NodeId} (h : f.Linked [root]) :
    f.LinksAgree root where
  parent_iff := h.parent_iff
  once := fun parent _ hmem => List.count_eq_one_of_mem (h.nodup_children parent) hmem
  child_lt := by
    intro parent child hchild
    obtain ⟨shape, hshape, -⟩ := mem_children_iff.1 hchild
    exact Nat.lt_trans (h.child_lt parent child hchild) (lt_size_of_shape? hshape)
  ends := h.endsAbove
  root_lt := h.free_lt root List.mem_cons_self
  parent?_root := by
    rw [Option.eq_none_iff_forall_ne_some]
    intro parent hparent
    exact h.not_mem_references List.mem_cons_self
      (mem_references_iff.2 ⟨parent, (h.parent_iff root parent).1 hparent⟩)

/-! ### Names -/

namespace NamesNode

variable {f f' : Forest} {function : NodeId} {name : String} {node : Node} {role : FunctionRole}
  {parts : FunctionParts NodeId}

theorem parent?_eq (h : f.NamesNode function name node role parts f') (id : NodeId) :
    f'.parent? id = if id = f.size then some function else f.parent? id := by
  rw [parent?, parent?]
  split
  · next hid =>
    rw [hid, h.node?_name]
    rfl
  · next hid =>
    by_cases hfunction : id = function
    · rw [hfunction, h.node?_named, h.node?_self]
      rfl
    · rw [h.node?_other id hfunction hid]

theorem children_eq (h : f.NamesNode function name node role parts f') (id : NodeId) :
    f'.children id = if id = function then f.size :: f.children function else f.children id := by
  split
  · next hid =>
    have hold : f.shape? function = some (.function role parts) := by
      rw [shape?, h.node?_self, Option.map_some, h.shape_eq]
    have hnew : f'.shape? function = some (.function role { parts with name := some f.size }) := by
      rw [shape?, h.node?_named]
      rfl
    rw [hid, children, children, hold, hnew]
    simp [ShapeOf.children, h.anonymous]
  · next hid =>
    by_cases hsize : id = f.size
    · have hnew : f'.shape? f.size = some (.identifier name) := by
        rw [shape?, h.node?_name]
        rfl
      rw [hsize, children_size, children, hnew]
      rfl
    · rw [children, children, shape?, shape?, h.node?_other id hid hsize]

end NamesNode

/-! ### Changes -/

namespace LinksAgree

variable {f f' : Forest} {root : NodeId}

theorem parent_lt (h : f.LinksAgree root) {id parent : NodeId}
    (hparent : f.parent? id = some parent) : parent < f.size := by
  obtain ⟨shape, hshape, -⟩ := mem_children_iff.1 ((h.parent_iff id parent).1 hparent)
  exact lt_size_of_shape? hshape

theorem not_mem_children_size (h : f.LinksAgree root) (id : NodeId) : f.size ∉ f.children id :=
  fun hmem => Nat.lt_irrefl _ (h.child_lt id f.size hmem)

/-- An identifier that stands alone is a tree of its own. -/
theorem addIdentifier (h : f.LinksAgree root) (start stop : Nat) (text : String) :
    (f.add start stop (.identifier text)).LinksAgree root := by
  have hparent : ∀ id, (f.add start stop (.identifier text)).parent? id = f.parent? id := by
    intro id
    rw [parent?_add, if_neg]
    exact fun hmem => List.not_mem_nil hmem.1
  have hchildren : ∀ id, (f.add start stop (.identifier text)).children id = f.children id := by
    intro id
    rw [children_add]
    split
    · next hid => rw [hid, children_size, ShapeOf.children]
    · rfl
  constructor
  case parent_iff =>
    intro child parent
    rw [hparent, hchildren, h.parent_iff]
  case once =>
    intro parent
    rw [hchildren]
    exact h.once parent
  case child_lt =>
    intro parent child hchild
    rw [hchildren] at hchild
    rw [size_add]
    exact Nat.lt_succ_of_lt (h.child_lt parent child hchild)
  case ends =>
    intro id
    rcases Nat.lt_or_ge id f.size with hid | hid
    · exact (h.ends id).of_parent?_eq (fun id _ => hparent id) (fun _ _ => h.parent_lt) hid
    · exact endsAbove_of_top ((hparent id).trans (parent?_eq_none_of_size_le hid))
  case root_lt =>
    rw [size_add]
    exact Nat.lt_succ_of_lt h.root_lt
  case parent?_root => exact (hparent root).trans h.parent?_root

/-- The identifier that is attached stands under its function, in front of the other parts. -/
theorem attachName (h : f.LinksAgree root) {function : NodeId} {text : String}
    (hattach : f.attachName? function text = some f') : f'.LinksAgree root := by
  obtain ⟨node, role, parts, hnamed⟩ := exists_namesNode hattach
  have hfunction : function < f.size := (Array.getElem?_eq_some_iff.1 hnamed.node?_self).1
  have hkept : ∀ id, id < f.size → f'.parent? id = f.parent? id := by
    intro id hid
    rw [hnamed.parent?_eq, if_neg (Nat.ne_of_lt hid)]
  constructor
  case parent_iff =>
    intro child parent
    rw [hnamed.parent?_eq, hnamed.children_eq]
    by_cases hchild : child = f.size
    · rw [if_pos hchild, hchild, Option.some_inj]
      by_cases hparent : parent = function
      · simp [hparent]
      · simp [hparent, Ne.symm hparent, h.not_mem_children_size]
    · rw [if_neg hchild, h.parent_iff]
      by_cases hparent : parent = function
      · simp [hparent, hchild]
      · simp [hparent]
  case once =>
    intro parent child hchild
    rw [hnamed.children_eq] at hchild ⊢
    split at hchild
    · next hparent =>
      rw [if_pos hparent]
      rcases List.mem_cons.1 hchild with rfl | hchild
      · rw [List.count_cons_self, List.count_eq_zero.2 (h.not_mem_children_size function)]
      · have hne : f.size ≠ child := Nat.ne_of_gt (h.child_lt function child hchild)
        rw [List.count_cons_of_ne hne, h.once function child hchild]
    · next hparent =>
      rw [if_neg hparent]
      exact h.once parent child hchild
  case child_lt =>
    intro parent child hchild
    rw [hnamed.size_eq]
    rw [hnamed.children_eq] at hchild
    split at hchild
    · rcases List.mem_cons.1 hchild with rfl | hchild
      · exact Nat.lt_succ_self _
      · exact Nat.lt_succ_of_lt (h.child_lt function child hchild)
    · exact Nat.lt_succ_of_lt (h.child_lt parent child hchild)
  case ends =>
    have hold : ∀ id, id < f.size → f'.EndsAbove id := fun id hid =>
      (h.ends id).of_parent?_eq hkept (fun _ _ => h.parent_lt) hid
    intro id
    rcases Nat.lt_trichotomy id f.size with hid | hid | hid
    · exact hold id hid
    · refine (hold function hfunction).below ?_
      rw [hnamed.parent?_eq, if_pos hid]
    · exact endsAbove_of_top (parent?_eq_none_of_size_le (hnamed.size_eq ▸ hid))
  case root_lt =>
    rw [hnamed.size_eq]
    exact Nat.lt_succ_of_lt h.root_lt
  case parent?_root => exact (hkept root h.root_lt).trans h.parent?_root

theorem change (h : f.LinksAgree root) (c : Change) : (f.change c).LinksAgree root := by
  cases c with
  | identifier start stop text => exact h.addIdentifier start stop text
  | name function text =>
    cases hattach : f.attachName? function text with
    | none => simpa [Forest.change, hattach] using h
    | some f' => simpa [Forest.change, hattach] using h.attachName hattach

/-- Whatever changes follow each other, links and parts go on to agree. -/
theorem foldl_change (h : f.LinksAgree root) (changes : List Change) :
    (changes.foldl Forest.change f).LinksAgree root := by
  induction changes generalizing f with
  | nil => exact h
  | cons c changes ih => exact ih (h.change c)

end LinksAgree

end FunctionNaming.Forest

namespace FunctionNaming.Script

/-- Whatever a source text is and whatever happens to its forest afterwards, links and parts agree and
make trees of the nodes. After reading, parts have smaller numbers than what they are parts of. -/
theorem linksAgree_changed (file source : String) (changes : List Forest.Change) :
    (changes.foldl Forest.change (Script.parse file source).forest).LinksAgree
        (Script.parse file source).root ∧
      ∀ id, ∀ child ∈ (Script.parse file source).forest.children id, child < id :=
  ⟨(linked_parse file source).linksAgree.foldl_change changes, (linked_parse file source).child_lt⟩

/-- A function that receives two names, the second of which is refused. -/
theorem linksAgree_changed_function :
    ([Forest.Change.name 2 "b", .name 2 "c", .identifier 0 0 "d"].foldl Forest.change
        (Script.parse "test.js" "a = function()\x7b\x7d").forest).LinksAgree
          (Script.parse "test.js" "a = function()\x7b\x7d").root ∧
      1 ∈ (Script.parse "test.js" "a = function()\x7b\x7d").forest.children 2 ∧ 1 < 2 := by
  have hmem : 1 ∈ (Script.parse "test.js" "a = function()\x7b\x7d").forest.children 2 := by
    decide +kernel
  obtain ⟨hagree, hlt⟩ := linksAgree_changed "test.js" "a = function()\x7b\x7d"
    [.name 2 "b", .name 2 "c", .identifier 0 0 "d"]
  exact ⟨hagree, hmem, hlt 2 1 hmem⟩

end FunctionNaming.Script
