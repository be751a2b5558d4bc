import FunctionNaming.Naming.Walk
import FunctionNaming.Proofs.Syntax.Linked

/-!
The nodes below a node, counted by levels, and what a walk sees of them: exactly those on the levels
that it reaches. In a forest whose links are in order no walk comes to a node twice, because two
different parts of a node have nothing below them in common.
-/

namespace FunctionNaming.Forest

/-- That `n` is a node `level` levels below `id`. A node is on level zero of itself. -/
inductive Below (f : Forest) : Nat → NodeId → NodeId → Prop
  | self {id : NodeId} : (f.shape? id).isSome → Below f 0 id id
  | part {level : Nat} {id child n : NodeId} :
      child ∈ f.children id → Below f level child n → Below f (level + 1) id n

theorem isSome_shape?_of_mem_children {f : Forest} {id child : NodeId}
    (h : child ∈ f.children id) : (f.shape? id).isSome := by
  obtain ⟨shape, hshape, -⟩ := mem_children_iff.1 h
  simp [hshape]

theorem Below.isSome_shape? {f : Forest} {level : Nat} {id n : NodeId} (h : f.Below level id n) :
    (f.shape? n).isSome := by
  induction h with
  | self h => exact h
  | part _ _ ih => exact ih

theorem Below.trans {f : Forest} {i j : Nat} {a b c : NodeId} (hab : f.Below i a b)
    (hbc : f.Below j b c) : f.Below (i + j) a c := by
  induction hab with
  | self => rwa [Nat.zero_add]
  | part hchild _ ih =>
    rw [Nat.add_right_comm]
    exact .part hchild (ih hbc)

/-- That `n` is `root` or stands anywhere below it. -/
def Contains (f : Forest) (root n : NodeId) : Prop := ∃ level, f.Below level root n

theorem Contains.part {f : Forest} {root id child : NodeId} {shape : Shape}
    (hid : f.Contains root id) (hshape : f.shape? id = some shape) (hchild : child ∈ shape.children)
    (hsome : (f.shape? child).isSome) : f.Contains root child := by
  obtain ⟨level, hbelow⟩ := hid
  have hmem : child ∈ f.children id := mem_children_iff.2 ⟨shape, hshape, hchild⟩
  exact ⟨level + 1, hbelow.trans (.part hmem (.self hsome))⟩

/-! ### Walks -/

theorem walkWithin_succ (f : Forest) (levels : Nat) (id : NodeId) :
    f.walkWithin (levels + 1) id =
      if (f.shape? id).isSome then id :: (f.children id).flatMap (f.walkWithin levels) else [] := by
  rw [walkWithin, children]
  cases f.shape? id <;> rfl

theorem walkWithin_of_shape? {f : Forest} {id : NodeId} {shape : Shape}
    (hshape : f.shape? id = some shape) (levels : Nat) :
    f.walkWithin (levels + 1) id = id :: shape.children.flatMap (f.walkWithin levels) := by
  rw [walkWithin, hshape]

/-- A walk sees what stands on the levels that it reaches, and nothing else. -/
theorem mem_walkWithin_iff {f : Forest} {levels : Nat} {id n : NodeId} :
    n ∈ f.walkWithin levels id ↔ ∃ level, level < levels ∧ f.Below level id n := by
  induction levels generalizing id with
  | zero => simp [walkWithin]
  | succ levels ih =>
    rw [walkWithin_succ]
    constructor
    · intro h
      split at h
      · next hid =>
        rcases List.mem_cons.1 h with rfl | h
        · exact ⟨0, Nat.succ_pos _, .self hid⟩
        · obtain ⟨child, hchild, hmem⟩ := List.mem_flatMap.1 h
          obtain ⟨level, hlevel, hbelow⟩ := ih.1 hmem
          exact ⟨level + 1, Nat.succ_lt_succ hlevel, .part hchild hbelow⟩
      · simp at h
    · rintro ⟨level, hlevel, hbelow⟩
      cases hbelow with
      | self hid =>
        rw [if_pos hid]
        exact List.mem_cons_self
      | part hchild hbelow =>
        rw [if_pos (isSome_shape?_of_mem_children hchild)]
        refine List.mem_cons_of_mem _ (List.mem_flatMap.2 ⟨_, hchild, ih.2 ?_⟩)
        exact ⟨_, Nat.lt_of_succ_lt_succ hlevel, hbelow⟩

/-- That an identifier with the text `text` stands `level` levels below `id`. -/
def Spells (f : Forest) (level : Nat) (id : NodeId) (text : String) : Prop :=
  ∃ n, f.Below level id n ∧ f.identifierText? (some n) = some text

theorem Below.spells {f : Forest} {i j : Nat} {a b : NodeId} {text : String} (hab : f.Below i a b)
    (hb : f.Spells j b text) : f.Spells (i + j) a text := by
  obtain ⟨n, hn, htext⟩ := hb
  exact ⟨n, hab.trans hn, htext⟩

theorem mem_identifierTexts_iff {f : Forest} {id : NodeId} {text : String} :
    text ∈ f.identifierTexts id ↔ ∃ level, level < maxWalkDepth ∧ f.Spells level id text := by
  rw [identifierTexts, List.mem_filterMap]
  constructor
  · rintro ⟨n, hmem, htext⟩
    obtain ⟨level, hlevel, hbelow⟩ := mem_walkWithin_iff.1 hmem
    exact ⟨level, hlevel, n, hbelow, htext⟩
  · rintro ⟨level, hlevel, n, hbelow, htext⟩
    exact ⟨n, mem_walkWithin_iff.2 ⟨level, hlevel, hbelow⟩, htext⟩

theorem mentions_iff {f : Forest} {id : NodeId} {text : String} :
    f.mentions id text = true ↔ ∃ level, level < maxWalkDepth ∧ f.Spells level id text := by
  rw [mentions, List.contains_iff_mem, mem_identifierTexts_iff]

theorem exists_below_of_mem_functions {f : Forest} {id function : NodeId}
    (h : function ∈ f.functions id) : ∃ level, level < maxWalkDepth ∧ f.Below level id function :=
  mem_walkWithin_iff.1 (List.mem_filter.1 h).1

/-- That no walk from a node visits a function. -/
def HasNoFunction (f : Forest) (id : NodeId) : Prop :=
  ∀ levels, (f.walkWithin levels id).filter (fun n => (f.shape? n).any ShapeOf.isFunctionLike) = []

theorem hasNoFunction_of_none {f : Forest} {id : NodeId} (h : f.shape? id = none) :
    f.HasNoFunction id := by
  intro levels
  cases levels with
  | zero => rfl
  | succ levels => simp [walkWithin, h]

theorem hasNoFunction_of_shape? {f : Forest} {id : NodeId} {shape : Shape}
    (hshape : f.shape? id = some shape) (hid : shape.isFunctionLike = false)
    (hparts : ∀ part ∈ shape.children, f.HasNoFunction part) : f.HasNoFunction id := by
  intro levels
  cases levels with
  | zero => rfl
  | succ levels =>
    rw [walkWithin_of_shape? hshape, List.filter_cons_of_neg (by simp [hshape, hid]),
      List.filter_flatMap, List.flatMap_eq_nil_iff]
    exact fun part hpart => hparts part hpart levels

/-! ### Trees -/

section

variable {f : Forest} {free : List NodeId}

/-- Every level goes down to smaller numbers. -/
theorem Linked.add_level_le (h : f.Linked free) {level : Nat} {id n : NodeId}
    (hn : f.Below level id n) : n + level ≤ id := by
  induction hn with
  | self => exact Nat.le_refl _
  | part hchild _ ih => exact Nat.lt_of_le_of_lt ih (h.child_lt _ _ hchild)

theorem Linked.le_of_below (h : f.Linked free) {level : Nat} {id n : NodeId}
    (hn : f.Below level id n) : n ≤ id :=
  Nat.le_trans (Nat.le_add_right n level) (h.add_level_le hn)

/-- The last link of a way down. -/
theorem Below.exists_parent {level : Nat} {id n : NodeId} (h : f.Below (level + 1) id n) :
    ∃ parent, f.Below level id parent ∧ n ∈ f.children parent := by
  induction level generalizing id with
  | zero =>
    cases h with
    | part hchild hbelow =>
      cases hbelow with
      | self => exact ⟨id, .self (isSome_shape?_of_mem_children hchild), hchild⟩
  | succ level ih =>
    cases h with
    | part hchild hbelow =>
      obtain ⟨parent, hparent, hn⟩ := ih hbelow
      exact ⟨parent, .part hchild hparent, hn⟩

theorem Linked.contains_part (h : f.Linked free) {root id child : NodeId} {shape : Shape}
    (hid : f.Contains root id) (hshape : f.shape? id = some shape) (hchild : child ∈ shape.children) :
    f.Contains root child := by
  have hmem : child ∈ f.children id := mem_children_iff.2 ⟨shape, hshape, hchild⟩
  have hlt := Nat.lt_trans (h.child_lt id child hmem) (lt_size_of_shape? hshape)
  refine hid.part hshape hchild ?_
  rw [Option.isSome_iff_ne_none, ne_eq, shape?_eq_none_iff]
  exact Nat.not_le_of_lt hlt

/-- The way up from a node below the root stays below the root. -/
theorem Linked.contains_parent {root : NodeId} (h : f.Linked [root]) {id parent : NodeId}
    (hid : f.Contains root id) (hparent : id ∈ f.children parent) : f.Contains root parent := by
  obtain ⟨level, hbelow⟩ := hid
  cases level with
  | zero =>
    cases hbelow with
    | self =>
      exact absurd (mem_references_iff.2 ⟨parent, hparent⟩) (h.not_mem_references List.mem_cons_self)
  | succ level =>
    obtain ⟨parent', hbelow, hmem⟩ := hbelow.exists_parent
    exact ⟨level, h.parent_unique hparent hmem ▸ hbelow⟩

/-- Two parts of a node have nothing below them in common. The way up from a common node is unique,
so the shorter of the two ways down would end the other at the node itself. -/
theorem Linked.eq_of_below (h : f.Linked free) {id c d n : NodeId} {j k : Nat}
    (hc : c ∈ f.children id) (hd : d ∈ f.children id) (hcn : f.Below j c n)
    (hdn : f.Below k d n) : c = d := by
  induction j generalizing n k with
  | zero =>
    cases hcn with
    | self =>
      cases k with
      | zero =>
        cases hdn with
        | self => rfl
      | succ k =>
        obtain ⟨parent, hparent, hmem⟩ := hdn.exists_parent
        obtain rfl := h.parent_unique hc hmem
        exact absurd (h.le_of_below hparent) (Nat.not_le_of_lt (h.child_lt _ _ hd))
  | succ j ih =>
    obtain ⟨p, hp, hpn⟩ := hcn.exists_parent
    cases k with
    | zero =>
      cases hdn with
      | self =>
        obtain rfl := h.parent_unique hd hpn
        exact absurd (h.le_of_below hp) (Nat.not_le_of_lt (h.child_lt _ _ hc))
    | succ k =>
      obtain ⟨q, hq, hqn⟩ := hdn.exists_parent
      obtain rfl := h.parent_unique hpn hqn
      exact ih hp hq

theorem Linked.nodup_children (h : f.Linked free) (id : NodeId) : (f.children id).Nodup := by
  cases hshape : f.shape? id with
  | none => simp [children, hshape]
  | some shape =>
    have hmem : id ∈ List.range f.size := List.mem_range.2 (lt_size_of_shape? hshape)
    refine List.Sublist.nodup ?_ h.nodup_references
    obtain ⟨before, after, hsplit⟩ := List.append_of_mem hmem
    rw [references, hsplit, List.flatMap_append, List.flatMap_cons]
    exact (List.sublist_append_left _ _).trans (List.sublist_append_right _ _)

/-- A walk comes to a node before it comes to anything below it. -/
theorem Linked.pairwise_walkWithin (h : f.Linked free) (levels : Nat) (id : NodeId) :
    (f.walkWithin levels id).Pairwise fun m n => ∀ level, ¬f.Below level n m := by
  induction levels generalizing id with
  | zero => exact List.Pairwise.nil
  | succ levels ih =>
    rw [walkWithin_succ]
    split
    · refine List.pairwise_cons.2 ⟨?_, List.pairwise_flatMap.2 ⟨fun child _ => ih child, ?_⟩⟩
      · intro n hn level hbelow
        obtain ⟨child, hchild, hwalk⟩ := List.mem_flatMap.1 hn
        obtain ⟨depth, -, hdepth⟩ := mem_walkWithin_iff.1 hwalk
        have hle : id ≤ child := Nat.le_trans (h.le_of_below hbelow) (h.le_of_below hdepth)
        exact absurd hle (Nat.not_le_of_lt (h.child_lt _ _ hchild))
      · refine List.Nodup.pairwise_of_forall_ne (h.nodup_children id) ?_
        intro c hc d hd hne m hm n hn level hbelow
        obtain ⟨j, -, hj⟩ := mem_walkWithin_iff.1 hm
        obtain ⟨k, -, hk⟩ := mem_walkWithin_iff.1 hn
        exact hne (h.eq_of_below hc hd hj (hk.trans hbelow))
    · exact List.Pairwise.nil

/-- No walk comes to a node twice. -/
theorem Linked.nodup_walkWithin (h : f.Linked free) (levels : Nat) (id : NodeId) :
    (f.walkWithin levels id).Nodup := by
  refine (h.pairwise_walkWithin levels id).imp_of_mem ?_
  rintro m n - hn hbelow rfl
  obtain ⟨level, -, hlevel⟩ := mem_walkWithin_iff.1 hn
  exact hbelow 0 (.self hlevel.isSome_shape?)

/-- No function is listed twice. -/
theorem Linked.nodup_functions (h : f.Linked free) (id : NodeId) : (f.functions id).Nodup :=
  (h.nodup_walkWithin maxWalkDepth id).filter _

/-- No function is listed behind one that it contains. -/
theorem Linked.not_below_of_functions (h : f.Linked free) {id function n : NodeId}
    {before after : List NodeId} (hsplit : f.functions id = before ++ function :: after)
    (hn : n ∈ before) (level : Nat) : ¬f.Below level function n := by
  have hpairwise := (h.pairwise_walkWithin maxWalkDepth id).filter
    fun n => (f.shape? n).any ShapeOf.isFunctionLike
  have hfunctions : (f.functions id).Pairwise fun m n => ∀ level, ¬f.Below level n m := hpairwise
  rw [hsplit] at hfunctions
  exact (List.pairwise_append.1 hfunctions).2.2 n hn function List.mem_cons_self level

end

end FunctionNaming.Forest
