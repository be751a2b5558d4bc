import FunctionNaming.Path.Resolve
import FunctionNaming.Proofs.Syntax.Tree

/-!
What a forest keeps when functions receive names. A name is attached to a function expression or
declaration that has none, and the forest gets one identifier more. Nothing else changes, so every
node stays where it is, every identifier keeps its text, and every name that is there stays.
-/

namespace FunctionNaming.Forest

/-! ### The names of functions -/

/-- The place for the name of a function, if there is a name in it. -/
def nameSlot (f : Forest) (id : NodeId) : Slot :=
  match f.shape? id with
  | some (.function _ parts) => parts.name
  | _ => none

/-- The text of the name of a function. -/
def nameText? (f : Forest) (id : NodeId) : Option String := f.identifierText? (f.nameSlot id)

/-- That a node is a function expression without a name. -/
def IsAnonymous (f : Forest) (id : NodeId) : Prop :=
  ∃ parts, f.shape? id = some (.function .expression parts) ∧ parts.name = none

theorem IsAnonymous.nameSlot_eq_none {f : Forest} {id : NodeId} (h : f.IsAnonymous id) :
    f.nameSlot id = none := by
  obtain ⟨parts, hshape, hname⟩ := h
  rw [nameSlot, hshape]
  exact hname

theorem nameSlot_of_nameText? {f : Forest} {id : NodeId} {name : String}
    (h : f.nameText? id = some name) :
    ∃ n, f.nameSlot id = some n ∧ f.identifierText? (some n) = some name := by
  cases hslot : f.nameSlot id with
  | none =>
    rw [nameText?, hslot] at h
    cases h
  | some n =>
    rw [nameText?, hslot] at h
    exact ⟨n, rfl, h⟩

theorem identifierText?_eq_some_iff {f : Forest} {n : NodeId} {text : String} :
    f.identifierText? (some n) = some text ↔ f.shape? n = some (.identifier text) := by
  have hshape : f.shapeAt? (some n) = f.shape? n := rfl
  rw [identifierText?, hshape]
  constructor
  · intro h
    split at h
    · next heq =>
      cases h
      exact heq
    · cases h
  · intro h
    rw [h]

/-- Only function expressions without a name have a path. -/
theorem isAnonymous_of_pathOf {f : Forest} {id : NodeId} {path : Path} (h : f.pathOf id = .ok path) :
    f.IsAnonymous id := by
  rw [pathOf] at h
  split at h
  · next parts hshape =>
    split at h
    · cases h
    · next hname => exact ⟨parts, hshape, by simpa using hname⟩
  · cases h

/-! ### Attaching -/

/-- What attaching the name `name` to `id` makes of `f`. -/
structure Attaches (f : Forest) (id : NodeId) (name : String) (f' : Forest) : Prop where
  anonymous : f.nameSlot id = none
  size_eq : f'.size = f.size + 1
  shape?_self : ∃ role parts, f.shape? id = some (.function role parts) ∧
    f'.shape? id = some (.function role { parts with name := some f.size })
  shape?_new : f'.shape? f.size = some (.identifier name)
  shape?_other : ∀ n, n ≠ id → n ≠ f.size → f'.shape? n = f.shape? n

theorem attaches_of_attachName? {f f' : Forest} {id : NodeId} {name : String}
    (h : f.attachName? id name = some f') : f.Attaches id name f' := by
  obtain ⟨node, role, parts, hnamed⟩ := exists_namesNode h
  have hshape : f.shape? id = some (.function role parts) := by
    rw [shape?, hnamed.node?_self, Option.map_some, hnamed.shape_eq]
  refine ⟨?_, hnamed.size_eq, ⟨role, parts, hshape, ?_⟩, ?_, ?_⟩
  · rw [nameSlot, hshape]
    exact hnamed.anonymous
  · rw [shape?, hnamed.node?_named]
    rfl
  · rw [shape?, hnamed.node?_name]
    rfl
  · intro n hn hsize
    rw [shape?, shape?, hnamed.node?_other n hn hsize]

/-- A name can be attached where there is none. -/
theorem isSome_attachName? {f : Forest} {id : NodeId} (h : f.IsAnonymous id) (name : String) :
    (f.attachName? id name).isSome := by
  obtain ⟨parts, hshape, hname⟩ := h
  obtain ⟨⟨start, stop, parent, shape⟩, hnode, rfl⟩ := Option.map_eq_some_iff.1 hshape
  rw [attachName?, hnode]
  simp [hname]

namespace Attaches

variable {f f' : Forest} {id : NodeId} {name : String}

theorem nameSlot_self (h : f.Attaches id name f') : f'.nameSlot id = some f.size := by
  obtain ⟨role, parts, -, hshape⟩ := h.shape?_self
  rw [nameSlot, hshape]

theorem nameText?_self (h : f.Attaches id name f') : f'.nameText? id = some name := by
  rw [nameText?, h.nameSlot_self, identifierText?_eq_some_iff]
  exact h.shape?_new

/-- The other functions keep their names. -/
theorem nameSlot_other (h : f.Attaches id name f') {n : NodeId} (hn : n ≠ id) :
    f'.nameSlot n = f.nameSlot n := by
  by_cases hsize : n = f.size
  · subst hsize
    rw [nameSlot, nameSlot, h.shape?_new, shape?_eq_none_iff.2 (Nat.le_refl _)]
  · rw [nameSlot, nameSlot, h.shape?_other n hn hsize]

end Attaches

/-! ### Growth -/

/-- That `f'` is `f` with more nodes, where functions may have names that had none. -/
structure GrowsTo (f f' : Forest) : Prop where
  size_le : f.size ≤ f'.size
  children_subset : ∀ id, f.children id ⊆ f'.children id
  identifier : ∀ id text, f.shape? id = some (.identifier text) →
    f'.shape? id = some (.identifier text)
  nameSlot : ∀ id n, f.nameSlot id = some n → f'.nameSlot id = some n

theorem GrowsTo.refl (f : Forest) : f.GrowsTo f where
  size_le := Nat.le_refl _
  children_subset := fun _ => List.Subset.refl _
  identifier := fun _ _ h => h
  nameSlot := fun _ _ h => h

theorem GrowsTo.trans {f g k : Forest} (hfg : f.GrowsTo g) (hgk : g.GrowsTo k) : f.GrowsTo k where
  size_le := Nat.le_trans hfg.size_le hgk.size_le
  children_subset := fun id => List.Subset.trans (hfg.children_subset id) (hgk.children_subset id)
  identifier := fun id text h => hgk.identifier id text (hfg.identifier id text h)
  nameSlot := fun id n h => hgk.nameSlot id n (hfg.nameSlot id n h)

theorem Attaches.growsTo {f f' : Forest} {id : NodeId} {name : String}
    (h : f.Attaches id name f') : f.GrowsTo f' where
  size_le := by
    rw [h.size_eq]
    exact Nat.le_succ _
  children_subset := by
    intro n child hchild
    obtain ⟨shape, hshape, hmem⟩ := mem_children_iff.1 hchild
    by_cases hn : n = id
    · subst hn
      obtain ⟨role, parts, hold, hnew⟩ := h.shape?_self
      obtain rfl := Option.some.inj (hshape.symm.trans hold)
      have hname := h.anonymous
      rw [nameSlot, hold] at hname
      refine mem_children_iff.2 ⟨_, hnew, ?_⟩
      simp only [ShapeOf.children, List.mem_append] at hmem ⊢
      simp only [hname, Option.toList_none, List.not_mem_nil, false_or] at hmem
      rcases hmem with hmem | hmem
      · exact .inl (.inr hmem)
      · exact .inr hmem
    · have hlt := lt_size_of_shape? hshape
      exact mem_children_iff.2 ⟨shape, (h.shape?_other n hn (Nat.ne_of_lt hlt)).trans hshape, hmem⟩
  identifier := by
    intro n text hn
    have hlt := lt_size_of_shape? hn
    by_cases hid : n = id
    · obtain ⟨role, parts, hold, -⟩ := h.shape?_self
      rw [← hid, hn] at hold
      cases hold
    · rw [h.shape?_other n hid (Nat.ne_of_lt hlt), hn]
  nameSlot := by
    intro n slot hslot
    by_cases hn : n = id
    · rw [hn, h.anonymous] at hslot
      cases hslot
    · rw [h.nameSlot_other hn, hslot]

namespace GrowsTo

variable {f f' : Forest}

theorem isSome_shape? (h : f.GrowsTo f') {id : NodeId} (hid : (f.shape? id).isSome) :
    (f'.shape? id).isSome := by
  rw [Option.isSome_iff_ne_none, ne_eq, shape?_eq_none_iff, Nat.not_le] at hid ⊢
  exact Nat.lt_of_lt_of_le hid h.size_le

theorem below (h : f.GrowsTo f') {level : Nat} {id n : NodeId} (hn : f.Below level id n) :
    f'.Below level id n := by
  induction hn with
  | self hid => exact .self (h.isSome_shape? hid)
  | part hchild _ ih => exact .part (h.children_subset _ hchild) ih

theorem spells (h : f.GrowsTo f') {level : Nat} {id : NodeId} {text : String}
    (hspells : f.Spells level id text) : f'.Spells level id text := by
  obtain ⟨n, hn, htext⟩ := hspells
  rw [identifierText?_eq_some_iff] at htext
  exact ⟨n, h.below hn, identifierText?_eq_some_iff.2 (h.identifier n text htext)⟩

theorem nameText? (h : f.GrowsTo f') {id : NodeId} {name : String}
    (hname : f.nameText? id = some name) : f'.nameText? id = some name := by
  obtain ⟨n, hslot, htext⟩ := nameSlot_of_nameText? hname
  rw [identifierText?_eq_some_iff] at htext
  rw [Forest.nameText?, h.nameSlot id n hslot, identifierText?_eq_some_iff]
  exact h.identifier n name htext

end GrowsTo

/-! ### Passes

A pass visits functions one after the other. Its state holds a forest, and the visit of a function
attaches a name to this function or leaves the forest alone. -/

section

variable {σ : Type} {visit : σ → NodeId → σ} {forest : σ → Forest}

/-- That a visit does nothing to the forest but attach a name to the function that is visited. -/
def VisitsAttach (visit : σ → NodeId → σ) (forest : σ → Forest) : Prop :=
  ∀ s function, forest (visit s function) = forest s ∨
    ∃ name, (forest s).Attaches function name (forest (visit s function))

theorem VisitsAttach.growsTo_foldl (h : VisitsAttach visit forest) (functions : List NodeId)
    (s : σ) : (forest s).GrowsTo (forest (functions.foldl visit s)) := by
  induction functions generalizing s with
  | nil => exact .refl _
  | cons function functions ih =>
    have hvisit : (forest s).GrowsTo (forest (visit s function)) := by
      rcases h s function with heq | ⟨name, hattach⟩
      · rw [heq]
        exact .refl _
      · exact hattach.growsTo
    exact hvisit.trans (ih _)

/-- A visit gives a name to its own function only. -/
theorem VisitsAttach.nameSlot_of_ne (h : VisitsAttach visit forest) {function n : NodeId}
    (hn : n ≠ function) (s : σ) :
    (forest (visit s function)).nameSlot n = (forest s).nameSlot n := by
  rcases h s function with heq | ⟨name, hattach⟩
  · rw [heq]
  · exact hattach.nameSlot_other hn

theorem VisitsAttach.nameSlot_of_not_mem (h : VisitsAttach visit forest) {functions : List NodeId}
    {n : NodeId} (hn : n ∉ functions) (s : σ) :
    (forest (functions.foldl visit s)).nameSlot n = (forest s).nameSlot n := by
  induction functions generalizing s with
  | nil => rfl
  | cons function functions ih =>
    rw [List.mem_cons, not_or] at hn
    rw [List.foldl_cons, ih hn.2, h.nameSlot_of_ne hn.1]

theorem VisitsAttach.shape?_of_not_mem (h : VisitsAttach visit forest) {functions : List NodeId}
    {n : NodeId} (hn : n ∉ functions) {s : σ} (hsome : ((forest s).shape? n).isSome) :
    (forest (functions.foldl visit s)).shape? n = (forest s).shape? n := by
  induction functions generalizing s with
  | nil => rfl
  | cons function functions ih =>
    rw [List.mem_cons, not_or] at hn
    have hvisit : (forest (visit s function)).shape? n = (forest s).shape? n := by
      rcases h s function with heq | ⟨name, hattach⟩
      · rw [heq]
      · obtain ⟨shape, hshape⟩ := Option.isSome_iff_exists.1 hsome
        exact hattach.shape?_other n hn.1 (Nat.ne_of_lt (lt_size_of_shape? hshape))
    rw [List.foldl_cons, ih hn.2 (hvisit ▸ hsome), hvisit]

/-- Where no function has been visited, nothing has changed. -/
theorem VisitsAttach.below_of_below (h : VisitsAttach visit forest) {functions : List NodeId}
    {s : σ} {free : List NodeId} (hlinked : (forest s).Linked free) {level : Nat} {id n : NodeId}
    (hid : ((forest s).shape? id).isSome)
    (hunvisited : ∀ k m, (forest s).Below k id m → m ∉ functions)
    (hn : (forest (functions.foldl visit s)).Below level id n) : (forest s).Below level id n := by
  induction hn with
  | self => exact .self hid
  | @part level id child n hchild _ ih =>
    have hshape := h.shape?_of_not_mem (hunvisited 0 id (.self hid)) hid
    have hchild' : child ∈ (forest s).children id := by
      rw [children, hshape] at hchild
      exact hchild
    have hsome : ((forest s).shape? child).isSome := by
      obtain ⟨shape, hid'⟩ := Option.isSome_iff_exists.1 hid
      have hlt := Nat.lt_trans (hlinked.child_lt id child hchild') (lt_size_of_shape? hid')
      rw [Option.isSome_iff_ne_none, ne_eq, shape?_eq_none_iff]
      exact Nat.not_le_of_lt hlt
    exact .part hchild' (ih hsome fun k m hm => hunvisited (k + 1) m (.part hchild' hm))

theorem VisitsAttach.spells_of_spells (h : VisitsAttach visit forest) {functions : List NodeId}
    {s : σ} {free : List NodeId} (hlinked : (forest s).Linked free) {level : Nat} {id : NodeId}
    {text : String} (hid : ((forest s).shape? id).isSome)
    (hunvisited : ∀ k m, (forest s).Below k id m → m ∉ functions)
    (hspells : (forest (functions.foldl visit s)).Spells level id text) :
    (forest s).Spells level id text := by
  obtain ⟨n, hn, htext⟩ := hspells
  have hn' := h.below_of_below hlinked hid hunvisited hn
  rw [identifierText?_eq_some_iff,
    h.shape?_of_not_mem (hunvisited level n hn') hn'.isSome_shape?] at htext
  exact ⟨n, hn', identifierText?_eq_some_iff.2 htext⟩

/-- A function that has got a name in a pass got it when it was visited. -/
theorem VisitsAttach.exists_attaches (h : VisitsAttach visit forest) {functions : List NodeId}
    {s : σ} {function : NodeId} {name : String} (hnone : (forest s).nameSlot function = none)
    (hname : (forest (functions.foldl visit s)).nameText? function = some name) :
    ∃ before after, functions = before ++ function :: after ∧
      (forest (before.foldl visit s)).Attaches function name
        (forest (visit (before.foldl visit s) function)) := by
  induction functions generalizing s with
  | nil =>
    obtain ⟨n, hslot, -⟩ := nameSlot_of_nameText? hname
    rw [List.foldl_nil, hnone] at hslot
    cases hslot
  | cons visited functions ih =>
    rw [List.foldl_cons] at hname
    cases hslot : (forest (visit s visited)).nameSlot function with
    | none =>
      obtain ⟨before, after, rfl, hattach⟩ := ih hslot hname
      exact ⟨visited :: before, after, rfl, hattach⟩
    | some n =>
      -- the name came with this visit, so it is the visit of the function itself
      obtain rfl : function = visited := by
        by_contra hne
        rw [h.nameSlot_of_ne hne, hnone] at hslot
        cases hslot
      rcases h s function with heq | ⟨name', hattach⟩
      · rw [heq, hnone] at hslot
        cases hslot
      · have hlast := (h.growsTo_foldl functions (visit s function)).nameText? hattach.nameText?_self
        obtain rfl := Option.some.inj (hlast.symm.trans hname)
        exact ⟨[], functions, rfl, hattach⟩

end

end FunctionNaming.Forest
