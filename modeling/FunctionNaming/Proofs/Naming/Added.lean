import FunctionNaming.Proofs.Naming.Attach

/-!
What a pass leaves of a forest, seen from before the pass. The nodes that were there have their
places, links and shapes, except that functions may have a name now; the nodes that have come are
identifiers, which have no parts. So walks find the same functions in both forests, whatever texts
the names have.
-/

namespace FunctionNaming.Forest

/-- That `g` is `f` with more identifiers, some of which are the names of functions that had none. -/
structure AddsNames (f g : Forest) : Prop where
  size_le : f.size ≤ g.size
  node?_old : ∀ id node, f.node? id = some node →
    g.node? id = some node ∨
      ∃ role parts n, node.shape = .function role parts ∧ parts.name = none ∧ f.size ≤ n ∧
        n < g.size ∧
        g.node? id = some { node with shape := .function role { parts with name := some n } }
  shape?_new : ∀ n shape, f.size ≤ n → g.shape? n = some shape → ∃ text, shape = .identifier text

theorem exists_node?_of_lt {f : Forest} {id : NodeId} (h : id < f.size) :
    ∃ node, f.node? id = some node :=
  ⟨f.nodes[id], Array.getElem?_eq_getElem h⟩

theorem shape?_of_node? {f : Forest} {id : NodeId} {node : Node} (h : f.node? id = some node) :
    f.shape? id = some node.shape := by
  rw [shape?, h, Option.map_some]

namespace AddsNames

theorem refl (f : Forest) : f.AddsNames f where
  size_le := Nat.le_refl _
  node?_old := fun _ _ h => .inl h
  shape?_new := fun _ _ hn h => absurd (lt_size_of_shape? h) (Nat.not_lt_of_le hn)

theorem trans {f g k : Forest} (hfg : f.AddsNames g) (hgk : g.AddsNames k) : f.AddsNames k where
  size_le := Nat.le_trans hfg.size_le hgk.size_le
  node?_old := by
    intro id node hnode
    rcases hfg.node?_old id node hnode with hsame | ⟨role, parts, n, hshape, hnone, hn, hlt, hnamed⟩
    · rcases hgk.node?_old id node hsame with hsame' | ⟨role, parts, n, hshape, hnone, hn, hrest⟩
      · exact .inl hsame'
      · exact .inr ⟨role, parts, n, hshape, hnone, Nat.le_trans hfg.size_le hn, hrest⟩
    · rcases hgk.node?_old id _ hnamed with hkept | ⟨role', parts', n', hshape', hnone', -⟩
      · exact .inr ⟨role, parts, n, hshape, hnone, hn, Nat.lt_of_lt_of_le hlt hgk.size_le, hkept⟩
      · -- a function that has a name gets no other
        cases hshape'
        cases hnone'
  shape?_new := by
    intro n shape hn hshape
    rcases Nat.lt_or_ge n g.size with hlt | hge
    · obtain ⟨node, hnode⟩ := exists_node?_of_lt hlt
      obtain ⟨text, htext⟩ := hfg.shape?_new n node.shape hn (shape?_of_node? hnode)
      rcases hgk.node?_old n node hnode with hsame | ⟨role, parts, _, hfunction, -⟩
      · rw [shape?_of_node? hsame] at hshape
        exact ⟨text, (Option.some.inj hshape).symm.trans htext⟩
      · rw [htext] at hfunction
        cases hfunction
    · exact hgk.shape?_new n shape hge hshape

theorem of_attachName? {f g : Forest} {function : NodeId} {name : String}
    (h : f.attachName? function name = some g) : f.AddsNames g := by
  obtain ⟨node, role, parts, hnamed⟩ := exists_namesNode h
  refine ⟨by rw [hnamed.size_eq]; exact Nat.le_succ _, ?_, ?_⟩
  · intro id old hold
    have hid : id < f.size := (Array.getElem?_eq_some_iff.1 hold).1
    by_cases hfunction : id = function
    · subst hfunction
      obtain rfl := Option.some.inj (hold.symm.trans hnamed.node?_self)
      exact .inr ⟨role, parts, f.size, hnamed.shape_eq, hnamed.anonymous, Nat.le_refl _,
        by rw [hnamed.size_eq]; exact Nat.lt_succ_self _, hnamed.node?_named⟩
    · exact .inl ((hnamed.node?_other id hfunction (Nat.ne_of_lt hid)).trans hold)
  · intro n shape hn hshape
    have hlt := lt_size_of_shape? hshape
    rw [hnamed.size_eq] at hlt
    obtain rfl : n = f.size := Nat.le_antisymm (Nat.le_of_lt_succ hlt) hn
    rw [shape?, hnamed.node?_name] at hshape
    exact ⟨name, (Option.some.inj hshape).symm⟩

section

variable {f g : Forest} (h : f.AddsNames g)

include h

theorem parent?_eq {id : NodeId} (hid : id < f.size) : g.parent? id = f.parent? id := by
  obtain ⟨node, hnode⟩ := exists_node?_of_lt hid
  rw [parent?, parent?, hnode]
  rcases h.node?_old id node hnode with hsame | ⟨_, _, _, -, -, -, -, hnamed⟩
  · rw [hsame]
  · rw [hnamed]
    rfl

/-- A node keeps its shape, unless it is a function that gets a name. -/
theorem shape?_cases {id : NodeId} {shape : Shape} (hshape : f.shape? id = some shape) :
    g.shape? id = some shape ∨
      ∃ role parts n, shape = .function role parts ∧ parts.name = none ∧ f.size ≤ n ∧ n < g.size ∧
        g.shape? id = some (.function role { parts with name := some n }) := by
  obtain ⟨node, hnode, rfl⟩ := Option.map_eq_some_iff.1 hshape
  rcases h.node?_old id node hnode with hsame | ⟨role, parts, n, hfunction, hnone, hn, hlt, hnamed⟩
  · exact .inl (shape?_of_node? hsame)
  · exact .inr ⟨role, parts, n, hfunction, hnone, hn, hlt, shape?_of_node? hnamed⟩

/-- What is no function keeps its shape, and nothing gets the shape of anything else. -/
theorem shape?_eq_some_iff {id : NodeId} (hid : id < f.size) {shape : Shape}
    (hnot : shape.isFunctionLike = false) :
    g.shape? id = some shape ↔ f.shape? id = some shape := by
  obtain ⟨node, hnode⟩ := exists_node?_of_lt hid
  have hold := shape?_of_node? hnode
  rcases h.shape?_cases hold with hsame | ⟨role, parts, n, hfunction, -, -, -, hnamed⟩
  · rw [hsame, hold]
  · rw [hold, hnamed, hfunction]
    constructor
    · rintro ⟨⟩
      cases hnot
    · rintro ⟨⟩
      cases hnot

/-- The parts of a node, with its name if it has got one. -/
theorem mem_children_cases {id child : NodeId} (hid : id < f.size) (hchild : child ∈ g.children id) :
    child ∈ f.children id ∨ f.size ≤ child ∧ child < g.size := by
  obtain ⟨node, hnode⟩ := exists_node?_of_lt hid
  have hold := shape?_of_node? hnode
  obtain ⟨shape, hshape, hmem⟩ := mem_children_iff.1 hchild
  rcases h.shape?_cases hold with hsame | ⟨role, parts, n, hfunction, hnone, hn, hlt, hnamed⟩
  · obtain rfl := Option.some.inj (hshape.symm.trans hsame)
    exact .inl (mem_children_iff.2 ⟨_, hold, hmem⟩)
  · obtain rfl := Option.some.inj (hshape.symm.trans hnamed)
    rw [hfunction] at hold
    simp only [ShapeOf.children, Option.toList_some, List.cons_append, List.nil_append,
      List.mem_cons] at hmem
    rcases hmem with rfl | hmem
    · exact .inr ⟨hn, hlt⟩
    · refine .inl (mem_children_iff.2 ⟨_, hold, ?_⟩)
      rw [ShapeOf.children, hnone]
      exact hmem

/-! ### Walks -/

/-- What has come is passed by when functions are looked for. -/
theorem hasNoFunction_new {n : NodeId} (hn : f.size ≤ n) : g.HasNoFunction n := by
  cases hshape : g.shape? n with
  | none => exact hasNoFunction_of_none hshape
  | some shape =>
    obtain ⟨text, rfl⟩ := h.shape?_new n shape hn hshape
    exact hasNoFunction_of_shape? hshape rfl (by simp [ShapeOf.children])

theorem filter_walkWithin_eq (levels : Nat) (id : NodeId) :
    (g.walkWithin levels id).filter (fun n => (g.shape? n).any ShapeOf.isFunctionLike) =
      (f.walkWithin levels id).filter fun n => (f.shape? n).any ShapeOf.isFunctionLike := by
  induction levels generalizing id with
  | zero => rfl
  | succ levels ih =>
    cases hshape : f.shape? id with
    | none =>
      rw [h.hasNoFunction_new (shape?_eq_none_iff.1 hshape)]
      simp [walkWithin, hshape]
    | some shape =>
      rcases h.shape?_cases hshape with hsame | ⟨role, parts, n, rfl, hnone, hn, -, hnamed⟩
      · simp only [walkWithin, hsame, hshape, List.filter_cons, List.filter_flatMap, ih]
      · have hname := h.hasNoFunction_new hn levels
        simp only [walkWithin, hnamed, hshape, List.filter_cons, List.filter_flatMap,
          ShapeOf.children, hnone, Option.toList_some, Option.toList_none, List.nil_append,
          List.cons_append, List.flatMap_cons, List.filter_append, hname, ih, Option.any_some,
          ShapeOf.isFunctionLike, ↓reduceIte]

/-- The functions of both forests are the same. -/
theorem functions_eq (id : NodeId) : g.functions id = f.functions id :=
  h.filter_walkWithin_eq maxWalkDepth id

end

end AddsNames

/-! ### Passes -/

section

variable {σ : Type} {visit : σ → NodeId → σ} {forest : σ → Forest}

/-- That a visit does nothing to the forest, or exactly what attaching a name does. -/
def VisitsName (visit : σ → NodeId → σ) (forest : σ → Forest) : Prop :=
  ∀ s function, forest (visit s function) = forest s ∨
    ∃ name, (forest s).attachName? function name = some (forest (visit s function))

theorem VisitsName.visitsAttach (h : VisitsName visit forest) : VisitsAttach visit forest := by
  intro s function
  rcases h s function with heq | ⟨name, hattach⟩
  · exact .inl heq
  · exact .inr ⟨name, attaches_of_attachName? hattach⟩

theorem VisitsName.addsNames_foldl (h : VisitsName visit forest) (functions : List NodeId) (s : σ) :
    (forest s).AddsNames (forest (functions.foldl visit s)) := by
  induction functions generalizing s with
  | nil => exact .refl _
  | cons function functions ih =>
    have hvisit : (forest s).AddsNames (forest (visit s function)) := by
      rcases h s function with heq | ⟨name, hattach⟩
      · rw [heq]
        exact .refl _
      · exact .of_attachName? hattach
    exact hvisit.trans (ih _)

end

end FunctionNaming.Forest
