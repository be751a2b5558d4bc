import FunctionNaming.Syntax.Forest

/-!
What the two operations on forests do to shapes and links. `add` gives the new number its shape and
turns the links of the new node's parts. `attachName?` gives a result for exactly the function
expressions and declarations without a name, and then changes the name of this one function.
-/

namespace FunctionNaming.Forest

theorem parent?_eq_none_of_size_le {f : Forest} {id : NodeId} (h : f.size ≤ id) :
    f.parent? id = none := by
  have hnode : f.node? id = none := Array.getElem?_eq_none h
  rw [parent?, hnode]
  rfl

theorem mem_children_iff {f : Forest} {id child : NodeId} :
    child ∈ f.children id ↔ ∃ shape, f.shape? id = some shape ∧ child ∈ shape.children := by
  rw [children]
  cases f.shape? id <;> simp

theorem children_size (f : Forest) : f.children f.size = [] := by
  rw [children, shape?_eq_none_iff.2 (Nat.le_refl _)]

/-! ### Links -/

theorem node?_setParent (f : Forest) (child parent id : NodeId) :
    (f.setParent child parent).node? id =
      if id = child then (f.node? id).map fun n => { n with parent := some parent }
      else f.node? id := by
  rw [node?, setParent, Array.getElem?_modify]
  by_cases hid : id = child
  · rw [if_pos hid.symm, if_pos hid]
    rfl
  · rw [if_neg (Ne.symm hid), if_neg hid]
    rfl

theorem parent?_setParent (f : Forest) (child parent id : NodeId) :
    (f.setParent child parent).parent? id =
      if id = child ∧ id < f.size then some parent else f.parent? id := by
  rw [parent?, parent?, node?_setParent]
  by_cases hid : id = child
  · by_cases hlt : id < f.size
    · have hnode : f.node? id = some f.nodes[id] := Array.getElem?_eq_getElem hlt
      rw [if_pos hid, if_pos ⟨hid, hlt⟩, hnode]
      rfl
    · have hnone : f.node? id = none := Array.getElem?_eq_none (Nat.le_of_not_lt hlt)
      rw [if_pos hid, if_neg (fun h => hlt h.2), hnone]
      rfl
  · rw [if_neg hid, if_neg fun h => hid h.1]

theorem parent?_setParents (f : Forest) (parent : NodeId) (children : List NodeId)
    (id : NodeId) :
    (f.setParents parent children).parent? id =
      if id ∈ children ∧ id < f.size then some parent else f.parent? id := by
  induction children generalizing f with
  | nil => simp [setParents]
  | cons c cs ih =>
    have hcons : f.setParents parent (c :: cs) = (f.setParent c parent).setParents parent cs := rfl
    rw [hcons, ih, parent?_setParent, size_setParent]
    by_cases hcs : id ∈ cs ∧ id < f.size
    · rw [if_pos hcs, if_pos ⟨List.mem_cons_of_mem c hcs.1, hcs.2⟩]
    · rw [if_neg hcs]
      by_cases hc : id = c ∧ id < f.size
      · rw [if_pos hc, if_pos ⟨List.mem_cons.2 (.inl hc.1), hc.2⟩]
      · rw [if_neg hc, if_neg]
        rintro ⟨hmem, hlt⟩
        rcases List.mem_cons.1 hmem with heq | hmem
        · exact hc ⟨heq, hlt⟩
        · exact hcs ⟨hmem, hlt⟩

/-! ### A new node -/

theorem parent?_push (nodes : Array Node) (node : Node) (id : NodeId) :
    (Forest.mk (nodes.push node)).parent? id =
      if id = nodes.size then node.parent else (Forest.mk nodes).parent? id := by
  rw [parent?, parent?, node?, node?, Array.getElem?_push]
  split <;> rfl

theorem parent?_add (f : Forest) (start stop : Nat) (shape : Shape) (id : NodeId) :
    (f.add start stop shape).parent? id =
      if id ∈ shape.children ∧ id ≤ f.size then some f.size else f.parent? id := by
  have hsize : (Forest.mk (f.nodes.push ⟨start, stop, none, shape⟩)).size = f.size + 1 := by
    simp [size]
  have hpush : (Forest.mk (f.nodes.push ⟨start, stop, none, shape⟩)).parent? id = f.parent? id := by
    rw [parent?_push]
    split
    · next hid => exact (parent?_eq_none_of_size_le (Nat.le_of_eq hid.symm)).symm
    · rfl
  rw [add, parent?_setParents, hpush, hsize]
  simp only [Nat.lt_succ_iff]

/-! ### A name -/

/-- A node without parts turns no link. -/
theorem node?_add_leaf {shape : Shape} (h : shape.children = []) (f : Forest) (start stop : Nat)
    (id : NodeId) :
    (f.add start stop shape).node? id =
      if id = f.size then some ⟨start, stop, none, shape⟩ else f.node? id := by
  have hadd : f.add start stop shape = ⟨f.nodes.push ⟨start, stop, none, shape⟩⟩ := by
    rw [add, h]
    rfl
  rw [hadd, node?, Array.getElem?_push]
  rfl

/-- What becomes of the nodes when a name is attached to the function `id`. -/
structure NamesNode (f : Forest) (id : NodeId) (name : String) (node : Node) (role : FunctionRole)
    (parts : FunctionParts NodeId) (f' : Forest) : Prop where
  node?_self : f.node? id = some node
  shape_eq : node.shape = .function role parts
  role_ne : role ≠ .arrow
  anonymous : parts.name = none
  size_eq : f'.size = f.size + 1
  node?_named : f'.node? id =
    some { node with shape := .function role { parts with name := some f.size } }
  node?_name : f'.node? f.size = some ⟨node.start, node.start, some id, .identifier name⟩
  node?_other : ∀ n, n ≠ id → n ≠ f.size → f'.node? n = f.node? n

theorem exists_namesNode {f f' : Forest} {id : NodeId} {name : String}
    (h : f.attachName? id name = some f') :
    ∃ node role parts, f.NamesNode id name node role parts f' := by
  rw [attachName?] at h
  split at h
  · next start stop parent role parts hnode =>
    split at h
    · cases h
    · next hrole =>
      obtain ⟨hrole, hname⟩ := not_or.1 hrole
      obtain rfl := Option.some.inj h
      have hlt : id < f.size := (Array.getElem?_eq_some_iff.1 hnode).1
      have hmodify : ∀ (g : Forest) (change : Node → Node) (n : NodeId),
          (Forest.mk (g.nodes.modify id change)).node? n =
            if n = id then (g.node? n).map change else g.node? n := by
        intro g change n
        rw [node?, Array.getElem?_modify]
        by_cases hn : n = id
        · rw [if_pos hn.symm, if_pos hn]
          rfl
        · rw [if_neg (Ne.symm hn), if_neg hn]
          rfl
      have hadded : ∀ n, ((f.add start start (.identifier name)).setParent f.size id).node? n =
          if n = f.size then some ⟨start, start, some id, .identifier name⟩ else f.node? n := by
        intro n
        rw [node?_setParent, node?_add_leaf rfl]
        split <;> rfl
      have hsize : ∀ (g : Forest) (change : Node → Node),
          (Forest.mk (g.nodes.modify id change)).size = g.size := by
        intro g change
        simp [size]
      refine ⟨_, role, parts, hnode, rfl, hrole, by simpa using hname, ?_, ?_, ?_, ?_⟩
      · rw [hsize, size_setParent, size_add]
      · rw [hmodify, if_pos rfl, hadded, if_neg (Nat.ne_of_lt hlt), hnode]
        rfl
      · rw [hmodify, if_neg (Nat.ne_of_gt hlt), hadded, if_pos rfl]
      · intro n hn hsize
        rw [hmodify, if_neg hn, hadded, if_neg hsize]
  · cases h

end FunctionNaming.Forest
