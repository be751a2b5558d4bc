import FunctionNaming.Proofs.Grammar.Members

/-!
Where the nodes of a forest stand in the text, and what follows from the places of the parts of each
node: a node spans all that is below it, two nodes of which neither is below the other do not overlap,
and a walk comes to functions in the order in which they begin.

The last is not a matter of places alone. A method may begin with its name and an arrow function with
its parameter, so that something below begins where the function does. It takes the shapes of names
and parameters to see that this is no function.
-/

namespace FunctionNaming

/-- Where a node begins and where it ends. -/
structure Span where
  start : Nat
  stop : Nat

namespace ShapeOf

variable {ν : Type}

/-- Whether a shape with functions below it begins with a token of its own. An arrow function, which
has no name, may begin with its parameter if it has one. -/
def beginsItself : ShapeOf ν → Bool
  | function .arrow parts => parts.name.isSome || parts.parameters.isEmpty
  | function _ _ | accessor .. | classConstructor .. | computedName _ | pattern .. => true
  | _ => false

/-- Whether the shape may have no text: a hole never has, and a script need not. -/
def mayBeEmpty : ShapeOf ν → Bool
  | hole | script .. => true
  | _ => false

/-- Whether the shape can name a member or stand for what a binding binds. -/
def isNameLike : ShapeOf ν → Bool
  | identifier _ | stringLiteral .. | numberLiteral _ | computedName _ | pattern .. => true
  | _ => false

/-- What is named or bound has a text, is no function, and is a word, a literal or something that
brackets stand around. -/
theorem of_isNameLike {shape : ShapeOf ν} (h : shape.isNameLike = true) :
    shape.isFunctionLike = false ∧ shape.mayBeEmpty = false ∧
      (shape.children = [] ∨ shape.beginsItself = true) := by
  cases shape <;> first | exact ⟨rfl, rfl, .inl rfl⟩ | exact ⟨rfl, rfl, .inr rfl⟩ | cases h

theorem mayBeEmpty_eq_false_of_isFunctionLike {shape : ShapeOf ν}
    (h : shape.isFunctionLike = true) : shape.mayBeEmpty = false := by
  cases shape <;> first | rfl | cases h

end ShapeOf

namespace Forest

/-- The span of a node. -/
def span? (f : Forest) (id : NodeId) : Option Span :=
  (f.node? id).map fun n => ⟨n.start, n.stop⟩

theorem span?_setParent (f : Forest) (child parent id : NodeId) :
    (f.setParent child parent).span? id = f.span? id := by
  rw [span?, span?, node?_setParent]
  split
  · cases f.node? id <;> rfl
  · rfl

theorem span?_setParents (f : Forest) (parent : NodeId) (children : List NodeId) (id : NodeId) :
    (f.setParents parent children).span? id = f.span? id := by
  induction children generalizing f with
  | nil => rfl
  | cons c cs ih => exact (ih (f.setParent c parent)).trans (span?_setParent ..)

theorem span?_add (f : Forest) (start stop : Nat) (shape : Shape) (id : NodeId) :
    (f.add start stop shape).span? id = if id = f.size then some ⟨start, stop⟩ else f.span? id := by
  rw [add, span?_setParents, span?, span?, node?, Array.getElem?_push]
  split
  · next h => exact (if_pos h).symm
  · next h => exact (if_neg h).symm

theorem lt_size_of_span? {f : Forest} {id : NodeId} {span : Span} (h : f.span? id = some span) :
    id < f.size := by
  obtain ⟨node, hnode, -⟩ := Option.map_eq_some_iff.1 h
  exact (Array.getElem?_eq_some_iff.1 hnode).1

/-- That all nodes of `f` have the same spans in `f'`. -/
def KeepsSpans (f f' : Forest) : Prop :=
  ∀ id span, f.span? id = some span → f'.span? id = some span

theorem KeepsSpans.trans {f f' f'' : Forest} (h : f.KeepsSpans f') (h' : f'.KeepsSpans f'') :
    f.KeepsSpans f'' :=
  fun id span hspan => h' id span (h id span hspan)

theorem keepsSpans_add (f : Forest) (start stop : Nat) (shape : Shape) :
    f.KeepsSpans (f.add start stop shape) := by
  intro id span h
  rw [span?_add, if_neg (Nat.ne_of_lt (lt_size_of_span? h)), h]

/-! ### Nodes one behind the other -/

/-- That the nodes `ids` stand one behind the other between two offsets. -/
def Ordered (f : Forest) (hi : Nat) : Nat → List NodeId → Prop
  | _, [] => True
  | lo, id :: ids => ∃ span, f.span? id = some span ∧ lo ≤ span.start ∧ span.start ≤ span.stop ∧
      span.stop ≤ hi ∧ f.Ordered hi span.stop ids

section Ordered

variable {f f' : Forest} {lo lo' hi hi' : Nat} {ids ids' : List NodeId}

theorem Ordered.grow (hkeeps : f.KeepsSpans f') (h : f.Ordered hi lo ids) : f'.Ordered hi lo ids := by
  induction ids generalizing lo with
  | nil => trivial
  | cons id ids ih =>
    obtain ⟨span, hspan, hlo, hle, hhi, hrest⟩ := h
    exact ⟨span, hkeeps id span hspan, hlo, hle, hhi, ih hrest⟩

/-- The room may be larger. -/
theorem Ordered.widen (hlo : lo' ≤ lo) (hhi : hi ≤ hi') (h : f.Ordered hi lo ids) :
    f.Ordered hi' lo' ids := by
  induction ids generalizing lo lo' with
  | nil => trivial
  | cons id ids ih =>
    obtain ⟨span, hspan, hstart, hle, hstop, hrest⟩ := h
    exact ⟨span, hspan, hlo.trans hstart, hle, hstop.trans hhi, ih (Nat.le_refl _) hrest⟩

/-- Some of the nodes may be left out. -/
theorem Ordered.sublist (hsub : ids'.Sublist ids) (h : f.Ordered hi lo ids) :
    f.Ordered hi lo ids' := by
  induction hsub generalizing lo with
  | slnil => trivial
  | cons id _ ih =>
    obtain ⟨span, -, hlo, hle, -, hrest⟩ := h
    exact ih (hrest.widen (hlo.trans hle) (Nat.le_refl _))
  | cons_cons id _ ih =>
    obtain ⟨span, hspan, hlo, hle, hhi, hrest⟩ := h
    exact ⟨span, hspan, hlo, hle, hhi, ih hrest⟩

/-- What stands behind `mid` stands behind what ends there. -/
theorem Ordered.append {mid : Nat} (h : f.Ordered mid lo ids) (h' : f.Ordered hi lo' ids')
    (hmid : mid ≤ lo') (hlo : lo ≤ lo') (hhi : mid ≤ hi) : f.Ordered hi lo (ids ++ ids') := by
  induction ids generalizing lo with
  | nil => exact h'.widen hlo (Nat.le_refl _)
  | cons id ids ih =>
    obtain ⟨span, hspan, hstart, hle, hstop, hrest⟩ := h
    exact ⟨span, hspan, hstart, hle, hstop.trans hhi, ih hrest (hstop.trans hmid)⟩

theorem Ordered.exists_span (h : f.Ordered hi lo ids) {id : NodeId} (hid : id ∈ ids) :
    ∃ span, f.span? id = some span ∧ lo ≤ span.start ∧ span.start ≤ span.stop ∧ span.stop ≤ hi := by
  obtain ⟨span, hspan, hlo, hle, hhi, -⟩ := h.sublist (List.singleton_sublist.2 hid)
  exact ⟨span, hspan, hlo, hle, hhi⟩

/-- The first of the nodes stands before the others. -/
theorem Ordered.head_le {first id : NodeId} {x y : Span} (h : f.Ordered hi lo (first :: ids))
    (hid : id ∈ ids) (hx : f.span? first = some x) (hy : f.span? id = some y) :
    x.stop ≤ y.start := by
  obtain ⟨x', hx', -, -, -, hrest⟩ := h
  obtain ⟨y', hy', hle, -, -⟩ := hrest.exists_span hid
  obtain rfl := Option.some.inj (hx.symm.trans hx')
  obtain rfl := Option.some.inj (hy.symm.trans hy')
  exact hle

theorem Ordered.pairwise (h : f.Ordered hi lo ids) :
    ids.Pairwise fun a b => ∀ x y, f.span? a = some x → f.span? b = some y → x.stop ≤ y.start := by
  induction ids generalizing lo with
  | nil => exact List.Pairwise.nil
  | cons id ids ih =>
    refine List.pairwise_cons.2 ⟨fun b hb x y hx hy => h.head_le hb hx hy, ?_⟩
    obtain ⟨_, _, _, _, _, hrest⟩ := h
    exact ih hrest

end Ordered

/-! ### Nodes in their places -/

/-- That a node of a given span and shape is in its place: it stands between two offsets of `B`, has a
text unless its shape may have none, and its parts stand one behind the other inside it. -/
structure Placed (B : Nat → Prop) (f : Forest) (span : Span) (shape : Shape) : Prop where
  start : B span.start
  stop : B span.stop
  le : span.start ≤ span.stop
  lt : shape.mayBeEmpty = false → span.start < span.stop
  parts : f.Ordered span.stop (span.start + shape.beginsItself.toNat) shape.children

/-- That all nodes are in their places. -/
def AllPlaced (B : Nat → Prop) (f : Forest) : Prop :=
  ∀ id shape, f.shape? id = some shape → ∃ span, f.span? id = some span ∧ Placed B f span shape

variable {B : Nat → Prop} {f f' : Forest}

theorem Placed.grow {span : Span} {shape : Shape} (hkeeps : f.KeepsSpans f')
    (h : Placed B f span shape) : Placed B f' span shape :=
  { h with parts := h.parts.grow hkeeps }

/-- A new node in its place leaves the others in theirs. -/
theorem AllPlaced.add (h : AllPlaced B f) {start stop : Nat} {shape : Shape}
    (hnew : Placed B f ⟨start, stop⟩ shape) : AllPlaced B (f.add start stop shape) := by
  have hkeeps := f.keepsSpans_add start stop shape
  intro id shape' hshape
  by_cases hid : id = f.size
  · subst hid
    rw [shape?_add_self] at hshape
    obtain rfl := Option.some.inj hshape
    exact ⟨_, by rw [span?_add, if_pos rfl], hnew.grow hkeeps⟩
  · rw [shape?_add, if_neg hid] at hshape
    obtain ⟨span, hspan, hplaced⟩ := h id shape' hshape
    exact ⟨span, hkeeps id span hspan, hplaced.grow hkeeps⟩

/-- Parts stand inside what they are parts of. -/
theorem AllPlaced.exists_span_of_mem_children (h : AllPlaced B f) {id child : NodeId} {shape : Shape}
    {x : Span} (hshape : f.shape? id = some shape) (hx : f.span? id = some x)
    (hchild : child ∈ shape.children) :
    ∃ y, f.span? child = some y ∧ x.start + shape.beginsItself.toNat ≤ y.start ∧
      y.start ≤ y.stop ∧ y.stop ≤ x.stop := by
  obtain ⟨x', hx', hplaced⟩ := h id shape hshape
  obtain rfl := Option.some.inj (hx.symm.trans hx')
  exact hplaced.parts.exists_span hchild

/-- Parts are nodes of the forest. -/
theorem AllPlaced.contains_part (h : AllPlaced B f) {root id child : NodeId}
    (hid : f.Contains root id) (hchild : child ∈ f.children id) : f.Contains root child := by
  obtain ⟨level, hbelow⟩ := hid
  obtain ⟨shape, hshape, hmem⟩ := mem_children_iff.1 hchild
  obtain ⟨x, hx, -⟩ := h id shape hshape
  obtain ⟨y, hy, -⟩ := h.exists_span_of_mem_children hshape hx hmem
  obtain ⟨node, hnode, -⟩ := Option.map_eq_some_iff.1 hy
  have hsome : (f.shape? child).isSome := by rw [shape?, hnode]; rfl
  exact ⟨level + 1, hbelow.trans (.part hchild (.self hsome))⟩

/-- A node spans what is below it. -/
theorem AllPlaced.le_of_below (h : AllPlaced B f) {level : Nat} {id n : NodeId} {x y : Span}
    (hn : f.Below level id n) (hx : f.span? id = some x) (hy : f.span? n = some y) :
    x.start ≤ y.start ∧ y.stop ≤ x.stop := by
  induction hn generalizing x with
  | self =>
    obtain rfl := Option.some.inj (hx.symm.trans hy)
    exact ⟨Nat.le_refl _, Nat.le_refl _⟩
  | part hchild _ ih =>
    obtain ⟨shape, hshape, hmem⟩ := mem_children_iff.1 hchild
    obtain ⟨z, hz, hstart, -, hstop⟩ := h.exists_span_of_mem_children hshape hx hmem
    obtain ⟨hle, hge⟩ := ih hz hy
    exact ⟨by omega, hge.trans hstop⟩

theorem AllPlaced.exists_span_of_below (h : AllPlaced B f) {level : Nat} {id n : NodeId}
    (hn : f.Below level id n) : ∃ shape span, f.shape? n = some shape ∧ f.span? n = some span ∧
      Placed B f span shape := by
  obtain ⟨shape, hshape⟩ := Option.isSome_iff_exists.1 hn.isSome_shape?
  obtain ⟨span, hspan, hplaced⟩ := h n shape hshape
  exact ⟨shape, span, hshape, hspan, hplaced⟩

/-! ### Functions -/

/-- That the names of methods and the parameters of functions below a root are such that no function
begins where they do. -/
structure NamesPlain (f : Forest) (root : NodeId) : Prop where
  method : ∀ {n : NodeId} {isStatic isAsync isGenerator : Bool} {name body : Slot}
    {parameters : List NodeId}, f.Contains root n →
    f.shape? n = some (.method isStatic isAsync isGenerator name parameters body) →
    ∃ m shape, name = some m ∧ f.shape? m = some shape ∧ shape.isNameLike = true
  parameter : ∀ {n : NodeId} {role : FunctionRole} {parts : FunctionParts NodeId},
    f.Contains root n → f.shape? n = some (.function role parts) → ∀ p ∈ parts.parameters,
      ∃ isRest m value shape, f.shape? p = some (.parameter isRest (some m) value) ∧
        f.shape? m = some shape ∧ shape.isNameLike = true

/-- Whether a node is a function of any sort. -/
def isFunction (f : Forest) (id : NodeId) : Bool := (f.shape? id).any ShapeOf.isFunctionLike

theorem isFunction_iff {id : NodeId} {shape : Shape} (hshape : f.shape? id = some shape) :
    f.isFunction id = shape.isFunctionLike := by
  rw [isFunction, hshape, Option.any_some]

/-- A function below something that a name stands in front of begins behind its start. -/
theorem AllPlaced.lt_of_named (h : AllPlaced B f) {id name child n level : Nat}
    {rest : List NodeId} {shape nameShape : Shape} {x y : Span} (hshape : f.shape? id = some shape)
    (hchildren : shape.children = name :: rest) (hname : f.shape? name = some nameShape)
    (hplain : nameShape.isNameLike = true) (hchild : child ∈ shape.children)
    (hn : f.Below level child n) (hfunction : f.isFunction n = true) (hx : f.span? id = some x)
    (hy : f.span? n = some y) : x.start < y.start := by
  obtain ⟨hnot, htext, hbegins⟩ := ShapeOf.of_isNameLike hplain
  obtain ⟨x', hx', hplaced⟩ := h id shape hshape
  obtain rfl := Option.some.inj (hx.symm.trans hx')
  obtain ⟨z, hz, hnamePlaced⟩ := h name nameShape hname
  have hmem : name ∈ shape.children := hchildren ▸ List.mem_cons_self
  obtain ⟨z', hz', hstart, -, -⟩ := hplaced.parts.exists_span hmem
  obtain rfl := Option.some.inj (hz.symm.trans hz')
  have hlt := hnamePlaced.lt htext
  rw [hchildren] at hchild
  rcases List.mem_cons.1 hchild with rfl | hchild
  · -- The name itself is no function, and what is inside it is behind a bracket.
    cases hn with
    | self =>
      rw [isFunction_iff hname, hnot] at hfunction
      cases hfunction
    | part hpart hbelow =>
      obtain ⟨shape', hshape', hpart⟩ := mem_children_iff.1 hpart
      obtain rfl := Option.some.inj (hname.symm.trans hshape')
      rcases hbegins with hnil | hbegins
      · rw [hnil] at hpart
        cases hpart
      · obtain ⟨w, hw, hwstart, -, -⟩ := h.exists_span_of_mem_children hname hz hpart
        rw [hbegins] at hwstart
        have hle := (h.le_of_below hbelow hw hy).1
        simp only [Bool.toNat_true] at hwstart
        omega
  · have hparts := hplaced.parts
    rw [hchildren] at hparts
    obtain ⟨w, hw, -, -, -⟩ := hparts.exists_span (List.mem_cons_of_mem _ hchild)
    have hbehind := hparts.head_le hchild hz hw
    have hle := (h.le_of_below hn hw hy).1
    omega

/-- A function below something that a parameter stands in front of begins behind its start. -/
theorem AllPlaced.lt_of_parameter (h : AllPlaced B f) {id p name child n level : Nat}
    {rest : List NodeId} {isRest : Bool} {value : Slot} {shape nameShape : Shape} {x y : Span}
    (hshape : f.shape? id = some shape) (hchildren : shape.children = p :: rest)
    (hp : f.shape? p = some (.parameter isRest (some name) value))
    (hname : f.shape? name = some nameShape) (hplain : nameShape.isNameLike = true)
    (hchild : child ∈ shape.children) (hn : f.Below level child n)
    (hfunction : f.isFunction n = true) (hx : f.span? id = some x) (hy : f.span? n = some y) :
    x.start < y.start := by
  obtain ⟨z, hz, hpPlaced⟩ := h p _ hp
  obtain ⟨x', hx', hplaced⟩ := h id shape hshape
  obtain rfl := Option.some.inj (hx.symm.trans hx')
  have hparts := hplaced.parts
  rw [hchildren] at hparts hchild
  obtain ⟨z', hz', hstart, -, -⟩ := hparts.exists_span List.mem_cons_self
  obtain rfl := Option.some.inj (hz.symm.trans hz')
  have hlt := hpPlaced.lt rfl
  rcases List.mem_cons.1 hchild with rfl | hchild
  · cases hn with
    | self =>
      rw [isFunction_iff hp] at hfunction
      cases hfunction
    | part hpart hbelow =>
      obtain ⟨shape', hshape', hpart⟩ := mem_children_iff.1 hpart
      obtain rfl := Option.some.inj (hp.symm.trans hshape')
      have hbehind := h.lt_of_named hp rfl hname hplain hpart hbelow hfunction hz hy
      omega
  · obtain ⟨w, hw, -, -, -⟩ := hparts.exists_span (List.mem_cons_of_mem _ hchild)
    have hbehind := hparts.head_le hchild hz hw
    have hle := (h.le_of_below hn hw hy).1
    omega

/-- A function below a part of a function begins behind its start. -/
theorem AllPlaced.lt_of_below (h : AllPlaced B f) {root : NodeId} (hnames : f.NamesPlain root)
    {m child n level : Nat} {x y : Span} (hm : f.Contains root m) (hmf : f.isFunction m = true)
    (hchild : child ∈ f.children m) (hn : f.Below level child n) (hnf : f.isFunction n = true)
    (hx : f.span? m = some x) (hy : f.span? n = some y) : x.start < y.start := by
  obtain ⟨shape, hshape, hmem⟩ := mem_children_iff.1 hchild
  obtain ⟨z, hz, hstart, hle, -⟩ := h.exists_span_of_mem_children hshape hx hmem
  have hzy := (h.le_of_below hn hz hy).1
  rw [isFunction_iff hshape] at hmf
  by_cases hbegins : shape.beginsItself = true
  · rw [hbegins, Bool.toNat_true] at hstart
    omega
  · cases shape with
    | method isStatic isAsync isGenerator name parameters body =>
      obtain ⟨id, nameShape, rfl, hid, hplain⟩ := hnames.method hm hshape
      exact h.lt_of_named hshape rfl hid hplain hmem hn hnf hx hy
    | function role parts =>
      cases role with
      | arrow =>
        have hparameters := hnames.parameter hm hshape
        obtain ⟨isAsync, isGenerator, name, parameters, body⟩ := parts
        cases name with
        | some name => exact absurd rfl hbegins
        | none =>
          cases parameters with
          | nil => exact absurd rfl hbegins
          | cons p ps =>
            obtain ⟨isRest, id, value, nameShape, hp, hid, hplain⟩ :=
              hparameters p List.mem_cons_self
            exact h.lt_of_parameter hshape rfl hp hid hplain hmem hn hnf hx hy
      | _ => exact absurd rfl hbegins
    | accessor => exact absurd rfl hbegins
    | classConstructor => exact absurd rfl hbegins
    | _ => cases hmf

/-- A walk comes to functions in the order in which they begin. -/
theorem AllPlaced.pairwise_walkWithin (h : AllPlaced B f) {root : NodeId} (hnames : f.NamesPlain root)
    (levels : Nat) {id : NodeId} (hid : f.Contains root id) :
    (f.walkWithin levels id).Pairwise fun m n => f.isFunction m = true → f.isFunction n = true →
      ∀ x y, f.span? m = some x → f.span? n = some y → x.start < y.start := by
  induction levels generalizing id with
  | zero => exact List.Pairwise.nil
  | succ levels ih =>
    rw [walkWithin_succ]
    split
    · refine List.pairwise_cons.2 ⟨?_, List.pairwise_flatMap.2 ⟨fun child hchild => ?_, ?_⟩⟩
      · intro n hn hmf hnf x y hx hy
        obtain ⟨child, hchild, hwalk⟩ := List.mem_flatMap.1 hn
        obtain ⟨depth, -, hdepth⟩ := mem_walkWithin_iff.1 hwalk
        exact h.lt_of_below hnames hid hmf hchild hdepth hnf hx hy
      · exact ih (h.contains_part hid hchild)
      · -- What is below two parts stands in the order of the parts.
        obtain ⟨level, hbelow⟩ := hid
        obtain ⟨shape, span, hshape, -, hplaced⟩ := h.exists_span_of_below hbelow
        rw [children, hshape]
        refine hplaced.parts.pairwise.imp_of_mem ?_
        intro c d hc hd hcd m hm n hn hmf _ x y hx hy
        obtain ⟨j, -, hj⟩ := mem_walkWithin_iff.1 hm
        obtain ⟨k, -, hk⟩ := mem_walkWithin_iff.1 hn
        obtain ⟨u, hu, -⟩ := hplaced.parts.exists_span hc
        obtain ⟨v, hv, -⟩ := hplaced.parts.exists_span hd
        have hcd := hcd u v hu hv
        have hxu := (h.le_of_below hj hu hx).2
        have hvy := (h.le_of_below hk hv hy).1
        obtain ⟨shape', x', hshape', hx', hplaced'⟩ := h.exists_span_of_below hj
        obtain rfl := Option.some.inj (hx.symm.trans hx')
        rw [isFunction_iff hshape'] at hmf
        have hlt := hplaced'.lt (ShapeOf.mayBeEmpty_eq_false_of_isFunctionLike hmf)
        omega
    · exact List.Pairwise.nil

end Forest

end FunctionNaming
