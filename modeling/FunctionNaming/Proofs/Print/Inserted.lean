import FunctionNaming.Proofs.Naming.Attach
import FunctionNaming.Proofs.Print.Shape

/-!
Forests that differ in the names of function expressions only. They are printed alike: what is
written for a node is cut behind the words of the functions below it, in the order of a walk, and the
pieces are the same whatever the names are.
-/

namespace FunctionNaming.Forest

/-- That `g` is `f` in which some function expressions without names have received names, as new
nodes behind all others. Every other node is as it was. -/
def InsertsNames (f g : Forest) : Prop :=
  ∀ id node, f.node? id = some node →
    g.node? id = some node ∨
      ∃ parts n text, node.shape = .function .expression parts ∧ parts.name = none ∧ f.size ≤ n ∧
        g.node? id = some { node with shape := .function .expression { parts with name := some n } } ∧
        g.node? n = some ⟨node.start, node.start, some id, .identifier text⟩ ∧
        isWord text.toList = true

theorem InsertsNames.refl (f : Forest) : f.InsertsNames f := fun _ _ h => .inl h

/-- Whether a node is a function that is written with its word. -/
def isWorded (f : Forest) (id : NodeId) : Bool :=
  match f.shape? id with
  | some (.function .arrow _) => false
  | some (.function _ _) => true
  | _ => false

/-- The functions on the first `levels` levels below a node that are written with their word. -/
def wordedWithin (f : Forest) (levels : Nat) (id : NodeId) : List NodeId :=
  (f.walkWithin levels id).filter f.isWorded

/-- The functions below a node that are written with their word, in the order of the script. -/
def worded (f : Forest) (id : NodeId) : List NodeId := f.wordedWithin f.size id

theorem wordedWithin_succ {f : Forest} {id : NodeId} {shape : Shape} (h : f.shape? id = some shape)
    (levels : Nat) :
    f.wordedWithin (levels + 1) id =
      (if f.isWorded id then [id] else []) ++ shape.children.flatMap (f.wordedWithin levels) := by
  rw [wordedWithin, walkWithin, h]
  simp only [List.filter_cons, List.filter_flatMap]
  split <;> rfl

/-- A forest that is `f` with more names, and how many levels more than needed are laid out. -/
structure Edition (f : Forest) where
  forest : Forest
  inserts : f.InsertsNames forest
  surplus : Nat

variable {f : Forest}

namespace InsertsNames

variable {g : Forest} {id : NodeId} {shape : Shape}

theorem shape?_cases (h : f.InsertsNames g) (hshape : f.shape? id = some shape) :
    g.shape? id = some shape ∨
      ∃ parts n text, shape = .function .expression parts ∧ parts.name = none ∧
        g.shape? id = some (.function .expression { parts with name := some n }) ∧
        g.shape? n = some (.identifier text) ∧ isWord text.toList = true := by
  obtain ⟨node, hnode, rfl⟩ := Option.map_eq_some_iff.1 hshape
  rcases h id node hnode with hsame | ⟨parts, n, text, hfunction, hnone, -, hid, hn, hword⟩
  · exact .inl (by rw [shape?, hsame]; rfl)
  · exact .inr ⟨parts, n, text, hfunction, hnone, by rw [shape?, hid]; rfl, by rw [shape?, hn]; rfl,
      hword⟩

/-- What is not a function without a name keeps its shape. -/
theorem shape?_eq (h : f.InsertsNames g) (hshape : f.shape? id = some shape)
    (hnot : ∀ parts, shape ≠ .function .expression parts) : g.shape? id = some shape := by
  rcases h.shape?_cases hshape with hsame | ⟨parts, _, _, hfunction, _⟩
  · exact hsame
  · exact absurd hfunction (hnot parts)

theorem isHole_eq (h : f.InsertsNames g) (hshape : f.shape? id = some shape) :
    Layout.isHole g.shape? id = Layout.isHole f.shape? id := by
  rcases h.shape?_cases hshape with hsame | ⟨parts, n, text, rfl, -, hid, -, -⟩
  · rw [Layout.isHole, Layout.isHole, hsame, hshape]
  · rw [Layout.isHole, Layout.isHole, hid, hshape]

theorem isDeclaration_eq (h : f.InsertsNames g) (hshape : f.shape? id = some shape) :
    Layout.isDeclaration g.shape? (some id) = Layout.isDeclaration f.shape? (some id) := by
  rw [Layout.isDeclaration, Layout.isDeclaration, Option.bind_some, Option.bind_some]
  rcases h.shape?_cases hshape with hsame | ⟨parts, n, text, rfl, -, hid, -, -⟩
  · rw [hsame, hshape]
  · rw [hid, hshape]

end InsertsNames

/-! ### Nodes -/

/-- The parts of a function, where the name is the one that the forest has for it. -/
theorem InsertsNames.shape?_function {g : Forest} {id : NodeId} {role : FunctionRole}
    {parts : FunctionParts NodeId} (h : f.InsertsNames g)
    (hshape : f.shape? id = some (.function role parts)) :
    g.shape? id = some (.function role { parts with name := g.nameSlot id }) ∧
      (g.nameSlot id = parts.name ∨
        ∃ n text, g.nameSlot id = some n ∧ g.shape? n = some (.identifier text) ∧
          isWord text.toList = true) := by
  rcases h.shape?_cases hshape with hsame | ⟨parts', n, text, heq, -, hid, hn, hword⟩
  · have hslot : g.nameSlot id = parts.name := by rw [nameSlot, hsame]
    exact ⟨by rw [hslot]; exact hsame, .inl hslot⟩
  · cases heq
    have hslot : g.nameSlot id = some n := by rw [nameSlot, hid]
    exact ⟨by rw [hslot]; exact hid, .inr ⟨n, text, hslot, hn, hword⟩⟩

/-- An identifier is no function and has no parts. -/
theorem wordedWithin_identifier {id : NodeId} {text : String}
    (h : f.shape? id = some (.identifier text)) (levels : Nat) : f.wordedWithin levels id = [] := by
  cases levels with
  | zero => rfl
  | succ levels => simp [wordedWithin_succ h, isWorded, h, ShapeOf.children]

theorem layoutWithin_identifier {g : Forest} {n : NodeId} {text : String}
    (h : g.shape? n = some (.identifier text)) (quotes : QuoteStyle) {limit : Nat}
    (hlimit : 0 < limit) : g.layoutWithin quotes limit n = .text text := by
  obtain ⟨limit, rfl⟩ := Nat.exists_eq_succ_of_ne_zero (Nat.ne_of_gt hlimit)
  rw [layoutWithin, h]
  rfl

theorem exists_identifier_of_treeWithin {limit : Nat} {id : NodeId} {tree : SyntaxTree}
    (h : f.treeWithin limit id = some tree) (hlegible : tree.Legible)
    (hid : tree.isIdentifier = true) :
    ∃ text, f.shape? id = some (.identifier text) ∧ isWord text.toList = true := by
  obtain ⟨limit, shape, shape', hshape, hreplace, rfl⟩ := exists_shape?_of_treeWithin h
  have htext := ShapeOf.hasLegibleText_of_replace? hreplace (SyntaxTree.legible_node_iff.1 hlegible).1.1
  cases shape' <;> cases hid
  next text =>
  cases shape <;> simp only [ShapeOf.replace?.eq_def, Option.bind_eq_bind, Option.bind_eq_some_iff,
    Option.pure_def, Option.some.injEq, reduceCtorEq, and_false, exists_false] at hreplace
  cases hreplace
  exact ⟨text, hshape, htext⟩

section

variable (quotes : QuoteStyle) (limit : Nat)

/-- The name that an edition has for a function. -/
def Edition.name (i : f.Edition) (id : NodeId) : Option String := i.forest.nameText? id

/-- How an edition lays out a node. -/
def Edition.layout (i : f.Edition) (id : NodeId) : Layout :=
  i.forest.layoutWithin quotes (limit + i.surplus) id

theorem Edition.layout_succ {i : f.Edition} {id : NodeId} {shape : Shape}
    (h : i.forest.shape? id = some shape) :
    i.layout quotes (limit + 1) id =
      Layout.shape i.forest.shape? (i.layout quotes limit) quotes shape := by
  have hlimit : limit + 1 + i.surplus = limit + i.surplus + 1 := Nat.add_right_comm ..
  rw [layout, hlimit, layoutWithin, h]
  rfl

variable {quotes limit}

/-- That the nodes with trees are cut in all editions where their functions have names. -/
def CutsNodes (f : Forest) (quotes : QuoteStyle) (limit : Nat) : Prop :=
  ∀ id tree, f.treeWithin limit id = some tree → tree.Legible → ∀ leads : Bool,
    (leads = true → tree.Leads) →
      Cuts (Edition.name (f := f)) leads (fun i => i.layout quotes limit id)
        (f.wordedWithin limit id)

variable {id : NodeId} {shape : Shape} {shape' : ShapeOf SyntaxTree}

/-- The parts of a shape are cut if nodes are. -/
theorem CutsNodes.parts (h : f.CutsNodes quotes limit)
    (hreplace : shape.replace? (f.treeWithin limit) = some shape')
    (hlegible : ∀ tree ∈ shape'.children, tree.Legible) {p : NodeId} (hp : p ∈ shape.children) :
    CutsPart Edition.name (fun i : f.Edition => i.layout quotes limit) (f.wordedWithin limit)
      false p := by
  obtain ⟨tree, htree, hp⟩ := ShapeOf.exists_of_mem_mapM (ShapeOf.mapM_children hreplace) hp
  exact h p tree hp (hlegible tree htree) false fun h => absurd h Bool.false_ne_true

/-- Names do not make a hole of a part, and no part of a hole. -/
theorem sameHoles (hreplace : shape.replace? (f.treeWithin limit) = some shape') :
    Cuts.SameHoles (fun i : f.Edition => i.forest.shape?) f.shape? shape.children := by
  intro i p hp
  obtain ⟨tree, -, hp⟩ := ShapeOf.exists_of_mem_mapM (ShapeOf.mapM_children hreplace) hp
  obtain ⟨-, pshape, -, hshape, -⟩ := exists_shape?_of_treeWithin hp
  exact i.inserts.isHole_eq hshape

variable (quotes) in
/-- The name of a function, as all editions write it. -/
theorem write_name {role : FunctionRole} {parts : FunctionParts NodeId}
    (hshape : f.shape? id = some (.function role parts)) (hlimit : 0 < limit)
    (hname : ∀ n, parts.name = some n →
      ∃ text, f.shape? n = some (.identifier text) ∧ isWord text.toList = true) (i : f.Edition) :
    (∀ w, (Layout.afterSpace (i.layout quotes limit) (i.forest.nameSlot id)).write w =
      (Cuts.nameLayout (i.name id)).write w) ∧
      ∀ s, i.name id = some s → isWord s.toList = true := by
  have hslot : i.forest.nameSlot id = none ∨ ∃ n text, i.forest.nameSlot id = some n ∧
      i.forest.shape? n = some (.identifier text) ∧ isWord text.toList = true := by
    rcases (i.inserts.shape?_function hshape).2 with hsame | hnew
    · rw [hsame]
      cases hpart : parts.name with
      | none => exact .inl rfl
      | some n =>
        obtain ⟨text, hn, hword⟩ := hname n hpart
        exact .inr ⟨n, text, rfl, i.inserts.shape?_eq hn (by simp), hword⟩
    · exact .inr hnew
  rcases hslot with hnone | ⟨n, text, hsome, hn, hword⟩
  · have hnothing : i.name id = none := by
      rw [Edition.name, nameText?, hnone]
      rfl
    rw [hnone, hnothing]
    exact ⟨fun _ => rfl, by simp⟩
  · have htext : i.name id = some text := by
      rw [Edition.name, nameText?, hsome, identifierText?_eq_some_iff]
      exact hn
    have hlayout : i.layout quotes limit n = .text text :=
      layoutWithin_identifier hn quotes (Nat.add_pos_left hlimit _)
    rw [hsome, htext]
    refine ⟨fun w => ?_, ?_⟩
    · rw [Layout.afterSpace, hlayout]
      rfl
    · rintro s ⟨rfl⟩
      exact hword

/-- A function that is written with its word. -/
theorem CutsNodes.function (h : f.CutsNodes quotes limit) {role : FunctionRole}
    (hrole : role ≠ .arrow) {parts : FunctionParts NodeId}
    (hshape : f.shape? id = some (.function role parts))
    (hreplace : (ShapeOf.function role parts).replace? (f.treeWithin limit) = some shape')
    (hlegible : shape'.IsLegible) (hparts : ∀ tree ∈ shape'.children, tree.Legible)
    (leads : Bool) :
    Cuts Edition.name leads (fun i : f.Edition => i.layout quotes (limit + 1) id)
      (f.wordedWithin (limit + 1) id) := by
  have hcuts := fun p hp => h.parts hreplace hparts (p := p) hp
  have hholes := sameHoles hreplace
  simp only [ShapeOf.replace?.eq_def, Option.bind_eq_bind, Option.bind_eq_some_iff, Option.pure_def,
    Option.some.injEq] at hreplace
  obtain ⟨name, hname, parameters, -, body, hbody, rfl⟩ := hreplace
  obtain ⟨-, ⟨_, rfl⟩, hidentifier⟩ := hlegible
  have hlimit : 0 < limit := by
    cases hpart : parts.body with
    | none =>
      rw [hpart] at hbody
      cases hbody
    | some p =>
      rw [hpart, Option.mapM_some, Option.map_eq_map, Option.map_eq_some_iff] at hbody
      obtain ⟨tree, htree, -⟩ := hbody
      exact pos_of_treeWithin htree
  have hword : ∀ n, parts.name = some n →
      ∃ text, f.shape? n = some (.identifier text) ∧ isWord text.toList = true := by
    intro n hn
    rw [hn, Option.mapM_some, Option.map_eq_map, Option.map_eq_some_iff] at hname
    obtain ⟨tree, htree, rfl⟩ := hname
    exact exists_identifier_of_treeWithin htree (hparts tree (by simp [ShapeOf.children]))
      (hidentifier tree rfl)
  -- the name itself is no place for a name
  have hsites : f.wordedWithin (limit + 1) id =
      id :: (parts.parameters ++ parts.body.toList).flatMap (f.wordedWithin limit) := by
    have hworded : f.isWorded id = true := by
      rw [isWorded, hshape]
      cases role <;> first | rfl | exact absurd rfl hrole
    have hnone : parts.name.toList.flatMap (f.wordedWithin limit) = [] := by
      cases hn : parts.name with
      | none => rfl
      | some n =>
        obtain ⟨text, htext, -⟩ := hword n hn
        simp [wordedWithin_identifier htext]
    rw [wordedWithin_succ hshape, if_pos hworded, ShapeOf.children, List.append_assoc,
      List.flatMap_append, hnone]
    rfl
  have hwrite := write_name quotes hshape hlimit hword
  refine (cuts_function hrole leads (fun i => (hwrite i).1) (fun i => (hwrite i).2)
    (fun q hq => hcuts q ?_) (fun i q hq => hholes i q ?_)).congr hsites fun i w => ?_
  · simpa [ShapeOf.children, or_assoc] using Or.inr (List.mem_append.1 hq)
  · simp [ShapeOf.children, hq]
  · rw [Edition.layout_succ quotes limit (i.inserts.shape?_function hshape).1]
    rfl

/-- What is no function with its word keeps its shape. -/
theorem CutsNodes.other (h : f.CutsNodes quotes limit) (hshape : f.shape? id = some shape)
    (hfunction : ∀ role parts, shape = .function role parts → role = .arrow)
    (hreplace : shape.replace? (f.treeWithin limit) = some shape')
    (hlegible : shape'.IsLegible) (hparts : ∀ tree ∈ shape'.children, tree.Legible) {leads : Bool}
    (hleads : leads = true → (SyntaxTree.node shape').Leads) :
    Cuts Edition.name leads (fun i : f.Edition => i.layout quotes (limit + 1) id)
      (f.wordedWithin (limit + 1) id) := by
  have hnot : ∀ parts, shape ≠ .function .expression parts := by
    rintro parts rfl
    cases hfunction .expression parts rfl
  have hsites : f.wordedWithin (limit + 1) id =
      shape.children.flatMap (f.wordedWithin limit) := by
    have hworded : ¬f.isWorded id = true := by
      rw [isWorded, hshape]
      cases shape <;> first | exact Bool.false_ne_true | skip
      next role parts =>
      obtain rfl := hfunction role parts rfl
      exact Bool.false_ne_true
    rw [wordedWithin_succ hshape, if_neg hworded]
    rfl
  have hcut : CutsShape Edition.name (fun i : f.Edition => i.forest.shape?)
      (fun i => i.layout quotes limit) (f.wordedWithin limit) f.shape? shape := {
    parts := fun p hp => h.parts hreplace hparts hp
    text := ShapeOf.hasLegibleText_of_replace? hreplace hlegible.1
    holes := sameHoles hreplace
    declarations := by
      rintro i exported rfl
      cases exported with
      | none => rfl
      | some p =>
        obtain ⟨tree, -, hp⟩ := ShapeOf.exists_of_mem_mapM (ShapeOf.mapM_children hreplace)
          (a := p) (by simp [ShapeOf.children])
        obtain ⟨-, pshape, -, hpshape, -⟩ := exists_shape?_of_treeWithin hp
        exact i.inserts.isDeclaration_eq hpshape
    operand := by
      rintro left operator right rfl
      simp only [ShapeOf.replace?.eq_def, Option.bind_eq_bind, Option.bind_eq_some_iff,
        Option.pure_def, Option.some.injEq] at hreplace
      obtain ⟨left', -, right', hright, rfl⟩ := hreplace
      obtain ⟨-, tree, rfl, htree⟩ := hlegible
      cases right with
      | none => cases hright
      | some p =>
        rw [Option.mapM_some, Option.map_eq_map, Option.map_eq_some_iff] at hright
        obtain ⟨tree', hp, heq⟩ := hright
        obtain rfl := Option.some.inj heq
        exact ⟨p, rfl, h p tree' hp (hparts tree' (by simp [ShapeOf.children])) true fun _ => htree⟩
    arrow := by
      rintro parts rfl
      simp only [ShapeOf.replace?.eq_def, Option.bind_eq_bind, Option.bind_eq_some_iff,
        Option.pure_def, Option.some.injEq] at hreplace
      obtain ⟨name, hname, parameters, -, body, -, rfl⟩ := hreplace
      cases hn : parts.name with
      | none => rfl
      | some n =>
        rw [hn, Option.mapM_some, Option.map_eq_map, Option.map_eq_some_iff] at hname
        obtain ⟨tree, htree, rfl⟩ := hname
        obtain ⟨text, htext, -⟩ := exists_identifier_of_treeWithin htree
          (hparts tree (by simp [ShapeOf.children])) (hlegible.2.2 tree rfl)
        simp [wordedWithin_identifier htext] }
  refine (cuts_shape quotes hcut hfunction fun hl => ?_).congr hsites fun i w => ?_
  · rcases SyntaxTree.leads_node_iff.1 (hleads hl) with hopens | ⟨tree, hleft, htree⟩
    · exact .inl ((ShapeOf.opens_of_replace? hreplace).symm.trans hopens)
    · have hmap := ShapeOf.mapM_leftmost? hreplace
      cases hp : shape.leftmost? with
      | none =>
        rw [hp, hleft] at hmap
        cases hmap
      | some p =>
        rw [hp, hleft, Option.mapM_some, Option.map_eq_map, Option.map_eq_some_iff] at hmap
        obtain ⟨tree', hp', heq⟩ := hmap
        obtain rfl := Option.some.inj heq
        have hlegible' := hparts tree' (ShapeOf.mem_children_of_leftmost? hleft)
        exact .inr ⟨p, rfl, h p tree' hp' hlegible' true fun _ => htree⟩
  · rw [Edition.layout_succ quotes limit (i.inserts.shape?_eq hshape hnot)]

/-- All nodes are cut: the induction is on the height of their trees. -/
theorem cutsNodes (f : Forest) (quotes : QuoteStyle) (limit : Nat) : f.CutsNodes quotes limit := by
  induction limit with
  | zero =>
    intro id tree htree
    cases htree
  | succ limit ih =>
    intro id tree htree hlegible leads hleads
    obtain ⟨shape, shape', hshape, hreplace, rfl⟩ := treeWithin_succ_eq_some_iff.1 htree
    obtain ⟨hshape', hparts⟩ := SyntaxTree.legible_node_iff.1 hlegible
    by_cases hfunction : ∀ role parts, shape = .function role parts → role = .arrow
    · exact ih.other hshape hfunction hreplace hshape' hparts hleads
    · simp only [not_forall] at hfunction
      obtain ⟨role, parts, rfl, hrole⟩ := hfunction
      exact ih.function hrole hshape hreplace hshape' hparts leads

end

end FunctionNaming.Forest
