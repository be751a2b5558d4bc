import FunctionNaming.Proofs.Path.Segments
import FunctionNaming.Proofs.Syntax.Order

/-!
Paths before the texts in them are printed. What a path is made of is found by looking at places,
names and strings; only the texts of expressions are printed from the forest. So a path has a draft,
in which the expressions stand for their texts. All of them stand left of the function: in the target
that it is assigned to, or in the keys that lead to it.
-/

namespace FunctionNaming

/-- A segment, or an expression whose text will be one. -/
inductive SegmentDraft where
  | segment (s : Segment)
  | text (expression : Slot) (joint : Joint)

/-- The segment that becomes of a draft. -/
def SegmentDraft.print (f : Forest) : SegmentDraft → Segment
  | segment s => s
  | text expression joint => .computed (f.pathText expression) joint

/-- The nodes that tell what a place is. -/
def Place.nodes : Place → List NodeId
  | declaration slot | binding slot | assignment slot => slot.toList
  | member property => [property]
  | other => []

namespace Forest

/-! ### Parts of a script -/

variable {f : Forest} {free : List NodeId}

theorem lt_size_of_mem_children {id child : NodeId} (h : child ∈ f.children id) : id < f.size := by
  obtain ⟨shape, hshape, -⟩ := mem_children_iff.1 h
  exact lt_size_of_shape? hshape

theorem Linked.child_lt_size (h : f.Linked free) {id child : NodeId} (hchild : child ∈ f.children id) :
    child < f.size :=
  Nat.lt_trans (h.child_lt id child hchild) (lt_size_of_mem_children hchild)

theorem Linked.isSome_child (h : f.Linked free) {id child : NodeId} (hchild : child ∈ f.children id) :
    (f.shape? child).isSome := by
  rw [Option.isSome_iff_ne_none, ne_eq, shape?_eq_none_iff]
  exact Nat.not_le_of_lt (h.child_lt_size hchild)

/-- What stands in parentheses stands below them. -/
theorem Linked.exists_below_of_wraps (h : f.Linked free) {outer id : NodeId}
    (houter : outer < f.size) (hwraps : f.Wraps outer id) : ∃ level, f.Below level outer id := by
  induction hwraps with
  | self =>
    refine ⟨0, .self ?_⟩
    rw [Option.isSome_iff_ne_none, ne_eq, shape?_eq_none_iff]
    exact Nat.not_le_of_lt houter
  | @inside id inner _ hshape ih =>
    obtain ⟨level, hbelow⟩ := ih
    have hmem : inner ∈ f.children id := mem_children_iff.2 ⟨_, hshape, by simp [ShapeOf.children]⟩
    exact ⟨level + 1, hbelow.trans (.part hmem (.self (h.isSome_child hmem)))⟩

/-- What has a place is a part of a node, and what stands below it stands below this part. -/
theorem Linked.exists_stands_below (h : f.Linked free) {id function level : Nat} {place : Place}
    (hplace : f.placeOf id = place) (hne : place ≠ .other) (hbelow : f.Below level id function) :
    ∃ outer depth, f.Stands outer place ∧ f.Below depth outer function := by
  obtain ⟨outer, hwraps, hstands⟩ := h.exists_stands hplace hne
  have hpart : ∀ {parent : NodeId} {shape : Shape}, f.shape? parent = some shape →
      outer ∈ shape.children → outer < f.size :=
    fun hshape hmem => h.child_lt_size (mem_children_iff.2 ⟨_, hshape, hmem⟩)
  have houter : outer < f.size := by
    cases hstands with
    | declarator hshape | parameter hshape | patternElement hshape | assignment hshape
    | member hshape => exact hpart hshape (by simp [ShapeOf.children])
  obtain ⟨depth, hdepth⟩ := h.exists_below_of_wraps houter hwraps
  exact ⟨outer, depth + level, hstands, hdepth.trans hbelow⟩

theorem Below.lt_size {level : Nat} {id n : NodeId} (h : f.Below level id n) : n < f.size := by
  obtain ⟨shape, hshape⟩ := Option.isSome_iff_exists.1 h.isSome_shape?
  exact lt_size_of_shape? hshape

theorem Linked.lt_of_mem_nodes (h : f.Linked free) {id n : NodeId} {place : Place}
    (hplace : f.placeOf id = place) (hn : n ∈ place.nodes) : n < f.size := by
  have hne : place ≠ .other := by
    rintro rfl
    cases hn
  obtain ⟨outer, -, hstands⟩ := h.exists_stands hplace hne
  cases hstands with
  | member hshape =>
    obtain rfl := List.mem_singleton.1 hn
    exact lt_size_of_shape? hshape
  | declarator hshape | parameter hshape | patternElement hshape | assignment hshape =>
    refine h.child_lt_size (mem_children_iff.2 ⟨_, hshape, ?_⟩)
    simp only [Place.nodes, ShapeOf.children, List.mem_append] at hn ⊢
    tauto

/-- What stands in a part is not the last node, nor the one before it. -/
theorem Linked.succ_lt_of_below (h : f.Linked free) {id c level n : NodeId}
    (hc : c ∈ f.children id) (hn : f.Below level c n) : n + 1 < f.size := by
  have hlt : n < id := Nat.lt_of_le_of_lt (h.le_of_below hn) (h.child_lt id c hc)
  exact Nat.lt_of_le_of_lt hlt (lt_size_of_mem_children hc)

theorem Linked.succ_lt_of_leftOf (h : f.Linked free) {n m : NodeId} (hleft : f.LeftOf n m) :
    n + 1 < f.size := by
  obtain ⟨id, c, d, j, -, hcd, hn, -⟩ := hleft
  exact h.succ_lt_of_below (hcd.subset List.mem_cons_self) hn

/-! ### Drafts -/

/-- The draft of the segment of an argument in brackets. -/
def argumentDraft (f : Forest) (argument : Slot) : SegmentDraft :=
  match f.stringValue? (f.skipParentheses argument) with
  | some value => .segment (.key value)
  | none => .text argument .bracketed

/-- The draft of the segments of a chain of accesses. -/
def chainDraft (f : Forest) : Nat → Slot → Except SkipReason (List SegmentDraft)
  | 0, _ => .error .tooDeep
  | limit + 1, link =>
    match f.shapeAt? link with
    | none => .error .unsupportedTarget
    | some (.propertyAccess object name) =>
      match f.identifierText? name with
      | none => .error .unsupportedTarget
      | some text => do return (← f.chainDraft limit object) ++ [.segment (.name text)]
    | some (.elementAccess object argument) => do
      return (← f.chainDraft limit object) ++ [f.argumentDraft argument]
    | some (.identifier text) => .ok [.segment (.name text)]
    | some .thisExpression => .ok [.segment (.name "this")]
    | some _ => .ok [.text link .bracketed]

/-- The draft of the segments of what is assigned to. -/
def targetDraft (f : Forest) (target : Slot) : Except SkipReason (List SegmentDraft) :=
  let inner := f.skipParentheses target
  match f.shapeAt? inner with
  | some (.identifier text) => .ok [.segment (.name text)]
  | some (.propertyAccess _ _) | some (.elementAccess _ _) => f.chainDraft maxPathLength inner
  | _ => .error .unsupportedTarget

/-- The draft of the segment of a key. -/
def keyDraft (f : Forest) (name : Slot) : Except SkipReason SegmentDraft :=
  match f.shapeAt? name with
  | some (.identifier text) => .ok (.segment (.name text))
  | some (.stringLiteral _ value) => .ok (.segment (.key value))
  | some (.numberLiteral text) => .ok (.segment (.computed text .bracketed))
  | some (.computedName expression) =>
    match f.stringValue? (f.skipParentheses expression) with
    | some value => .ok (.segment (.key value))
    | none => .ok (.text expression .dotted)
  | _ => .error .noNamingContext

/-- The draft of the segments that lead to a member of an object literal. -/
def memberDraft (f : Forest) :
    Nat → NodeId → List SegmentDraft → Except SkipReason (List SegmentDraft)
  | 0, _, _ => .error .tooDeep
  | limit + 1, property, inner =>
    match f.shape? property with
    | some (.propertyAssignment name _) => do
      let keys := (← f.keyDraft name) :: inner
      match f.parent? property with
      | none => .error .noNamingContext
      | some literal =>
        match f.placeOf literal with
        | .member outer => f.memberDraft limit outer keys
        | .assignment target => return (← f.targetDraft target) ++ keys
        | .declaration _ => .error .declarationObjectLiteral
        | .binding _ | .other => .error .noNamingContext
    | _ => .error .noNamingContext

/-- The draft of the segments of the place of an expression. -/
def draftOf (f : Forest) (expression : NodeId) : Except SkipReason (List SegmentDraft) :=
  match f.placeOf expression with
  | .declaration name | .binding name => (·.map .segment) <$> f.bindingSegments name
  | .assignment target => f.targetDraft target
  | .member property => f.memberDraft maxPathLength property []
  | .other => .error .noNamingContext

/-! ### What becomes of drafts -/

variable (f)

theorem print_argumentDraft (argument : Slot) :
    (f.argumentDraft argument).print f = f.argumentSegment argument := by
  rw [argumentDraft, argumentSegment]
  cases f.stringValue? (f.skipParentheses argument) <;> rfl

theorem print_chainDraft (limit : Nat) (link : Slot) :
    (·.map (SegmentDraft.print f)) <$> f.chainDraft limit link = f.chainSegments limit link := by
  induction limit generalizing link with
  | zero => rfl
  | succ limit ih =>
    rw [chainDraft, chainSegments]
    cases hlink : f.shapeAt? link with
    | none => rfl
    | some shape =>
      cases shape with
      | propertyAccess object name =>
        simp only
        cases f.identifierText? name with
        | none => rfl
        | some text =>
          simp only [← ih object]
          cases f.chainDraft limit object with
          | error => rfl
          | ok draft => exact congrArg Except.ok List.map_append
      | elementAccess object argument =>
        simp only [← ih object]
        cases f.chainDraft limit object with
        | error => rfl
        | ok draft =>
          rw [← f.print_argumentDraft argument]
          exact congrArg Except.ok List.map_append
      | _ => rfl

theorem print_targetDraft (target : Slot) :
    (·.map (SegmentDraft.print f)) <$> f.targetDraft target = f.targetSegments target := by
  rw [targetDraft, targetSegments]
  cases f.shapeAt? (f.skipParentheses target) with
  | none => rfl
  | some shape =>
    cases shape with
    | propertyAccess | elementAccess => exact f.print_chainDraft _ _
    | _ => rfl

theorem print_keyDraft (name : Slot) :
    SegmentDraft.print f <$> f.keyDraft name = f.keySegment name := by
  rw [keyDraft, keySegment]
  cases f.shapeAt? name with
  | none => rfl
  | some shape =>
    cases shape with
    | computedName expression =>
      simp only
      cases f.stringValue? (f.skipParentheses expression) <;> rfl
    | _ => rfl

theorem print_memberDraft (limit : Nat) (property : NodeId) (inner : List SegmentDraft) :
    (·.map (SegmentDraft.print f)) <$> f.memberDraft limit property inner =
      f.memberSegments limit property (inner.map (SegmentDraft.print f)) := by
  induction limit generalizing property inner with
  | zero => rfl
  | succ limit ih =>
    rw [memberDraft, memberSegments]
    cases f.shape? property with
    | none => rfl
    | some shape =>
      cases shape with
      | propertyAssignment name value =>
        simp only [← f.print_keyDraft name]
        cases f.keyDraft name with
        | error => rfl
        | ok key =>
          -- the key is known, so both sides go on with it
          have hbind : ∀ {α β : Type} (a : α) (k : α → Except SkipReason β), (.ok a >>= k) = k a :=
            fun _ _ => rfl
          have hkey : SegmentDraft.print f <$> (.ok key : Except SkipReason SegmentDraft) =
              .ok (key.print f) := rfl
          simp only [hkey, hbind]
          cases f.parent? property with
          | none => rfl
          | some literal =>
            cases hplace : f.placeOf literal with
            | member outer =>
              simp only [hplace]
              exact ih outer (key :: inner)
            | assignment target =>
              simp only [hplace, ← f.print_targetDraft target]
              cases f.targetDraft target with
              | error => rfl
              | ok draft => exact congrArg Except.ok List.map_append
            | declaration | binding | other =>
              simp only [hplace]
              rfl
      | _ => rfl

/-- The segments of a place are printed from its draft. -/
theorem print_draftOf (expression : NodeId) :
    (·.map (SegmentDraft.print f)) <$> f.draftOf expression = f.segmentsOf expression := by
  rw [draftOf, segmentsOf]
  cases f.placeOf expression with
  | declaration name | binding name =>
    simp only
    cases f.bindingSegments name with
    | error => rfl
    | ok segments => exact congrArg Except.ok (List.map_map.trans (List.map_id _))
  | assignment target => exact f.print_targetDraft target
  | member property => exact f.print_memberDraft maxPathLength property []
  | other => rfl


/-- The path of a function expression without a name is printed from the draft of its place. -/
theorem pathOf_of_isAnonymous {function : NodeId} (h : f.IsAnonymous function) :
    f.pathOf function =
      match f.draftOf function with
      | .error reason => .error reason
      | .ok draft =>
        match Path.ofSegments? (draft.map (SegmentDraft.print f)) with
        | some path => .ok path
        | none => .error .noNamingContext := by
  obtain ⟨parts, hshape, hname⟩ := h
  rw [pathOf, hshape, ← f.print_draftOf]
  simp only [hname, Option.isSome_none, Bool.false_eq_true, if_false]
  cases f.draftOf function <;> rfl

/-- Why anything else has no path is told by its shape. -/
theorem exists_error_of_not_isAnonymous {function : NodeId} (h : ¬f.IsAnonymous function) :
    ∃ reason, ∀ g : Forest, g.shape? function = f.shape? function →
      g.pathOf function = .error reason := by
  by_cases hexpression : ∃ parts, f.shape? function = some (.function .expression parts)
  · obtain ⟨parts, hshape⟩ := hexpression
    have hname : parts.name.isSome = true := by
      rw [Option.isSome_iff_ne_none]
      exact fun hnone => h ⟨parts, hshape, hnone⟩
    refine ⟨.alreadyNamed, fun g hg => ?_⟩
    rw [pathOf, hg, hshape]
    simp only [hname, if_true]
  · refine ⟨.notAFunctionExpression, fun g hg => ?_⟩
    rw [pathOf, hg]
    split
    · next parts hshape => exact absurd ⟨parts, hshape⟩ hexpression
    · rfl

/-! ### Where the texts stand -/

variable {f}

/-- That all expressions in a draft have a property. -/
def DraftHas (draft : List SegmentDraft) (p : NodeId → Prop) : Prop :=
  ∀ n joint, .text (some n) joint ∈ draft → p n

theorem draftHas_append {draft draft' : List SegmentDraft} {p : NodeId → Prop} :
    DraftHas (draft ++ draft') p ↔ DraftHas draft p ∧ DraftHas draft' p := by
  simp only [DraftHas, List.mem_append, or_imp, forall_and]

theorem draftHas_cons {d : SegmentDraft} {draft : List SegmentDraft} {p : NodeId → Prop} :
    DraftHas (d :: draft) p ↔ DraftHas [d] p ∧ DraftHas draft p := by
  rw [← draftHas_append, List.singleton_append]

theorem DraftHas.mono {draft : List SegmentDraft} {p q : NodeId → Prop} (h : DraftHas draft p)
    (hpq : ∀ n, p n → q n) : DraftHas draft q :=
  fun n joint hmem => hpq n (h n joint hmem)

theorem draftHas_segment {s : Segment} {p : NodeId → Prop} : DraftHas [.segment s] p := by
  simp [DraftHas]

theorem draftHas_text {expression : Slot} {joint : Joint} {p : NodeId → Prop}
    (h : ∀ n ∈ expression, p n) : DraftHas [.text expression joint] p := by
  simpa [DraftHas, eq_comm] using h

namespace Linked

variable (h : f.Linked free) {root : NodeId}

include h

/-- The parts of what `root` contains. -/
theorem contains_slot {id : NodeId} {shape : Shape} (hid : f.Contains root id)
    (hshape : f.shape? id = some shape) {slot : Slot} (hslot : slot.toList ⊆ shape.children) :
    ∀ n ∈ slot, f.Contains root n :=
  fun _ hn => h.contains_part hid hshape (hslot (Option.mem_toList.2 hn))

omit h in
theorem argumentDraft_has {argument : Slot} (hargument : ∀ n ∈ argument, f.Contains root n) :
    DraftHas [f.argumentDraft argument] (f.Contains root) := by
  rw [argumentDraft]
  split
  · exact draftHas_segment
  · exact draftHas_text hargument

theorem chainDraft_has {limit : Nat} {link : Slot} (hlink : ∀ n ∈ link, f.Contains root n)
    {draft : List SegmentDraft} (hdraft : f.chainDraft limit link = .ok draft) :
    DraftHas draft (f.Contains root) := by
  induction limit generalizing link draft with
  | zero => cases hdraft
  | succ limit ih =>
    rw [chainDraft] at hdraft
    split at hdraft
    · cases hdraft
    · next object name hshape =>
      obtain ⟨id, rfl, hid⟩ := Option.bind_eq_some_iff.1 hshape
      split at hdraft
      · cases hdraft
      · obtain ⟨before, hbefore, ⟨⟩⟩ := bind_eq_ok_iff.1 hdraft
        have hobject : ∀ n ∈ object, f.Contains root n :=
          h.contains_slot (hlink id rfl) hid (List.subset_append_left _ _)
        exact draftHas_append.2 ⟨ih hobject hbefore, draftHas_segment⟩
    · next object argument hshape =>
      obtain ⟨id, rfl, hid⟩ := Option.bind_eq_some_iff.1 hshape
      obtain ⟨before, hbefore, ⟨⟩⟩ := bind_eq_ok_iff.1 hdraft
      have hobject : ∀ n ∈ object, f.Contains root n :=
        h.contains_slot (hlink id rfl) hid (List.subset_append_left _ _)
      have hargument : ∀ n ∈ argument, f.Contains root n :=
        h.contains_slot (hlink id rfl) hid (List.subset_append_right _ _)
      exact draftHas_append.2 ⟨ih hobject hbefore, argumentDraft_has hargument⟩
    · cases hdraft
      exact draftHas_segment
    · cases hdraft
      exact draftHas_segment
    · cases hdraft
      exact draftHas_text hlink

theorem targetDraft_has {target : NodeId} (htarget : target < f.size) {draft : List SegmentDraft}
    (hdraft : f.targetDraft (some target) = .ok draft) : DraftHas draft (f.Contains target) := by
  have hinner : ∀ n ∈ f.skipParentheses (some target), f.Contains target n := by
    intro n hn
    exact h.exists_below_of_wraps htarget (h.skipParentheses_eq_some_iff.1 hn).1
  rw [targetDraft] at hdraft
  split at hdraft
  · cases hdraft
    exact draftHas_segment
  · exact h.chainDraft_has hinner hdraft
  · exact h.chainDraft_has hinner hdraft
  · cases hdraft

omit h in
/-- What stands in a part before the one with the function in it stands left of the function. -/
theorem leftOf_first {function id part level : Nat} {shape : Shape} {n m : NodeId}
    (hshape : f.shape? id = some shape) (hparts : [n, part].Sublist shape.children)
    (hpart : f.Below level part function) (hm : f.Contains n m) : f.LeftOf m function := by
  obtain ⟨k, hm⟩ := hm
  have hchildren : f.children id = shape.children := by rw [children, hshape]
  exact ⟨id, n, part, k, level, by rw [hchildren]; exact hparts, hm, hpart⟩

/-- The expressions in the target of an assignment stand left of what is assigned. -/
theorem targetDraft_has_leftOf {target : Slot} {outer depth function : NodeId}
    (hstands : f.Stands outer (.assignment target)) (hbelow : f.Below depth outer function)
    {draft : List SegmentDraft} (hdraft : f.targetDraft target = .ok draft) :
    DraftHas draft (f.LeftOf · function) := by
  cases hstands with
  | assignment hshape =>
    cases target with
    | none => cases hdraft
    | some target =>
      have htarget : target < f.size := h.child_lt_size
        (mem_children_iff.2 ⟨_, hshape, by simp [ShapeOf.children]⟩)
      exact (h.targetDraft_has htarget hdraft).mono fun n =>
        leftOf_first hshape (List.Sublist.refl _) hbelow

theorem keyDraft_has {name : NodeId} {key : SegmentDraft} (hkey : f.keyDraft (some name) = .ok key) :
    DraftHas [key] (f.Contains name) := by
  rw [keyDraft] at hkey
  split at hkey
  case h_4 expression hshape =>
    have hname : f.shape? name = some (.computedName expression) := hshape
    have hself : f.Contains name name := ⟨0, .self (by rw [hname]; rfl)⟩
    have hexpression : ∀ n ∈ expression, f.Contains name n :=
      h.contains_slot hself hname (List.Subset.refl expression.toList)
    split at hkey
    · cases hkey
      exact draftHas_segment
    · cases hkey
      exact draftHas_text hexpression
  all_goals cases hkey
  all_goals exact draftHas_segment

/-- The expressions that lead to a member, by induction on the number of literals around it. -/
theorem memberDraft_has {function limit property value level : Nat} {name : Slot}
    (hproperty : f.shape? property = some (.propertyAssignment name (some value)))
    (hvalue : f.Below level value function) {inner draft : List SegmentDraft}
    (hinner : DraftHas inner (f.LeftOf · function))
    (hdraft : f.memberDraft limit property inner = .ok draft) :
    DraftHas draft (f.LeftOf · function) := by
  induction limit generalizing property value level name inner with
  | zero => cases hdraft
  | succ limit ih =>
    rw [memberDraft, hproperty] at hdraft
    obtain ⟨key, hkey, hdraft⟩ := bind_eq_ok_iff.1 hdraft
    have hkeys : DraftHas (key :: inner) (f.LeftOf · function) := by
      refine draftHas_cons.2 ⟨?_, hinner⟩
      cases name with
      | none => cases hkey
      | some name =>
        exact (h.keyDraft_has hkey).mono fun n => leftOf_first hproperty (List.Sublist.refl _) hvalue
    cases hparent : f.parent? property with
    | none =>
      rw [hparent] at hdraft
      cases hdraft
    | some literal =>
      have hmem := (h.parent_iff property literal).1 hparent
      have hbelow : f.Below (level + 1 + 1) literal function :=
        .part hmem (.part (mem_children_iff.2 ⟨_, hproperty, by simp [ShapeOf.children]⟩) hvalue)
      simp only [hparent] at hdraft
      cases hplace : f.placeOf literal with
      | declaration | binding | other =>
        rw [hplace] at hdraft
        cases hdraft
      | assignment target =>
        rw [hplace] at hdraft
        obtain ⟨segments, htarget, ⟨⟩⟩ := bind_eq_ok_iff.1 hdraft
        obtain ⟨outer, depth, hstands, hdepth⟩ := h.exists_stands_below hplace (by simp) hbelow
        exact draftHas_append.2 ⟨h.targetDraft_has_leftOf hstands hdepth htarget, hkeys⟩
      | member property' =>
        rw [hplace] at hdraft
        obtain ⟨outer, depth, hstands, hdepth⟩ := h.exists_stands_below hplace (by simp) hbelow
        cases hstands with
        | member hshape => exact ih hshape hdepth hkeys hdraft

/-- All expressions whose texts are in the path of a function stand left of it. -/
theorem draftOf_has {function : NodeId} (hfunction : (f.shape? function).isSome)
    {draft : List SegmentDraft} (hdraft : f.draftOf function = .ok draft) :
    DraftHas draft (f.LeftOf · function) := by
  have hexists := fun place (hplace : f.placeOf function = place) hne =>
    h.exists_stands_below hplace hne (.self hfunction)
  rw [draftOf] at hdraft
  cases hplace : f.placeOf function with
  | other =>
    rw [hplace] at hdraft
    cases hdraft
  | declaration name | binding name =>
    simp only [hplace] at hdraft
    cases hsegments : f.bindingSegments name with
    | error reason =>
      rw [hsegments] at hdraft
      cases hdraft
    | ok segments =>
      rw [hsegments] at hdraft
      cases hdraft
      simp [DraftHas]
  | assignment target =>
    rw [hplace] at hdraft
    obtain ⟨outer, depth, hstands, hdepth⟩ := hexists _ hplace (by simp)
    exact h.targetDraft_has_leftOf hstands hdepth hdraft
  | member property =>
    rw [hplace] at hdraft
    obtain ⟨outer, depth, hstands, hdepth⟩ := hexists _ hplace (by simp)
    cases hstands with
    | member hparent => exact h.memberDraft_has hparent hdepth (by simp [DraftHas]) hdraft

end Linked
end Forest
end FunctionNaming
