import FunctionNaming.Proofs.Grammar.Members
import FunctionNaming.Proofs.Path.Segments

/-!
Paths from above. The path of a function is found by going up from the function to what binds it. The
same paths are handed out on the way down: each binding below the root labels the function that it
binds, and an assignment labels the functions in the object literal that it assigns. In scripts that
are read without diagnostics, and whose chains and object literals are not too deep, a function gets
the same paths in both ways.
-/

namespace FunctionNaming.Forest

/-! ### The way down -/

/-- That an expression is reached from `start` through parentheses and values of object literals, past
these keys. -/
inductive Reaches (f : Forest) (start : NodeId) : List Segment → NodeId → Prop
  | start : Reaches f start [] start
  | inside {keys : List Segment} {id inner : NodeId} : Reaches f start keys id →
      f.shape? id = some (.parenthesized (some inner)) → Reaches f start keys inner
  | member {keys : List Segment} {literal property name value : NodeId} {members : List NodeId}
      {key : Segment} : Reaches f start keys literal →
      f.shape? literal = some (.objectLiteral members) → property ∈ members →
      f.shape? property = some (.propertyAssignment (some name) (some value)) → f.IsKey name key →
      Reaches f start (keys ++ [key]) value

/-- The segments that the bindings below `root` give to an expression. -/
inductive Binds (f : Forest) (root : NodeId) : List Segment → NodeId → Prop
  | declarator {binding name value id : NodeId} {text : String} : f.Contains root binding →
      f.shape? binding = some (.declarator (some name) (some value)) →
      f.shape? name = some (.identifier text) → f.Wraps value id → Binds f root [.name text] id
  | parameter {isRest : Bool} {binding name value id : NodeId} {text : String} :
      f.Contains root binding →
      f.shape? binding = some (.parameter isRest (some name) (some value)) →
      f.shape? name = some (.identifier text) → f.Wraps value id → Binds f root [.name text] id
  | patternElement {isRest : Bool} {property : Slot} {binding name value id : NodeId}
      {text : String} : f.Contains root binding →
      f.shape? binding = some (.patternElement isRest property (some name) (some value)) →
      f.shape? name = some (.identifier text) → f.Wraps value id → Binds f root [.name text] id
  | assignment {links : Nat} {binding target value id : NodeId} {segments keys : List Segment} :
      f.Contains root binding →
      f.shape? binding = some (.binary (some target) .assign (some value)) →
      f.IsTarget target links segments → f.Reaches value keys id → Binds f root (segments ++ keys) id

/-- That a path is the label of a function expression without a name. -/
def Labels (f : Forest) (root function : NodeId) (path : Path) : Prop :=
  f.IsAnonymous function ∧
    ∃ segments, f.Binds root segments function ∧ Path.ofSegments? segments = some path

/-- That no target of an assignment below `root` has too many links, and no object literals are
in each other too deep. -/
structure HasShortPaths (f : Forest) (root : NodeId) : Prop where
  links : ∀ {links : Nat} {binding target : NodeId} {value : Slot} {segments : List Segment},
    f.Contains root binding → f.shape? binding = some (.binary (some target) .assign value) →
    f.IsTarget target links segments → links < maxPathLength
  keys : ∀ {start id : NodeId} {keys : List Segment}, f.Contains root start →
    f.Reaches start keys id → keys.length ≤ maxPathLength

theorem Reaches.wraps {f : Forest} {start outer id : NodeId} {keys : List Segment}
    (h : f.Reaches start keys outer) (hwraps : f.Wraps outer id) : f.Reaches start keys id := by
  induction hwraps with
  | self => exact h
  | inside _ hshape ih => exact ih.inside hshape

theorem Wraps.reaches {f : Forest} {outer id : NodeId} (h : f.Wraps outer id) :
    f.Reaches outer [] id :=
  Reaches.start.wraps h

theorem exists_isKey {f : Forest} {name : NodeId} {shape : Shape}
    (hname : f.shape? name = some shape) (h : shape.isMemberName = true) :
    ∃ key, f.IsKey name key := by
  cases shape with
  | identifier text => exact ⟨_, .identifier hname⟩
  | stringLiteral quote value => exact ⟨_, .string hname⟩
  | numberLiteral text => exact ⟨_, .number hname⟩
  | computedName expression =>
    by_cases hstring : ∃ value, f.DenotesString expression value
    · obtain ⟨value, hvalue⟩ := hstring
      exact ⟨_, .computedString hname hvalue⟩
    · exact ⟨_, .computed hname fun value hvalue => hstring ⟨value, hvalue⟩⟩
  | _ => cases h

/-- No key stands in the way: the value of a member is reached if the object literal is. -/
theorem Reaches.exists_member {f : Forest} {root start literal property : NodeId}
    {members : List NodeId} {name value : Slot} {keys : List Segment} {free : List NodeId}
    (hlinked : f.Linked free) (hmembers : f.MembersInPlace root) (h : f.Reaches start keys literal)
    (hroot : f.Contains root literal) (hliteral : f.shape? literal = some (.objectLiteral members))
    (hmem : property ∈ members)
    (hproperty : f.shape? property = some (.propertyAssignment name value)) :
    ∃ v key, value = some v ∧ f.Reaches start (keys ++ [key]) v := by
  have hcontains := hlinked.contains_part hroot hliteral hmem
  obtain ⟨n, v, shape, rfl, rfl, hn, hname⟩ := hmembers.key hcontains hproperty
  obtain ⟨key, hkey⟩ := exists_isKey hn hname
  exact ⟨v, key, rfl, h.member hliteral hmem hproperty hkey⟩

theorem Linked.contains_of_reaches {f : Forest} {free : List NodeId} (h : f.Linked free)
    {root start id : NodeId} {keys : List Segment} (hreaches : f.Reaches start keys id)
    (hstart : f.Contains root start) : f.Contains root id := by
  induction hreaches with
  | start => exact hstart
  | inside _ hshape ih => exact h.contains_part ih hshape (by simp [ShapeOf.children])
  | member _ hliteral hmem hproperty _ ih =>
    have hcontains := h.contains_part ih hliteral hmem
    exact h.contains_part hcontains hproperty (by simp [ShapeOf.children])

/-! ### The way up -/

/-- The segments that lead to an expression in a place, when the keys further in than the place are
known already and at most `limit` more are taken. -/
def leadTo (f : Forest) (limit : Nat) (place : Place) (inner : List Segment) :
    Except SkipReason (List Segment) :=
  match place with
  | .member property => f.memberSegments limit property inner
  | .assignment target => do return (← f.targetSegments target) ++ inner
  | .declaration _ => .error .declarationObjectLiteral
  | .binding _ | .other => .error .noNamingContext

theorem segmentsOf_eq_leadTo {f : Forest} {id : NodeId}
    (hdeclaration : ∀ name, f.placeOf id ≠ .declaration name)
    (hbinding : ∀ name, f.placeOf id ≠ .binding name) :
    f.segmentsOf id = f.leadTo maxPathLength (f.placeOf id) [] := by
  rw [segmentsOf]
  cases hplace : f.placeOf id with
  | declaration name => exact absurd hplace (hdeclaration name)
  | binding name => exact absurd hplace (hbinding name)
  | assignment target =>
    dsimp only
    rw [leadTo]
    cases f.targetSegments target with
    | error reason => rfl
    | ok segments => exact congrArg Except.ok (List.append_nil segments).symm
  | member property => rfl
  | other => rfl

section

variable {f : Forest} {root : NodeId} {free : List NodeId}

theorem memberSegments_succ {limit : Nat} {property literal : NodeId} {name value : Slot}
    {key : Segment} {inner : List Segment}
    (hproperty : f.shape? property = some (.propertyAssignment name value))
    (hkey : f.keySegment name = .ok key) (hparent : f.parent? property = some literal) :
    f.memberSegments (limit + 1) property inner =
      f.leadTo limit (f.placeOf literal) (key :: inner) := by
  rw [memberSegments]
  simp only [hproperty, hkey, hparent]
  cases f.placeOf literal <;> rfl

theorem Linked.exists_of_memberSegments (h : f.Linked free) {limit : Nat} {property : NodeId}
    {inner segments : List Segment} (hsegments : f.memberSegments limit property inner = .ok segments) :
    ∃ limit' name value key literal, limit = limit' + 1 ∧
      f.shape? property = some (.propertyAssignment (some name) value) ∧ f.IsKey name key ∧
      property ∈ f.children literal ∧
      f.leadTo limit' (f.placeOf literal) (key :: inner) = .ok segments := by
  cases limit with
  | zero => cases hsegments
  | succ limit =>
    have hsegments' := hsegments
    rw [memberSegments] at hsegments
    split at hsegments
    · next name value hproperty =>
      obtain ⟨key, hkey, hrest⟩ := bind_eq_ok_iff.1 hsegments
      cases hparent : f.parent? property with
      | none => simp [hparent] at hrest
      | some literal =>
        rw [memberSegments_succ hproperty hkey hparent] at hsegments'
        cases name with
        | none => cases hkey
        | some name =>
          exact ⟨limit, name, value, key, literal, rfl, hproperty, h.keySegment_eq_ok_iff.1 hkey,
            (h.parent_iff property literal).1 hparent, hsegments'⟩
    · cases hsegments

/-- The way down is the way up: an expression is reached past the keys that are collected between its
place and the place of the start. -/
theorem Linked.leadTo_of_reaches (h : f.Linked free) {start id : NodeId} {keys : List Segment}
    (hreaches : f.Reaches start keys id) (limit : Nat) (inner : List Segment) :
    f.leadTo (keys.length + limit) (f.placeOf id) inner =
      f.leadTo limit (f.placeOf start) (keys ++ inner) := by
  induction hreaches generalizing inner with
  | start => rw [List.length_nil, Nat.zero_add, List.nil_append]
  | inside _ hshape ih =>
    rw [h.placeOf_eq_of_wraps (Wraps.self.inside hshape)]
    exact ih inner
  | @member keys literal property name value members key _ hliteral hmem hproperty hkey ih =>
    have hplace : f.placeOf value = .member property :=
      h.placeOf_of_stands .self (.member hproperty)
    have hparent := h.parent?_of_shape? hliteral (show property ∈ _ from hmem)
    have hlength : (keys ++ [key]).length + limit = keys.length + limit + 1 := by
      rw [List.length_append, List.length_singleton, Nat.add_right_comm]
    calc
      f.leadTo ((keys ++ [key]).length + limit) (f.placeOf value) inner
        = f.memberSegments (keys.length + limit + 1) property inner := by
          rw [hlength, hplace, leadTo]
      _ = f.leadTo (keys.length + limit) (f.placeOf literal) (key :: inner) :=
          memberSegments_succ hproperty (h.keySegment_eq_ok_iff.2 hkey) hparent
      _ = f.leadTo limit (f.placeOf start) (keys ++ [key] ++ inner) := by
          rw [ih, List.append_assoc, List.singleton_append]

end

section

variable {f : Forest} {root : NodeId}

theorem Linked.contains_of_wraps (h : f.Linked [root]) {outer id : NodeId}
    (hwraps : f.Wraps outer id) (hid : f.Contains root id) : f.Contains root outer := by
  induction hwraps with
  | self => exact hid
  | inside _ hshape ih =>
    exact ih (h.contains_parent hid (mem_children_iff.2 ⟨_, hshape, by simp [ShapeOf.children]⟩))

/-- Where the way up from an expression ends, there is an assignment from which the expression is
reached, by induction on the number of keys that may be taken. -/
theorem Linked.exists_reaches_of_leadTo (h : f.Linked [root]) (hmembers : f.MembersInPlace root)
    {limit : Nat} {id : NodeId} {inner segments : List Segment} (hid : f.Contains root id)
    (hsegments : f.leadTo limit (f.placeOf id) inner = .ok segments) :
    ∃ binding target start before keys, f.Contains root binding ∧
      f.shape? binding = some (.binary target .assign (some start)) ∧
      f.targetSegments target = .ok before ∧ f.Reaches start keys id ∧
      segments = before ++ (keys ++ inner) := by
  induction limit using Nat.strong_induction_on generalizing id inner with
  | _ limit ih =>
    cases hplace : f.placeOf id with
    | assignment target =>
      rw [hplace, leadTo, bind_eq_ok_iff] at hsegments
      obtain ⟨before, htarget, ⟨⟩⟩ := hsegments
      obtain ⟨outer, hwraps, hstands⟩ := h.exists_stands hplace (by simp)
      cases hstands with
      | @assignment binding _ hshape =>
        have hbinding := h.contains_parent (h.contains_of_wraps hwraps hid)
          (mem_children_iff.2 ⟨_, hshape, by simp [ShapeOf.children]⟩)
        exact ⟨binding, target, outer, before, [], hbinding, hshape, htarget,
          hwraps.reaches, rfl⟩
    | member property =>
      rw [hplace] at hsegments
      obtain ⟨limit', name, value, key, literal, rfl, hproperty, hkey, hmem, hrest⟩ :=
        h.exists_of_memberSegments hsegments
      obtain ⟨outer, hwraps, hstands⟩ := h.exists_stands hplace (by simp)
      cases hstands with
      | member hproperty' =>
        cases hproperty.symm.trans hproperty'
        have hvalue := h.contains_parent (h.contains_of_wraps hwraps hid)
          (mem_children_iff.2 ⟨_, hproperty, by simp [ShapeOf.children]⟩)
        have hroot := h.contains_parent hvalue hmem
        -- what is around a value with a key is known to be an object literal only below the root
        obtain ⟨members, hliteral⟩ := hmembers.literal hroot hmem hproperty rfl
        have hmember : property ∈ members := by
          simpa [children, hliteral, ShapeOf.children] using hmem
        obtain ⟨binding, target, start, before, keys, hbinding, hshape, htarget, hreaches, rfl⟩ :=
          ih limit' (Nat.lt_succ_self limit') hroot hrest
        refine ⟨binding, target, start, before, keys ++ [key], hbinding, hshape, htarget,
          (hreaches.member hliteral hmember hproperty hkey).wraps hwraps, ?_⟩
        rw [List.append_assoc, List.singleton_append]
    | declaration _ | binding _ | other =>
      rw [hplace] at hsegments
      cases hsegments

theorem exists_identifier_of_bindingSegments {name : Slot} {segments : List Segment}
    (h : f.bindingSegments name = .ok segments) :
    ∃ n text, name = some n ∧ f.shape? n = some (.identifier text) ∧ segments = [.name text] := by
  rw [bindingSegments] at h
  split at h
  · next text htext =>
    cases h
    cases name with
    | none => cases htext
    | some n => exact ⟨n, text, rfl, identifierText?_eq_some_iff.1 htext, rfl⟩
  · cases h

theorem bindingSegments_of_identifier {name : NodeId} {text : String}
    (h : f.shape? name = some (.identifier text)) :
    f.bindingSegments (some name) = .ok [.name text] := by
  rw [bindingSegments, identifierText?_eq_some_iff.2 h]

/-- The segments that an expression has by its place are those that a binding gives it. -/
theorem Linked.segmentsOf_iff_binds (h : f.Linked [root]) (hmembers : f.MembersInPlace root)
    (hshort : f.HasShortPaths root) {id : NodeId} {segments : List Segment} :
    f.Contains root id ∧ f.segmentsOf id = .ok segments ↔ f.Binds root segments id := by
  constructor
  · rintro ⟨hid, hsegments⟩
    have hup : ∀ {outer binding : NodeId} {shape : Shape}, f.Wraps outer id →
        f.shape? binding = some shape → outer ∈ shape.children → f.Contains root binding :=
      fun hwraps hshape hmem => h.contains_parent (h.contains_of_wraps hwraps hid)
        (mem_children_iff.2 ⟨_, hshape, hmem⟩)
    have hlead : (∀ name, f.placeOf id ≠ .declaration name) →
        (∀ name, f.placeOf id ≠ .binding name) → f.Binds root segments id := by
      intro hdeclaration hbinding
      rw [segmentsOf_eq_leadTo hdeclaration hbinding] at hsegments
      obtain ⟨binding, target, start, before, keys, hcontains, hshape, htarget, hreaches, rfl⟩ :=
        h.exists_reaches_of_leadTo hmembers hid hsegments
      cases target with
      | none => cases htarget
      | some target =>
        obtain ⟨links, -, htarget⟩ := h.targetSegments_eq_ok_iff.1 htarget
        rw [List.append_nil]
        exact .assignment hcontains hshape htarget hreaches
    cases hplace : f.placeOf id with
    | declaration name =>
      rw [segmentsOf, hplace] at hsegments
      obtain ⟨n, text, rfl, hname, rfl⟩ := exists_identifier_of_bindingSegments hsegments
      obtain ⟨outer, hwraps, hstands⟩ := h.exists_stands hplace (by simp)
      cases hstands with
      | declarator hshape =>
        exact .declarator (hup hwraps hshape (by simp [ShapeOf.children])) hshape hname hwraps
    | binding name =>
      rw [segmentsOf, hplace] at hsegments
      obtain ⟨n, text, rfl, hname, rfl⟩ := exists_identifier_of_bindingSegments hsegments
      obtain ⟨outer, hwraps, hstands⟩ := h.exists_stands hplace (by simp)
      cases hstands with
      | parameter hshape =>
        exact .parameter (hup hwraps hshape (by simp [ShapeOf.children])) hshape hname hwraps
      | patternElement hshape =>
        exact .patternElement (hup hwraps hshape (by simp [ShapeOf.children])) hshape hname hwraps
    | assignment | member | other => exact hlead (by simp [hplace]) (by simp [hplace])
  · intro hbinds
    have hdown : ∀ {binding value : NodeId} {shape : Shape} {keys : List Segment},
        f.Contains root binding → f.shape? binding = some shape → value ∈ shape.children →
        f.Reaches value keys id → f.Contains root id :=
      fun hbinding hshape hmem hreaches =>
        h.contains_of_reaches hreaches (h.contains_part hbinding hshape hmem)
    cases hbinds with
    | declarator hbinding hshape hname hwraps =>
      refine ⟨hdown hbinding hshape (by simp [ShapeOf.children]) hwraps.reaches, ?_⟩
      rw [segmentsOf, h.placeOf_of_stands hwraps (.declarator hshape)]
      exact bindingSegments_of_identifier hname
    | parameter hbinding hshape hname hwraps =>
      refine ⟨hdown hbinding hshape (by simp [ShapeOf.children]) hwraps.reaches, ?_⟩
      rw [segmentsOf, h.placeOf_of_stands hwraps (.parameter hshape)]
      exact bindingSegments_of_identifier hname
    | patternElement hbinding hshape hname hwraps =>
      refine ⟨hdown hbinding hshape (by simp [ShapeOf.children]) hwraps.reaches, ?_⟩
      rw [segmentsOf, h.placeOf_of_stands hwraps (.patternElement hshape)]
      exact bindingSegments_of_identifier hname
    | @assignment links binding target value _ before keys hbinding hshape htarget hreaches =>
      have hvalue := h.contains_part hbinding hshape
        (show value ∈ _ by simp [ShapeOf.children])
      refine ⟨h.contains_of_reaches hreaches hvalue, ?_⟩
      have hsegments :=
        h.targetSegments_eq_ok_iff.2 ⟨links, hshort.links hbinding hshape htarget, htarget⟩
      have hlead : f.leadTo maxPathLength (f.placeOf id) [] = .ok (before ++ keys) := by
        -- the limit is what the keys take and a rest that nothing needs
        obtain ⟨rest, hrest⟩ := Nat.exists_eq_add_of_le (hshort.keys hvalue hreaches)
        rw [hrest, h.leadTo_of_reaches hreaches,
          h.placeOf_of_stands .self (.assignment hshape), leadTo, hsegments, List.append_nil]
        rfl
      -- with segments to lead to it, the expression is not the value of a name
      rw [segmentsOf_eq_leadTo, hlead]
      · intro name hplace
        rw [hplace] at hlead
        cases hlead
      · intro name hplace
        rw [hplace] at hlead
        cases hlead

theorem pathOf_eq_ok_iff {function : NodeId} {path : Path} :
    f.pathOf function = .ok path ↔ f.IsAnonymous function ∧
      ∃ segments, f.segmentsOf function = .ok segments ∧ Path.ofSegments? segments = some path := by
  have hsegments : f.IsAnonymous function → (f.pathOf function = .ok path ↔
      ∃ segments, f.segmentsOf function = .ok segments ∧ Path.ofSegments? segments = some path) := by
    rintro ⟨parts, hshape, hname⟩
    rw [pathOf, hshape]
    simp only [hname, Option.isSome_none, Bool.false_eq_true, if_false, bind_eq_ok_iff]
    refine exists_congr fun segments => and_congr_right fun _ => ?_
    cases Path.ofSegments? segments with
    | none => simp
    | some path' => simp [pure, Except.pure]
  constructor
  · intro h
    have hanonymous := isAnonymous_of_pathOf h
    exact ⟨hanonymous, (hsegments hanonymous).1 h⟩
  · rintro ⟨hanonymous, h⟩
    exact (hsegments hanonymous).2 h

/-- In a forest whose members are in place, the paths of the functions below the root are their
labels. -/
theorem Linked.contains_pathOf_iff (h : f.Linked [root]) (hmembers : f.MembersInPlace root)
    (hshort : f.HasShortPaths root) {function : NodeId} {path : Path} :
    f.Contains root function ∧ f.pathOf function = .ok path ↔ f.Labels root function path := by
  rw [pathOf_eq_ok_iff]
  constructor
  · rintro ⟨hfunction, hanonymous, segments, hsegments, hpath⟩
    exact ⟨hanonymous, segments, (h.segmentsOf_iff_binds hmembers hshort).1 ⟨hfunction, hsegments⟩,
      hpath⟩
  · rintro ⟨hanonymous, segments, hbinds, hpath⟩
    obtain ⟨hfunction, hsegments⟩ := (h.segmentsOf_iff_binds hmembers hshort).2 hbinds
    exact ⟨hfunction, hanonymous, segments, hsegments, hpath⟩

end

/-! ### Limits -/

section

variable {f : Forest} {free : List NodeId}

theorem Linked.add_length_le_of_reaches (h : f.Linked free) {start id : NodeId}
    {keys : List Segment} (hreaches : f.Reaches start keys id) : id + keys.length ≤ start := by
  induction hreaches with
  | start => exact Nat.le_refl start
  | @inside keys id inner _ hshape ih =>
    have hlt := h.lt_of_shape? hshape (show inner ∈ _ by simp [ShapeOf.children])
    exact Nat.le_trans (Nat.add_le_add_right (Nat.le_of_lt hlt) keys.length) ih
  | @member keys literal property name value members key _ hliteral hmem hproperty _ ih =>
    have hvalue := h.lt_of_shape? hproperty (show value ∈ _ by simp [ShapeOf.children])
    have hmember := h.lt_of_shape? hliteral (show property ∈ _ from hmem)
    calc
      value + (keys ++ [key]).length = value + 1 + keys.length := by
        rw [List.length_append, List.length_singleton, Nat.add_right_comm, Nat.add_assoc]
      _ ≤ literal + keys.length := Nat.add_le_add_right (Nat.lt_trans hvalue hmember) keys.length
      _ ≤ start := ih

theorem Linked.links_le (h : f.Linked free) {links : Nat} {id : NodeId} {segments : List Segment}
    (hchain : f.Chain links id segments) : links ≤ id := by
  induction hchain with
  | name | this | text => exact Nat.zero_le _
  | @property links id object name _ _ hshape _ _ ih =>
    exact Nat.lt_of_le_of_lt ih (h.lt_of_shape? hshape (by simp [ShapeOf.children]))
  | @element links id object _ _ _ hshape _ _ ih =>
    exact Nat.lt_of_le_of_lt ih (h.lt_of_shape? hshape (by simp [ShapeOf.children]))

/-- Every step of a chain and every key leads to a smaller number, so in a small forest nothing is too
deep. -/
theorem Linked.hasShortPaths_of_size_le (h : f.Linked free) (hsize : f.size ≤ maxPathLength)
    (root : NodeId) : f.HasShortPaths root where
  links := by
    intro links binding target value segments _ hshape htarget
    have htarget_lt := h.lt_of_shape? hshape (show target ∈ _ by simp [ShapeOf.children])
    have hlt := Nat.lt_trans htarget_lt (lt_size_of_shape? hshape)
    cases htarget with
    | name => decide
    | access hwraps hchain =>
      calc
        _ ≤ _ := h.links_le hchain
        _ ≤ target := h.add_length_le_of_reaches hwraps.reaches
        _ < f.size := hlt
        _ ≤ maxPathLength := hsize
  keys := by
    rintro start id keys ⟨level, hbelow⟩ hreaches
    obtain ⟨shape, hshape⟩ := Option.isSome_iff_exists.1 hbelow.isSome_shape?
    calc
      keys.length ≤ id + keys.length := Nat.le_add_left _ _
      _ ≤ start := h.add_length_le_of_reaches hreaches
      _ ≤ f.size := Nat.le_of_lt (lt_size_of_shape? hshape)
      _ ≤ maxPathLength := hsize

end

end FunctionNaming.Forest

namespace FunctionNaming.Script

/-- In a script without diagnostics whose targets and object literals are not too deep, the functions
with their paths, which are found on the way up, are the functions with their labels, which are handed
out on the way down. -/
theorem pathOf_iff_labels {file source : String}
    (hclean : (Script.parse file source).diagnostics = [])
    (hshort : (Script.parse file source).forest.HasShortPaths (Script.parse file source).root)
    (function : NodeId) (path : Path) :
    (Script.parse file source).forest.Contains (Script.parse file source).root function ∧
        (Script.parse file source).forest.pathOf function = .ok path ↔
      (Script.parse file source).forest.Labels (Script.parse file source).root function path :=
  (linked_parse file source).contains_pathOf_iff (membersInPlace hclean) hshort

/-- A function in an object literal in parentheses. -/
theorem pathOf_iff_labels_member :
    (Script.parse "test.js" "a.b = ({c: function(){}})").diagnostics = [] ∧
      (Script.parse "test.js" "a.b = ({c: function(){}})").forest.HasShortPaths
        (Script.parse "test.js" "a.b = ({c: function(){}})").root ∧
      (Script.parse "test.js" "a.b = ({c: function(){}})").forest.Labels
        (Script.parse "test.js" "a.b = ({c: function(){}})").root 5 ⟨"a.b.c"⟩ := by
  have hclean : (Script.parse "test.js" "a.b = ({c: function(){}})").diagnostics = [] := by
    decide +kernel
  have hsize : (Script.parse "test.js" "a.b = ({c: function(){}})").forest.size ≤
      Forest.maxPathLength := by
    decide +kernel
  have hshort := (linked_parse _ _).hasShortPaths_of_size_le hsize
    (Script.parse "test.js" "a.b = ({c: function(){}})").root
  have hfunction : 5 ∈ (Script.parse "test.js" "a.b = ({c: function(){}})").forest.functions
      (Script.parse "test.js" "a.b = ({c: function(){}})").root := by
    decide +kernel
  have hpath : (Script.parse "test.js" "a.b = ({c: function(){}})").forest.pathOf 5 =
      .ok ⟨"a.b.c"⟩ := by
    decide +kernel
  obtain ⟨level, -, hbelow⟩ := Forest.exists_below_of_mem_functions hfunction
  exact ⟨hclean, hshort, (pathOf_iff_labels hclean hshort 5 ⟨"a.b.c"⟩).1 ⟨⟨level, hbelow⟩, hpath⟩⟩

end FunctionNaming.Script
