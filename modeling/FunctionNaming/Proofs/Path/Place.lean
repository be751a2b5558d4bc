import FunctionNaming.Path.Resolve
import FunctionNaming.Proofs.Syntax.Linked

/-!
Parentheses and places. Pairs of parentheses in each other are a chain of nodes, which is followed
outwards from a function and inwards from a target. Each way ends at one end of the chain, wherever it
begins, so the place of an expression is the place of the outermost parentheses around it.
-/

namespace FunctionNaming.Forest

/-- That the expression `id` stands in `outer`, inside any number of parentheses. -/
inductive Wraps (f : Forest) (outer : NodeId) : NodeId → Prop
  | self : Wraps f outer outer
  | inside {id inner : NodeId} : Wraps f outer id →
      f.shape? id = some (.parenthesized (some inner)) → Wraps f outer inner

/-- That a node is a pair of parentheses. -/
def IsParenthesized (f : Forest) (id : NodeId) : Prop :=
  ∃ inner, f.shape? id = some (.parenthesized inner)

theorem Wraps.trans {f : Forest} {a b c : NodeId} (hab : f.Wraps a b) (hbc : f.Wraps b c) :
    f.Wraps a c := by
  induction hbc with
  | self => exact hab
  | inside _ hshape ih => exact ih.inside hshape

theorem Wraps.eq_or_inside {f : Forest} {outer id : NodeId} (h : f.Wraps outer id) :
    id = outer ∨ ∃ inner, f.shape? outer = some (.parenthesized (some inner)) ∧ f.Wraps inner id := by
  induction h with
  | self => exact .inl rfl
  | inside _ hshape ih =>
    rcases ih with rfl | ⟨inner, houter, hinner⟩
    · exact .inr ⟨_, hshape, .self⟩
    · exact .inr ⟨inner, houter, hinner.inside hshape⟩

/-- What stands in an expression is the expression itself, unless that is a pair of parentheses. -/
theorem Wraps.eq_of_not_isParenthesized {f : Forest} {outer id : NodeId} (h : f.Wraps outer id)
    (houter : ¬f.IsParenthesized outer) : id = outer := by
  rcases h.eq_or_inside with heq | ⟨inner, hshape, -⟩
  · exact heq
  · exact absurd ⟨_, hshape⟩ houter

namespace Linked

variable {f : Forest} {free : List NodeId}

/-! ### Outwards -/

theorem wraps_outermostWithin (h : f.Linked free) (limit : Nat) (id : NodeId) :
    f.Wraps (f.outermostWithin limit id) id := by
  induction limit generalizing id with
  | zero => exact .self
  | succ limit ih =>
    rw [outermostWithin]
    split
    · next parent hparent =>
      split
      · next inner hshape =>
        obtain ⟨shape, hshape', hmem⟩ := mem_children_iff.1 ((h.parent_iff id parent).1 hparent)
        obtain rfl := Option.some.inj (hshape.symm.trans hshape')
        obtain rfl := Option.mem_toList.1 hmem
        exact (ih parent).inside hshape
      · exact .self
    · exact .self

/-- Parents have larger numbers, so the way out ends in time. -/
theorem not_isParenthesized_outermostWithin (h : f.Linked free) {limit : Nat} {id parent : NodeId}
    (hlimit : f.size ≤ id + limit) (hparent : f.parent? (f.outermostWithin limit id) = some parent) :
    ¬f.IsParenthesized parent := by
  induction limit generalizing id with
  | zero =>
    rw [Nat.add_zero] at hlimit
    rw [outermostWithin, parent?_eq_none_of_size_le hlimit] at hparent
    cases hparent
  | succ limit ih =>
    rw [outermostWithin] at hparent
    cases hup : f.parent? id with
    | none => simp [hup] at hparent
    | some up =>
      rw [hup] at hparent
      dsimp only at hparent
      split at hparent
      · exact ih (h.size_le_parent_add hup hlimit) hparent
      · next hnot =>
        obtain rfl := Option.some.inj (hup.symm.trans hparent)
        rintro ⟨inner, hshape⟩
        exact hnot inner hshape

theorem outermostWithin_eq (h : f.Linked free) {outer id : NodeId} (hwraps : f.Wraps outer id)
    (houter : ∀ parent, f.parent? outer = some parent → ¬f.IsParenthesized parent) {limit : Nat}
    (hlimit : f.size ≤ id + limit) : f.outermostWithin limit id = outer := by
  induction hwraps generalizing limit with
  | self =>
    cases limit with
    | zero => rfl
    | succ limit =>
      rw [outermostWithin]
      split
      · next parent hparent =>
        split
        · next inner hshape => exact absurd ⟨inner, hshape⟩ (houter parent hparent)
        · rfl
      · rfl
  | @inside p inner _ hshape ih =>
    have hmem : inner ∈ (ShapeOf.parenthesized (some inner)).children := by simp [ShapeOf.children]
    have hparent := h.parent?_of_shape? hshape hmem
    cases limit with
    | zero =>
      have hlt := Nat.lt_trans (h.lt_of_shape? hshape hmem) (lt_size_of_shape? hshape)
      exact absurd hlt (Nat.not_lt_of_le hlimit)
    | succ limit =>
      rw [outermostWithin, hparent]
      simp only [hshape]
      exact ih (h.size_le_parent_add hparent hlimit)

theorem outermostParentheses_eq_iff (h : f.Linked free) {outer id : NodeId} :
    f.outermostParentheses id = outer ↔
      f.Wraps outer id ∧ ∀ parent, f.parent? outer = some parent → ¬f.IsParenthesized parent := by
  constructor
  · rintro rfl
    exact ⟨h.wraps_outermostWithin f.size id,
      fun parent => h.not_isParenthesized_outermostWithin (Nat.le_add_left _ _)⟩
  · rintro ⟨hwraps, houter⟩
    exact h.outermostWithin_eq hwraps houter (Nat.le_add_left _ _)

/-- What stands in parentheses has the place of the parentheses. -/
theorem placeOf_eq_of_wraps (h : f.Linked free) {outer id : NodeId} (hwraps : f.Wraps outer id) :
    f.placeOf id = f.placeOf outer := by
  obtain ⟨hout, htop⟩ :=
    h.outermostParentheses_eq_iff.1 (rfl : f.outermostParentheses outer = _)
  have heq := h.outermostParentheses_eq_iff.2 ⟨hout.trans hwraps, htop⟩
  rw [placeOf, placeOf, heq]

end Linked

/-! ### Places -/

/-- That an expression, with all the parentheses around it, stands in a place. -/
inductive Stands (f : Forest) (id : NodeId) : Place → Prop
  | declarator {parent : NodeId} {name : Slot} :
      f.shape? parent = some (.declarator name (some id)) → Stands f id (.declaration name)
  | parameter {parent : NodeId} {isRest : Bool} {name : Slot} :
      f.shape? parent = some (.parameter isRest name (some id)) → Stands f id (.binding name)
  | patternElement {parent : NodeId} {isRest : Bool} {property name : Slot} :
      f.shape? parent = some (.patternElement isRest property name (some id)) →
      Stands f id (.binding name)
  | assignment {parent : NodeId} {target : Slot} :
      f.shape? parent = some (.binary target .assign (some id)) → Stands f id (.assignment target)
  | member {property : NodeId} {name : Slot} :
      f.shape? property = some (.propertyAssignment name (some id)) → Stands f id (.member property)

/-- What has a place stands there with all the parentheses around it. -/
theorem Linked.exists_stands {f : Forest} {free : List NodeId} (h : f.Linked free) {id : NodeId}
    {place : Place} (heq : f.placeOf id = place) (hplace : place ≠ .other) :
    ∃ outer, f.Wraps outer id ∧ f.Stands outer place := by
  refine ⟨f.outermostParentheses id, h.wraps_outermostWithin f.size id, ?_⟩
  rw [placeOf] at heq
  generalize f.outermostParentheses id = outer at heq ⊢
  cases hparent : f.parent? outer with
  | none => exact absurd (by simpa [hparent] using heq.symm) hplace
  | some parent =>
    simp only [hparent] at heq
    split at heq
    case h_6 => exact absurd heq.symm hplace
    all_goals
      next hshape =>
        split at heq
        · next hvalue =>
          subst heq hvalue
          first
          | exact .declarator hshape
          | exact .parameter hshape
          | exact .patternElement hshape
          | exact .assignment hshape
          | exact .member hshape
        · exact absurd heq.symm hplace

theorem Linked.placeOf_of_stands {f : Forest} {free : List NodeId} (h : f.Linked free)
    {outer id : NodeId} {place : Place} (hwraps : f.Wraps outer id) (hstands : f.Stands outer place) :
    f.placeOf id = place := by
  have hparent : ∀ {parent : NodeId} {shape : Shape}, f.shape? parent = some shape →
      outer ∈ shape.children → (∀ inner, shape ≠ .parenthesized inner) →
      f.parent? outer = some parent ∧ f.outermostParentheses id = outer := by
    intro parent shape hshape hmem hne
    have hup := h.parent?_of_shape? hshape hmem
    refine ⟨hup, h.outermostParentheses_eq_iff.2 ⟨hwraps, ?_⟩⟩
    rintro parent' hup' ⟨inner, hshape'⟩
    obtain rfl := Option.some.inj (hup.symm.trans hup')
    exact hne inner (Option.some.inj (hshape.symm.trans hshape'))
  cases hstands with
  | declarator hshape | parameter hshape | patternElement hshape | assignment hshape
  | member hshape =>
    obtain ⟨hup, houter⟩ := hparent hshape (by simp [ShapeOf.children]) nofun
    simp [placeOf, houter, hup, hshape]

/-! ### Inwards -/

theorem skipParenthesesWithin_eq_some_iff_of_not {f : Forest} {id e : NodeId}
    (hid : ¬f.IsParenthesized id) (limit : Nat) :
    f.skipParenthesesWithin limit id = some e ↔ f.Wraps id e ∧ ¬f.IsParenthesized e := by
  have hskip : f.skipParenthesesWithin limit id = some id := by
    cases limit with
    | zero => rfl
    | succ limit =>
      rw [skipParenthesesWithin]
      split
      · next inner hshape => exact absurd ⟨_, hshape⟩ hid
      · next hshape => exact absurd ⟨_, hshape⟩ hid
      · rfl
  rw [hskip]
  constructor
  · rintro ⟨⟩
    exact ⟨.self, hid⟩
  · rintro ⟨hwraps, -⟩
    rw [hwraps.eq_of_not_isParenthesized hid]

theorem Linked.skipParenthesesWithin_eq_some_iff {f : Forest} {free : List NodeId}
    (h : f.Linked free) {limit : Nat} {id e : NodeId} (hid : id < limit) :
    f.skipParenthesesWithin limit id = some e ↔ f.Wraps id e ∧ ¬f.IsParenthesized e := by
  induction limit generalizing id with
  | zero => exact absurd hid (Nat.not_lt_zero id)
  | succ limit ih =>
    by_cases hparenthesized : f.IsParenthesized id
    · obtain ⟨slot, hshape⟩ := hparenthesized
      constructor
      · intro hskip
        rw [skipParenthesesWithin, hshape] at hskip
        cases slot with
        | none => cases hskip
        | some inner =>
          have hlt := h.lt_of_shape? hshape (by simp [ShapeOf.children] : inner ∈ _)
          obtain ⟨hwraps, hnot⟩ := (ih (Nat.lt_of_lt_of_le hlt (Nat.le_of_lt_succ hid))).1 hskip
          exact ⟨(Wraps.self.inside hshape).trans hwraps, hnot⟩
      · rintro ⟨hwraps, hnot⟩
        rcases hwraps.eq_or_inside with rfl | ⟨inner, hshape', hwraps'⟩
        · exact absurd ⟨slot, hshape⟩ hnot
        · have hlt := h.lt_of_shape? hshape' (by simp [ShapeOf.children] : inner ∈ _)
          rw [skipParenthesesWithin, hshape']
          exact (ih (Nat.lt_of_lt_of_le hlt (Nat.le_of_lt_succ hid))).2 ⟨hwraps', hnot⟩
    · exact skipParenthesesWithin_eq_some_iff_of_not hparenthesized (limit + 1)

theorem Linked.skipParentheses_eq_some_iff {f : Forest} {free : List NodeId} (h : f.Linked free)
    {id e : NodeId} :
    f.skipParentheses (some id) = some e ↔ f.Wraps id e ∧ ¬f.IsParenthesized e := by
  rcases Nat.lt_or_ge id f.size with hid | hid
  · exact h.skipParenthesesWithin_eq_some_iff hid
  · refine skipParenthesesWithin_eq_some_iff_of_not ?_ f.size
    rintro ⟨inner, hshape⟩
    exact Nat.not_lt_of_le hid (lt_size_of_shape? hshape)

theorem Linked.skipParentheses_of_wraps {f : Forest} {free : List NodeId} (h : f.Linked free)
    {id e : NodeId} {shape : Shape} (hwraps : f.Wraps id e) (hshape : f.shape? e = some shape)
    (hne : ∀ inner, shape ≠ .parenthesized inner) : f.skipParentheses (some id) = some e := by
  refine h.skipParentheses_eq_some_iff.2 ⟨hwraps, ?_⟩
  rintro ⟨inner, hinner⟩
  exact hne inner (Option.some.inj (hshape.symm.trans hinner))

end FunctionNaming.Forest
