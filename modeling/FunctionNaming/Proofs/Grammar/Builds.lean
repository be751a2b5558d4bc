import FunctionNaming.Grammar.Parser
import FunctionNaming.Proofs.Syntax.Linked
import FunctionNaming.Proofs.Syntax.Nesting

/-!
What a parser does with free nodes. `Builds j k held p made` says that `p` may be run where the nodes
in `held` are free, uses them up, and hands over the nodes in `made` of its result, which are free. All
other free nodes stay free, so the rules for putting parsers together only have to keep account of
the nodes that a rule of the grammar holds in its hands.

Along with them goes a bound on how deeply they nest. What can still be nested where a parser runs is
the room that is left, and the nesting in the nodes that a rule holds exceeds the room by `j` at most, in
those that it hands over by `k`. Entering a nested rule takes one from the room, so what is one too much
inside the rule is not too much outside.
-/

namespace FunctionNaming.Grammar

variable {α β : Type}

/-- How many nested rules can still be entered. -/
def State.room (s : State) : Nat := maxNesting - s.depth

/-- That a rule holds the nodes in `held`, and that it and those it is used by hold nothing else but
`others`. -/
structure State.Holds (s : State) (j : Nat) (held others : List NodeId) : Prop where
  linked : s.forest.Linked (held ++ others)
  nests : ∀ id ∈ held, s.forest.NestsWithin (s.room + j) id

/-- From a forest where the nodes in `held` and any others are free, `p` leads to one where the nodes
in `made` of its result and these others are free. -/
def Builds (j k : Nat) (held : List NodeId) (p : Parser α) (made : α → List NodeId) : Prop :=
  ∀ s others, s.Holds j held others → (p.run s).2.Holds k (made (p.run s).1) others

namespace State.Holds

variable {s s' : State} {j k : Nat} {held held' others : List NodeId}

/-- Nodes may be forgotten, and bounds may be relaxed. -/
theorem mono (h : s.Holds j held others) (hcount : ∀ id, held'.count id ≤ held.count id)
    (hjk : j ≤ k) : s.Holds k held' others where
  linked := by
    refine h.linked.mono fun id => ?_
    rw [List.count_append, List.count_append]
    exact Nat.add_le_add_right (hcount id) _
  nests := by
    intro id hid
    have hmem : id ∈ held :=
      List.count_pos_iff.1 (Nat.lt_of_lt_of_le (List.count_pos_iff.2 hid) (hcount id))
    exact (h.nests id hmem).mono (Nat.add_le_add_left hjk _)

theorem of_forest (h : s.Holds j held others) (hforest : s'.forest = s.forest)
    (hdepth : s'.depth = s.depth) : s'.Holds j held others where
  linked := hforest ▸ h.linked
  nests := by
    rw [State.room, hdepth, hforest]
    exact h.nests

/-- A rule puts aside what it holds while it uses another one. -/
theorem put_aside (h : s.Holds j held others) : s.Holds k [] (held ++ others) :=
  ⟨h.linked, nofun⟩

/-- A rule takes up again what it has put aside. -/
theorem take_up (h : s.Holds j held others) (hkeeps : s.Keeps s')
    (h' : s'.Holds j held' (held ++ others)) : s'.Holds j (held' ++ held) others where
  linked := by simpa using h'.linked
  nests := by
    intro id hid
    rcases List.mem_append.1 hid with hid | hid
    · exact h'.nests id hid
    · rw [State.room, hkeeps.depth]
      exact (h.nests id hid).grow hkeeps.shape?

/-- A new node takes nodes that are held as its parts. -/
theorem add (h : s.Holds j held others) {shape : Shape}
    (hcount : ∀ id, shape.children.count id ≤ held.count id) (start stop : Nat) :
    (s.add start stop shape).Holds (j + shape.nesting) [s.forest.size] others where
  linked := by
    refine h.linked.add (fun id => ?_) start stop
    rw [List.count_append]
    exact Nat.add_le_add_right (hcount id) _
  nests := by
    intro id hid
    obtain rfl := List.mem_singleton.1 hid
    refine .node (Forest.shape?_add_self _ _ _ _) (m := s.room + j) ?_ fun part hpart => ?_
    · show shape.nesting + (s.room + j) ≤ s.room + (j + shape.nesting)
      omega
    · have hmem : part ∈ held :=
        List.count_pos_iff.1 (Nat.lt_of_lt_of_le (List.count_pos_iff.2 hpart) (hcount part))
      exact (h.nests part hmem).grow fun _ _ hid => Forest.shape?_add_of_some hid _ _ _

/-- What is one too much inside a nested rule is not too much outside. -/
theorem deeper (hdepth : s.depth < maxNesting)
    (h : { s with depth := s.depth + 1 }.Holds (j + 1) held others) : s.Holds j held others where
  linked := h.linked
  nests := by
    intro id hid
    refine (h.nests id hid).mono ?_
    show maxNesting - (s.depth + 1) + (j + 1) ≤ maxNesting - s.depth + j
    omega

end State.Holds

namespace Builds

variable {j k l : Nat} {held : List NodeId} {made : α → List NodeId} {made' : β → List NodeId}

/-! ### Sequences -/

theorem pure {a : α} (h : ∀ id, (made a).count id ≤ held.count id) :
    Builds j j held (Pure.pure a) made :=
  fun _ _ hs => hs.mono h (Nat.le_refl j)

/-- A parser that does nothing hands over nothing. -/
theorem skip (a : α) : Builds j j held (Pure.pure a) fun _ => [] :=
  pure fun _ => Nat.zero_le _

/-- What is handed over within a bound is within any larger one. -/
theorem relax {p : Parser α} (hp : Builds j k held p made) (h : k ≤ l) : Builds j l held p made :=
  fun s others hs => (hp s others hs).mono (fun _ => Nat.le_refl _) h

/-- Where nothing is held, nothing exceeds any bound. -/
theorem of_nil {p : Parser α} (hp : Builds j k [] p made) : Builds l k [] p made :=
  fun s others hs => hp s others hs.put_aside

/-- What a parser hands over is held by the one that follows. -/
theorem seq {p : Parser α} {next : α → Parser β} (hp : Builds j k held p made)
    (hnext : ∀ a, Builds k l (made a) (next a) made') : Builds j l held (p >>= next) made' :=
  fun s others hs => hnext (p.run s).1 (p.run s).2 others (hp s others hs)

/-- A parser that needs no nodes is followed by one that may also use what was held before. -/
theorem bind {p : Parser α} {next : α → Parser β} (hp : Builds j j [] p made)
    (hnext : ∀ a, Builds j k (made a ++ held) (next a) made') :
    Builds j k held (p >>= next) made' := by
  intro s others hs
  have hs₁ := hp s (held ++ others) hs.put_aside
  exact hnext (p.run s).1 (p.run s).2 others (hs.take_up (p.keeps s) hs₁)

theorem pure_bind {a : α} {next : α → Parser β} (h : Builds j k held (next a) made') :
    Builds j k held (Pure.pure a >>= next) made' :=
  h

theorem map {p : Parser α} (hp : Builds j k held p made) {g : α → β}
    (h : ∀ a, made' (g a) = made a) : Builds j k held (g <$> p) made' := by
  intro s others hs
  have hs' := hp s others hs
  show (p.run s).2.Holds k (made' (g (p.run s).1)) others
  rw [h]
  exact hs'

/-- What gives up hands over what is left over. -/
theorem cutOff {a : α} (h : ∀ id, (made a).count id ≤ held.count id) :
    Builds j j held (Parser.cutOff a) made :=
  pure h

/-- A parser that leaves the forest alone. -/
theorem of_forest {p : Parser α} (h : ∀ s, (p.run s).2.forest = s.forest) :
    Builds j j [] p fun _ => [] :=
  fun s _ hs => hs.of_forest (h s) (p.keeps s).depth

end Builds

variable {j : Nat} {held : List NodeId}

/-! ### Tokens -/

theorem builds_kind : Builds j j [] kind fun _ => [] :=
  Builds.of_forest fun _ => rfl

theorem builds_isAt (k : TokenKind) : Builds j j [] (isAt k) fun _ => [] :=
  Builds.of_forest fun _ => rfl

theorem builds_position : Builds j j [] position fun _ => [] :=
  Builds.of_forest fun _ => rfl

theorem builds_afterLineBreak : Builds j j [] afterLineBreak fun _ => [] :=
  Builds.of_forest fun _ => rfl

theorem builds_context : Builds j j [] context fun _ => [] :=
  Builds.of_forest fun _ => rfl

theorem builds_inspect (tell : State → α) : Builds j j [] (Parser.inspect tell) fun _ => [] :=
  Builds.of_forest fun _ => rfl

theorem builds_advance : Builds j j [] advance fun _ => [] := by
  refine Builds.of_forest fun s => ?_
  show s.advance.forest = s.forest
  rw [State.advance]
  split <;> rfl

theorem builds_isPropertyWord : Builds j j [] isPropertyWord fun _ => [] :=
  Builds.of_forest fun _ => rfl

theorem builds_isAtOrEnd (k : TokenKind) : Builds j j [] (isAtOrEnd k) fun _ => [] :=
  Builds.of_forest fun _ => rfl

theorem builds_complain (cause : Cause) : Builds j j [] (complain cause) fun _ => [] := by
  refine Builds.of_forest fun s => ?_
  show (s.complain cause).forest = s.forest
  rw [State.complain]
  split <;> rfl

theorem builds_isIdentifier : Builds j j [] isIdentifier fun _ => [] := by
  refine builds_kind.bind fun k => ?_
  split
  · exact Builds.skip _
  · exact builds_context.bind fun _ => Builds.skip _
  · exact Builds.skip _

theorem builds_accept (k : TokenKind) : Builds j j [] (accept k) fun _ => [] := by
  refine (builds_isAt k).bind fun b => ?_
  split
  · exact builds_advance.bind fun _ => Builds.skip _
  · exact Builds.skip _

theorem builds_expect (k : TokenKind) : Builds j j [] (expect k) fun _ => [] := by
  refine (builds_accept k).bind fun b => ?_
  split
  · exact Builds.skip _
  · exact builds_complain _

theorem builds_canEndStatement : Builds j j [] canEndStatement fun _ => [] := by
  refine builds_kind.bind fun k => ?_
  split
  · exact Builds.skip _
  · exact Builds.skip _
  · exact Builds.skip _
  · exact builds_afterLineBreak

theorem builds_semicolon : Builds j j [] semicolon fun _ => [] := by
  refine (builds_accept _).bind fun b => ?_
  split
  · exact Builds.skip _
  · refine builds_canEndStatement.bind fun b => ?_
    split
    · exact Builds.skip _
    · exact builds_expect _

/-! ### Nodes -/

/-- A node uses up its parts. What else was held is forgotten. -/
theorem builds_finish {start : Nat} {shape : Shape} (hflat : shape.nesting = 0)
    (h : ∀ id, shape.children.count id ≤ held.count id) :
    Builds j j held (finish start shape) fun id => [id] := by
  intro s others hs
  have hadd := hs.add h start s.previousStop
  rw [hflat] at hadd
  exact hadd

/-- A node that nests is a step further above the nesting in its parts. -/
theorem builds_finish_nesting {start : Nat} {shape : Shape} (hnests : shape.nesting = 1)
    (h : ∀ id, shape.children.count id ≤ held.count id) :
    Builds j (j + 1) held (finish start shape) fun id => [id] := by
  intro s others hs
  have hadd := hs.add h start s.previousStop
  rw [hnests] at hadd
  exact hadd

/-- A node without parts comes from nowhere. -/
theorem builds_insertNode {shape : Shape} (hflat : shape.nesting = 0) (h : shape.children = []) :
    Builds j j [] (insertNode shape) fun id => [id] := by
  intro s others hs
  have hparts : ∀ id, shape.children.count id ≤ ([] : List NodeId).count id := fun id => by simp [h]
  have hadd := hs.add hparts s.current.start s.current.start
  rw [hflat] at hadd
  exact hadd

theorem builds_missingIdentifier : Builds j j [] missingIdentifier fun id => [id] :=
  builds_insertNode rfl rfl

namespace Builds

variable {k : Nat} {made : α → List NodeId}

/-! ### Control -/

theorem lookAhead {p : Parser α} (hp : Builds j j [] p fun _ => []) :
    Builds j j [] (lookAhead p) fun _ => [] :=
  fun s others hs => (hp s others hs).of_forest rfl rfl

theorem withContext {change : Context → Context} {p : Parser α} (hp : Builds j k held p made) :
    Builds j k held (withContext change p) made :=
  fun s others hs =>
    (hp { s with context := change s.context } others (hs.of_forest rfl rfl)).of_forest rfl rfl

theorem outsideForHead {p : Parser α} (hp : Builds j k held p made) :
    Builds j k held (outsideForHead p) made :=
  hp.withContext

/-- In a nested rule there is room for one less, so it may exceed that by one more. -/
theorem nested {p : Parser Slot} (hp : Builds 1 (k + 1) [] p Option.toList) :
    Builds j k [] (nested p) Option.toList := by
  intro s others hs
  have hrun : (Grammar.nested p).run s = Parser.run (if maxNesting ≤ s.depth then do
      complain .nestedTooDeep
      return none
    else deeper p) s := rfl
  rw [hrun]
  -- Where the nesting is too deep already, nothing is handed over.
  by_cases hdepth : maxNesting ≤ s.depth
  · rw [if_pos hdepth]
    exact builds_complain _ s others hs.put_aside
  · rw [if_neg hdepth]
    have hinside := hp { s with depth := s.depth + 1 } others ⟨hs.linked, nofun⟩
    have hkept := (p.keeps { s with depth := s.depth + 1 }).depth
    refine State.Holds.deeper ?_ (hinside.of_forest rfl ?_)
    · show (p.run { s with depth := s.depth + 1 }).2.depth - 1 < maxNesting
      rw [hkept]
      exact Nat.lt_of_not_le hdepth
    · show (p.run { s with depth := s.depth + 1 }).2.depth - 1 + 1 = _
      rw [hkept]
      rfl

/-- A round of a loop uses up the result of the round before, unless it is the last one. -/
theorem iterate {a : α} {step : α → Parser (Option α)}
    (h : ∀ a, Builds j j (made a) (step a) fun r => made (r.getD a)) :
    Builds j j (made a) (iterate a step) made := by
  have hwithin : ∀ limit a, Builds j j (made a) (iterateWithin step limit a) made := by
    intro limit
    induction limit with
    | zero => exact fun a => cutOff fun _ => Nat.le_refl _
    | succ limit ih =>
      intro a
      refine (h a).seq fun r => ?_
      cases r with
      | none => exact pure fun _ => Nat.le_refl _
      | some b => exact ih b
  exact (builds_inspect _).bind fun remaining => hwithin _ a

theorem collect {item : Parser (Slot × Bool)} (h : Builds j j [] item fun r => r.1.toList) :
    Builds j j [] (collect item) id := by
  have hwithin : ∀ limit, Builds j j [] (collectWithin item limit) id := by
    intro limit
    induction limit with
    | zero => exact cutOff fun _ => Nat.le_refl _
    | succ limit ih =>
      refine h.bind fun r => ?_
      obtain ⟨node, more⟩ := r
      have hcount : ∀ nodes : List NodeId, ∀ id,
          (node.toList ++ nodes).count id ≤ (nodes ++ (node.toList ++ [])).count id := by
        intro nodes id
        simp only [List.count_append, List.count_nil]
        omega
      cases more with
      | true => exact ih.bind fun nodes => pure (hcount nodes)
      | false =>
        have hnil : Builds j j [] (Pure.pure [] : Parser (List NodeId)) id := pure fun _ => Nat.le_refl _
        exact hnil.bind fun nodes => pure (hcount nodes)
  exact (builds_inspect _).bind fun remaining => hwithin _

theorem listItem {element : Parser Slot} (h : Builds j j [] element Option.toList) :
    Builds j j [] (Grammar.listItem element) fun r => r.1.toList := by
  refine h.bind fun node => ?_
  cases node with
  | none => exact pure fun _ => Nat.le_refl _
  | some node => exact (builds_accept _).bind fun _ => pure fun _ => Nat.le_refl _

theorem commaList {close : TokenKind} {element : Parser Slot}
    (h : Builds j j [] element Option.toList) : Builds j j [] (commaList close element) id := by
  refine collect ((builds_isAtOrEnd _).bind fun b => ?_)
  split
  · exact pure fun _ => Nat.le_refl _
  · exact h.listItem

theorem commaListWithHoles {element : Parser Slot} (h : Builds j j [] element Option.toList) :
    Builds j j [] (commaListWithHoles element) id := by
  refine collect ((builds_isAtOrEnd _).bind fun b => ?_)
  split
  · exact pure fun _ => Nat.le_refl _
  · refine (builds_isAt _).bind fun b => ?_
    split
    · exact (builds_insertNode rfl rfl).bind fun hole => builds_advance.bind fun _ =>
        pure fun _ => Nat.le_refl _
    · exact h.listItem

end Builds

end FunctionNaming.Grammar
