import FunctionNaming.Proofs.Grammar.Safe
import FunctionNaming.Proofs.Syntax.Spans

/-!
How far a node has come while a rule reads it. A rule notes where it starts, reads tokens and parts,
and ends the node behind the last token. `Stage` is what has to be known on the way for the node to be
in its place then: which parts the rule holds, which stand one behind the other from the start on, and
whether a token of the rule's own stands in front of them.

`Runs B s₀ s σ p after` says of a node that was begun in the state `s₀` and has come to the stage `σ`
in `s`: if `p` is run there without complaints, the node has come to the stage `after a`, where `a` is
the result. A rule as a whole begins with nothing and ends with the nodes that it gives, which its
caller holds as parts.
-/

namespace FunctionNaming.Grammar

variable {α β : Type} {B : Nat → Prop}

/-! ### States -/

/-- That the tokens ahead stand one behind the other between offsets of `B`, and behind what was read
last, and that all nodes are in their places. -/
structure Laid (B : Nat → Prop) (s : State) : Prop where
  ended : Ended s.upcoming
  chain : s.upcoming.IsChain fun t u => t.start < t.stop ∧ t.stop ≤ u.start
  tokens : ∀ t ∈ s.upcoming, B t.start ∧ B t.stop ∧ (t.kind = .endOfFile → t.stop = t.start)
  previous : B s.previousStop
  behind : s.previousStop ≤ s.current.start
  placed : s.forest.AllPlaced B

theorem Laid.current_mem {s : State} (h : Laid B s) : s.current ∈ s.upcoming := by
  obtain ⟨t, T, hT⟩ := List.exists_cons_of_ne_nil h.ended.ne_nil
  rw [State.current, hT]
  exact List.mem_cons_self

/-- Moving past a token leaves all in its place. -/
theorem Laid.advance {s : State} (h : Laid B s) :
    Laid B s.advance ∧ s.current.start ≤ s.advance.current.start ∧
      s.current.stop = s.advance.previousStop ∧
      (kindOf s.upcoming ≠ .endOfFile → s.current.start < s.current.stop) ∧
      s.current.start ≤ s.current.stop := by
  obtain ⟨hended, hchain, htokens, hprevious, hbehind, hplaced⟩ := h
  by_cases hk : kindOf s.upcoming = .endOfFile
  · -- Behind the end there is nothing to come to.
    obtain ⟨t, hT, ht⟩ := hended.eq_singleton hk
    obtain ⟨hstart, hstop, heq⟩ := htokens t (hT ▸ List.mem_cons_self)
    have hcurrent : s.current = t := by rw [State.current, hT]; rfl
    have hadvance : s.advance = { s with previousStop := t.stop } := by
      rw [State.advance, hT, hcurrent]
    have hle : t.stop = t.start := heq ht
    rw [hadvance, hcurrent]
    refine ⟨⟨hended, hchain, htokens, hstop, ?_, hplaced⟩, ?_, rfl, fun hne => absurd hk hne, ?_⟩
    · show t.stop ≤ s.current.start
      rw [hcurrent, hle]
    · show t.start ≤ s.current.start
      rw [hcurrent]
    · exact Nat.le_of_eq hle.symm
  · obtain ⟨t, u, T, hT⟩ := hended.exists_cons hk
    have hcurrent : s.current = t := by rw [State.current, hT]; rfl
    have hadvance : s.advance =
        { s with upcoming := u :: T, cursor := s.cursor + 1, previousStop := t.stop } := by
      rw [State.advance, hT, hcurrent]
    rw [hT] at hchain htokens hended
    obtain ⟨⟨hlt, hle⟩, htail⟩ := List.isChain_cons_cons.1 hchain
    have hsuffix : Ended (u :: T) := hended.suffix (List.suffix_cons t _) (List.cons_ne_nil u T)
    rw [hadvance, hcurrent]
    exact ⟨⟨hsuffix, htail, (List.forall_mem_cons.1 htokens).2, (htokens t List.mem_cons_self).2.1,
      hle, hplaced⟩, (Nat.le_of_lt hlt).trans hle, rfl, fun _ => hlt, Nat.le_of_lt hlt⟩

/-! ### Stages -/

/-- What is known of a node that is being read: whether a token stands in front of all its parts, and
the parts that are held. -/
structure Stage where
  opened : Bool
  held : List NodeId

namespace Stage

/-- Nothing has been read yet. -/
def fresh : Stage := ⟨false, []⟩

/-- The nodes `ids` are held, and may begin where the node does. -/
def made (ids : List NodeId) : Stage := ⟨false, ids⟩

/-- A token has been passed. It stands in front of all parts if there are none so far. -/
def passed (σ : Stage) : Stage := { σ with opened := σ.opened || σ.held.isEmpty }

/-- The nodes `ids` are held too. -/
def take (σ : Stage) (ids : List NodeId) : Stage := { σ with held := σ.held ++ ids }

/-- Whether anything has been read. -/
def moved (σ : Stage) : Bool := σ.opened || !σ.held.isEmpty

end Stage

/-- That the node that was begun in the state `s₀` has come to the stage `σ` in `s`. -/
structure Within (B : Nat → Prop) (s₀ : State) (σ : Stage) (s : State) : Prop where
  start : B s₀.current.start
  laid : Laid B s
  keeps : s₀.forest.KeepsSpans s.forest
  current_le : s₀.current.start ≤ s.current.start
  previous_le : s₀.previousStop ≤ s.previousStop
  moved : σ.moved = true → s₀.current.start < s.previousStop
  held : s.forest.Ordered s.previousStop (s₀.current.start + σ.opened.toNat) σ.held

namespace Within

variable {s₀ s s' : State} {σ σ' : Stage} {ids : List NodeId}

theorem fresh (h : Laid B s) : Within B s .fresh s where
  start := (h.tokens _ h.current_mem).1
  laid := h
  keeps := fun _ _ hspan => hspan
  current_le := Nat.le_refl _
  previous_le := Nat.le_refl _
  moved := nofun
  held := trivial

/-- What comes next stands behind what a token of the node stands in front of. -/
theorem lo_le (h : Within B s₀ σ s) : s₀.current.start + σ.opened.toNat ≤ s.current.start := by
  cases hopened : σ.opened with
  | false => exact h.current_le
  | true =>
    have hlt := h.moved (by rw [Stage.moved, hopened, Bool.true_or])
    have hbehind := h.laid.behind
    simp only [Bool.toNat_true]
    omega

theorem advance (h : Within B s₀ σ s) : Within B s₀ σ s.advance := by
  obtain ⟨hlaid, hcurrent, hstop, -, hle⟩ := h.laid.advance
  have hprevious : s.previousStop ≤ s.advance.previousStop := by
    rw [← hstop]
    exact h.laid.behind.trans hle
  refine ⟨h.start, hlaid, ?_, h.current_le.trans hcurrent, h.previous_le.trans hprevious,
    fun hmoved => (h.moved hmoved).trans_le hprevious, ?_⟩
  · rw [forest_advance]
    exact h.keeps
  · rw [forest_advance]
    exact h.held.widen (Nat.le_refl _) hprevious

/-- Moving past a token opens a node that has no parts yet. -/
theorem passes (h : Within B s₀ σ s) (hk : kindOf s.upcoming ≠ .endOfFile) :
    Within B s₀ σ.passed s.advance := by
  have hadvance := h.advance
  obtain ⟨-, -, hstop, hlt, -⟩ := h.laid.advance
  have hmoved : s₀.current.start < s.advance.previousStop := by
    rw [← hstop]
    exact h.current_le.trans_lt (hlt hk)
  refine { hadvance with moved := fun _ => hmoved, held := ?_ }
  obtain ⟨opened, held⟩ := σ
  cases held with
  | nil => trivial
  | cons id ids =>
    simp only [Stage.passed, List.isEmpty_cons, Bool.or_false]
    exact hadvance.held

/-- What a rule gives is held behind what was held before. -/
theorem part (h : Within B s₀ σ s) (h' : Within B s (.made ids) s') :
    Within B s₀ (σ.take ids) s' where
  start := h.start
  laid := h'.laid
  keeps := h.keeps.trans h'.keeps
  current_le := h.current_le.trans h'.current_le
  previous_le := h.previous_le.trans h'.previous_le
  moved := by
    intro hmoved
    cases hbefore : σ.moved with
    | true => exact (h.moved hbefore).trans_le h'.previous_le
    | false =>
      refine h.current_le.trans_lt (h'.moved ?_)
      simp only [Stage.moved, Stage.take, Stage.made, Bool.or_eq_false_iff, Bool.or_eq_true,
        Bool.not_eq_false', List.isEmpty_iff] at hbefore hmoved ⊢
      rw [hbefore.1, hbefore.2, List.nil_append] at hmoved
      simpa using hmoved
  held :=
    (h.held.grow h'.keeps).append h'.held h.laid.behind h.lo_le h'.previous_le

/-- Less may be known, and parts may be forgotten. -/
theorem weaken (h : Within B s₀ σ s) (hopened : σ'.opened = true → σ.opened = true)
    (hheld : σ'.held.Sublist σ.held) : Within B s₀ σ' s where
  start := h.start
  laid := h.laid
  keeps := h.keeps
  current_le := h.current_le
  previous_le := h.previous_le
  moved := by
    intro hmoved
    refine h.moved ?_
    simp only [Stage.moved, Bool.or_eq_true, Bool.not_eq_true', List.isEmpty_eq_false_iff] at hmoved ⊢
    rcases hmoved with hmoved | hmoved
    · exact .inl (hopened hmoved)
    · refine .inr fun hnil => hmoved ?_
      rw [hnil] at hheld
      exact List.sublist_nil.1 hheld
  held := by
    refine (h.held.sublist hheld).widen (Nat.add_le_add_left ?_ _) (Nat.le_refl _)
    exact Bool.toNat_le_toNat hopened

/-- A node that ends behind what was read last is in its place. -/
theorem finish (h : Within B s₀ σ s) {shape : Shape} (hmoved : σ.moved = true)
    (hbegins : shape.beginsItself = true → σ.opened = true)
    (hparts : shape.children.Sublist σ.held) :
    Within B s₀ (.made [s.forest.size]) (s.add s₀.current.start s.previousStop shape) := by
  have hlt := h.moved hmoved
  have hready : Within B s₀ ⟨shape.beginsItself, shape.children⟩ s := h.weaken hbegins hparts
  have hplaced : Forest.Placed B s.forest ⟨s₀.current.start, s.previousStop⟩ shape :=
    ⟨h.start, h.laid.previous, Nat.le_of_lt hlt, fun _ => hlt, hready.held⟩
  have hkeeps := s.forest.keepsSpans_add s₀.current.start s.previousStop shape
  refine ⟨h.start, { h.laid with placed := h.laid.placed.add hplaced }, h.keeps.trans hkeeps,
    h.current_le, h.previous_le, fun _ => hlt, ?_⟩
  exact ⟨⟨s₀.current.start, s.previousStop⟩, by rw [State.add, Forest.span?_add, if_pos rfl],
    Nat.le_refl _, Nat.le_of_lt hlt, Nat.le_refl _, trivial⟩

/-- The surroundings and the nesting do not matter. -/
theorem congr {s₁ s₁' : State} (h : Within B s₀ σ s) (hupcoming₀ : s₁.upcoming = s₀.upcoming)
    (hprevious₀ : s₁.previousStop = s₀.previousStop) (hforest₀ : s₁.forest = s₀.forest)
    (hupcoming : s₁'.upcoming = s.upcoming) (hprevious : s₁'.previousStop = s.previousStop)
    (hforest : s₁'.forest = s.forest) : Within B s₁ σ s₁' := by
  have hcurrent₀ : s₁.current = s₀.current := by rw [State.current, hupcoming₀, State.current]
  have hcurrent : s₁'.current = s.current := by rw [State.current, hupcoming, State.current]
  obtain ⟨hstart, ⟨hended, hchain, htokens, hplace, hbehind, hplaced⟩, hkeeps, hle, hle', hmoved,
    hheld⟩ := h
  rw [← hcurrent₀] at hstart hle hmoved hheld
  rw [← hcurrent] at hbehind hle
  rw [← hupcoming] at hended hchain htokens
  rw [← hprevious] at hplace hbehind hle' hmoved hheld
  rw [← hforest] at hplaced hkeeps hheld
  rw [← hforest₀] at hkeeps
  rw [← hprevious₀] at hle'
  exact ⟨hstart, ⟨hended, hchain, htokens, hplace, hbehind, hplaced⟩, hkeeps, hle, hle', hmoved, hheld⟩

end Within

/-! ### Runs -/

/-- That a node that was begun in `s₀` and has come to the stage `σ` in `s` comes to the stage `after a`
by a run of `p` without complaints, where `a` is the result. -/
def Runs (B : Nat → Prop) (s₀ s : State) (σ : Stage) (p : Parser α) (after : α → Stage) : Prop :=
  Within B s₀ σ s → Safe p s fun a s' => Within B s₀ (after a) s'

/-- That the nodes that `p` gives in `s` stand in their places, one behind the other. -/
def Spans (B : Nat → Prop) (s : State) (p : Parser α) (nodes : α → List NodeId) : Prop :=
  Runs B s s .fresh p fun a => .made (nodes a)

namespace Runs

variable {s₀ s : State} {σ σ' : Stage} {p : Parser α} {next : α → Parser β} {τ : α → Stage}
  {υ : β → Stage} {nodes : α → List NodeId}

/-! #### Sequences -/

theorem pure {a : α} (hopened : (τ a).opened = true → σ.opened = true)
    (hheld : (τ a).held.Sublist σ.held) : Runs B s₀ s σ (Pure.pure a) τ :=
  fun h => Safe.pure (h.weaken hopened hheld)

theorem weaken {τ' : α → Stage} (hp : Runs B s₀ s σ p τ)
    (hopened : ∀ a, (τ' a).opened = true → (τ a).opened = true)
    (hheld : ∀ a, (τ' a).held.Sublist (τ a).held) : Runs B s₀ s σ p τ' :=
  fun h => (hp h).mono fun a _ h' => h'.weaken (hopened a) (hheld a)

/-- Something is given up. -/
theorem none {f : β → List NodeId} {b : β} (hnil : f b = []) :
    Runs B s₀ s σ (Pure.pure b) fun b => .made (f b) :=
  pure nofun (by rw [Stage.made, hnil]; exact List.nil_sublist _)

theorem bind (hp : Runs B s₀ s σ p τ) (hnext : ∀ a s', Runs B s₀ s' (τ a) (next a) υ) :
    Runs B s₀ s σ (p >>= next) υ :=
  fun h => (hp h).bind fun a s' h' => hnext a s' h'

/-- A parser that gives nodes is a part of what is read. -/
theorem part (hp : Spans B s p nodes)
    (hnext : ∀ a s', Runs B s₀ s' (σ.take (nodes a)) (next a) υ) : Runs B s₀ s σ (p >>= next) υ :=
  fun h => (hp (.fresh h.laid)).bind fun a s' h' => hnext a s' (h.part h')

/-- The last part is all that is given. -/
theorem rest (hp : Spans B s p nodes) : Runs B s₀ s σ p fun a => .made (nodes a) :=
  fun h => (hp (.fresh h.laid)).mono fun _ _ h' =>
    (h.part h').weaken nofun (List.sublist_append_right _ _)

theorem map {g : α → β} (hp : Runs B s₀ s σ p fun a => υ (g a)) : Runs B s₀ s σ (g <$> p) υ := hp

/-- A parser that only tells something. -/
theorem tells {a : α} (hp : p.run s = (a, s)) (hnext : Runs B s₀ s σ (next a) υ) :
    Runs B s₀ s σ (p >>= next) υ :=
  fun h => Safe.tells hp (hnext h)

/-- Runs with complaints do not matter. -/
theorem complain {cause : Cause} {next : Unit → Parser β} :
    Runs B s₀ s σ (Grammar.complain cause >>= next) υ :=
  fun _ => Safe.complain.bind fun _ _ h => h.elim

/-! #### Tokens -/

theorem kind {next : TokenKind → Parser β} (hnext : Runs B s₀ s σ (next (kindOf s.upcoming)) υ) :
    Runs B s₀ s σ (Grammar.kind >>= next) υ :=
  hnext

theorem isAt {k : TokenKind} {next : Bool → Parser β}
    (hnext : Runs B s₀ s σ (next (kindOf s.upcoming == k)) υ) :
    Runs B s₀ s σ (Grammar.isAt k >>= next) υ :=
  hnext

theorem position {next : Nat → Parser β} (hnext : Runs B s₀ s σ (next s.current.start) υ) :
    Runs B s₀ s σ (Grammar.position >>= next) υ :=
  hnext

/-- A token is passed over, which may be the last one. -/
theorem skip {next : Unit → Parser β} (hnext : ∀ s', Runs B s₀ s' σ (next ()) υ) :
    Runs B s₀ s σ (Grammar.advance >>= next) υ :=
  fun h => hnext s.advance h.advance

theorem advance {next : Unit → Parser β} (hk : kindOf s.upcoming ≠ .endOfFile)
    (hnext : ∀ s', Runs B s₀ s' σ.passed (next ()) υ) :
    Runs B s₀ s σ (Grammar.advance >>= next) υ :=
  fun h => hnext s.advance (h.passes hk)

/-- A token that decides how the rule goes on. -/
theorem accept {k : TokenKind} {q r : Parser β} (hk : k ≠ .endOfFile)
    (htrue : ∀ s', Runs B s₀ s' σ.passed q υ) (hfalse : Runs B s₀ s σ r υ) :
    Runs B s₀ s σ (Grammar.accept k >>= fun b => if b then q else r) υ := by
  intro h
  by_cases hkind : kindOf s.upcoming = k
  · refine Safe.runs (run_accept_of_eq hkind) ?_
    rw [if_pos rfl]
    exact htrue _ (h.passes (hkind ▸ hk))
  · refine Safe.runs (run_accept_of_ne hkind) ?_
    rw [if_neg Bool.false_ne_true]
    exact hfalse h

/-- A token that may be there. -/
theorem accepted {k : TokenKind} : Runs B s₀ s σ (Grammar.accept k) fun _ => σ := by
  intro h
  by_cases hkind : kindOf s.upcoming = k
  · rw [Safe, run_accept_of_eq hkind]
    exact fun _ => h.advance
  · rw [Safe, run_accept_of_ne hkind]
    exact fun _ => h

theorem perhaps {k : TokenKind} {next : Bool → Parser β}
    (hnext : ∀ b s', Runs B s₀ s' σ (next b) υ) : Runs B s₀ s σ (Grammar.accept k >>= next) υ :=
  accepted.bind hnext

theorem expected {k : TokenKind} (hk : k ≠ .endOfFile) :
    Runs B s₀ s σ (Grammar.expect k) fun _ => σ.passed := by
  refine accept hk (fun s' => ?_) ?_
  · exact pure id (List.Sublist.refl _)
  · exact fun _ => Safe.complain.mono fun _ _ h => h.elim

theorem expect {k : TokenKind} {next : Unit → Parser β} (hk : k ≠ .endOfFile)
    (hnext : ∀ s', Runs B s₀ s' σ.passed (next ()) υ) :
    Runs B s₀ s σ (Grammar.expect k >>= next) υ :=
  (expected hk).bind fun _ s' => hnext s'

theorem semicolon {next : Unit → Parser β} (hnext : ∀ s', Runs B s₀ s' σ (next ()) υ) :
    Runs B s₀ s σ (Grammar.semicolon >>= next) υ := by
  have hsemicolon : Runs B s₀ s σ Grammar.semicolon fun _ => σ := by
    refine perhaps fun b s' => ?_
    split
    · exact pure id (List.Sublist.refl _)
    · refine tells (run_canEndStatement s') ?_
      split
      · exact pure id (List.Sublist.refl _)
      · refine (expected (by decide)).weaken (fun _ hopened => ?_) fun _ => List.Sublist.refl _
        exact Bool.or_eq_true_iff.2 (.inl hopened)
  exact hsemicolon.bind fun _ s' => hnext s'

/-! #### Nodes -/

/-- The node is there. -/
theorem finish {shape : Shape} (hmoved : σ.moved = true)
    (hbegins : shape.beginsItself = true → σ.opened = true)
    (hparts : shape.children.Sublist σ.held) :
    Runs B s₀ s σ (Grammar.finish s₀.current.start shape) fun id => .made [id] :=
  fun h _ => h.finish hmoved hbegins hparts

/-- A loop lets a node grow. -/
theorem iterate {step : Slot → Parser (Option Slot)} {a : Slot} (ha : a.toList.Sublist σ.held)
    (hstep : ∀ (a : Slot) s, Runs B s₀ s (.made a.toList) (step a) fun r => .made (r.getD a).toList) :
    Runs B s₀ s σ (Grammar.iterate a step) fun b => .made b.toList := by
  have hwithin : ∀ limit (a : Slot) s, Runs B s₀ s (.made a.toList) (iterateWithin step limit a)
      fun b => .made b.toList := by
    intro limit
    induction limit with
    | zero => exact fun a s h _ => h
    | succ limit ih =>
      intro a s
      refine (hstep a s).bind fun r s' => ?_
      cases r with
      | none => exact pure id (List.Sublist.refl _)
      | some b => exact ih b s'
  exact tells (a := s.remaining) rfl fun h => hwithin _ a s (h.weaken nofun ha)

end Runs

namespace Spans

variable {s : State} {nodes : α → List NodeId} {p : Parser α}

theorem map {g : α → β} {nodes : β → List NodeId} (hp : Spans B s p fun a => nodes (g a)) :
    Spans B s (g <$> p) nodes := hp

theorem withContext {change : Context → Context}
    (hp : Spans B { s with context := change s.context } p nodes) :
    Spans B s (Grammar.withContext change p) nodes :=
  fun h hclean => (hp (h.congr rfl rfl rfl rfl rfl rfl) hclean).congr rfl rfl rfl rfl rfl rfl

theorem nested {p : Parser Slot}
    (hp : Spans B { s with depth := s.depth + 1 } p Option.toList) :
    Spans B s (Grammar.nested p) Option.toList := by
  refine Runs.tells (a := s.depth) rfl ?_
  split
  · exact Runs.complain
  · exact fun h hclean =>
      (hp (h.congr rfl rfl rfl rfl rfl rfl) hclean).congr rfl rfl rfl rfl rfl rfl

/-- Nodes that are read one after the other stand one behind the other. -/
theorem collect {item : Parser (Slot × Bool)} (hitem : ∀ s, Spans B s item fun r => r.1.toList) :
    Spans B s (Grammar.collect item) id := by
  have hwithin : ∀ limit s, Spans B s (collectWithin item limit) id := by
    intro limit
    induction limit with
    | zero => exact fun s h _ => h
    | succ limit ih =>
      refine fun s => Runs.part (hitem s) fun r s' => ?_
      obtain ⟨node, more⟩ := r
      cases more with
      | true => exact Runs.part (ih s') fun ids s'' => Runs.pure nofun (List.Sublist.refl _)
      | false => exact Runs.pure nofun (by simp [Stage.made, Stage.take, Stage.fresh])
  exact Runs.tells (a := s.remaining) rfl (hwithin _ s)

theorem listItem {element : Parser Slot} (helement : Spans B s element Option.toList) :
    Spans B s (Grammar.listItem element) fun r => r.1.toList := by
  refine Runs.part helement fun node s' => ?_
  cases node with
  | none => exact Runs.none rfl
  | some node => exact Runs.perhaps fun b s'' => Runs.pure nofun (List.Sublist.refl _)

theorem commaList {close : TokenKind} {element : Parser Slot}
    (helement : ∀ s, Spans B s element Option.toList) :
    Spans B s (Grammar.commaList close element) id := by
  refine collect fun s => Runs.tells (run_isAtOrEnd s close) ?_
  split
  · exact Runs.none rfl
  · exact listItem (helement s)

/-- A hole stands in front of the comma that makes it. -/
theorem hole (hk : kindOf s.upcoming ≠ .endOfFile) :
    Spans B s (do
      let hole ← insertNode .hole
      Grammar.advance
      return (Option.some hole, true)) fun r : Slot × Bool => r.1.toList := by
  intro h _
  have hplaced : s.forest.Placed B ⟨s.current.start, s.current.start⟩ .hole :=
    ⟨h.start, h.start, Nat.le_refl _, nofun, trivial⟩
  have hlaid : Laid B (s.add s.current.start s.current.start .hole) :=
    { h.laid with placed := h.laid.placed.add hplaced }
  have hpassed := (Within.fresh hlaid).passes hk
  have hlt := hpassed.moved rfl
  refine ⟨h.start, hpassed.laid, ?_, hpassed.current_le, hpassed.previous_le, fun _ => hlt, ?_⟩
  · exact (s.forest.keepsSpans_add _ _ _).trans hpassed.keeps
  · have hspan : (s.add s.current.start s.current.start .hole).forest.span? s.forest.size =
        Option.some ⟨s.current.start, s.current.start⟩ := by
      rw [State.add, Forest.span?_add, if_pos rfl]
    exact ⟨⟨s.current.start, s.current.start⟩, hpassed.keeps _ _ hspan, Nat.le_refl _,
      Nat.le_refl _, Nat.le_of_lt hlt, trivial⟩

theorem commaListWithHoles {element : Parser Slot}
    (helement : ∀ s, Spans B s element Option.toList) :
    Spans B s (Grammar.commaListWithHoles element) id := by
  refine collect fun s => Runs.tells (run_isAtOrEnd s .closeBracket) ?_
  split
  · exact Runs.none rfl
  · refine Runs.isAt ?_
    split
    · next hcomma => exact hole (by rw [eq_of_beq hcomma]; decide)
    · exact listItem (helement s)

end Spans

end FunctionNaming.Grammar
