import Mathlib.Order.Filter.Finite
import FunctionNaming.Proofs.Grammar.Progress

/-!
Reasoning about runs without complaints. Complaints are never taken back, so a run that ends without
any had none on the way, and what is said of the parts of a parser holds of the whole.
-/

namespace FunctionNaming.Grammar

open SyntaxTree (node)

variable {α β : Type}

/-! ### Clean states -/

/-- That nothing has been complained about. -/
def State.Clean (s : State) : Prop := s.faults = #[]

theorem State.Keeps.clean {s s' : State} (h : s.Keeps s') (hs' : s'.Clean) : s.Clean := by
  have hfaults := h.faults
  rw [hs', Array.toList_empty, List.prefix_nil] at hfaults
  exact Array.toList_eq_nil_iff.1 hfaults

theorem State.not_clean_complain (s : State) (cause : Cause) : ¬(s.complain cause).Clean := by
  rw [complain]
  split
  · next h =>
    intro hs
    rw [hs] at h
    simp at h
  · intro hs
    simp [Clean] at hs

/-- Nodes together with the trees that are read from them. -/
abbrev Known := List (List NodeId × List SyntaxTree)

/-- That `g` gives the known trees for the known nodes. -/
def Known.Holds (g : NodeId → Option SyntaxTree) : Known → Prop
  | [] => True
  | (ids, ts) :: known => ids.mapM g = some ts ∧ Holds g known

@[simp]
theorem Known.holds_cons {g : NodeId → Option SyntaxTree} {ids : List NodeId}
    {ts : List SyntaxTree} {known : Known} :
    Known.Holds g ((ids, ts) :: known) ↔ ids.mapM g = some ts ∧ known.Holds g := Iff.rfl

theorem Known.holds_of_forall {g : NodeId → Option SyntaxTree} {known : Known}
    (h : ∀ p ∈ known, p.1.mapM g = some p.2) : known.Holds g := by
  induction known with
  | nil => trivial
  | cons p known ih =>
    rw [List.forall_mem_cons] at h
    exact ⟨h.1, ih h.2⟩

/-- That a shape has the parts of another, when the known nodes are replaced by their trees. -/
def Gives (known : Known) (shape : Shape) (shape' : ShapeOf SyntaxTree) : Prop :=
  ∀ g : NodeId → Option SyntaxTree, known.Holds g → shape.replace? g = some shape'

@[simp]
theorem gives_iff {known : Known} {shape : Shape} {shape' : ShapeOf SyntaxTree} :
    Gives known shape shape' ↔ ∀ g : NodeId → Option SyntaxTree, known.Holds g →
      shape.replace? g = some shape' := Iff.rfl

-- The shapes that a parser builds are known, so a replacement in them can be carried out.
attribute [simp] ShapeOf.replace?.eq_def

@[simp ↓]
theorem mapM_toList_eq_some {g : α → Option β} {slot : Option α} {bs : List β} :
    slot.toList.mapM g = some bs ↔ slot.mapM g = some bs.head? ∧ bs.length = slot.toList.length := by
  cases slot with
  | none => cases bs <;> simp
  | some a =>
    cases hg : g a with
    | none => simp [hg]
    | some b => rcases bs with _ | ⟨b', _ | _⟩ <;> simp [hg]

@[simp ↓]
theorem mapM_singleton_eq_some {g : α → Option β} {a : α} {bs : List β} :
    [a].mapM g = some bs ↔ g a = bs.head? ∧ bs.length = 1 := by
  cases hg : g a with
  | none => cases bs <;> simp [hg]
  | some b => rcases bs with _ | ⟨b', _ | _⟩ <;> simp [hg]

/-- Where a parser stands: in which surroundings, before which tokens, and which nodes it knows the
trees of. -/
structure At (Γ : Context) (d : Nat) (T : List Token) (known : Known) (s : State) : Prop where
  context : s.context = Γ
  depth : s.depth = d
  upcoming : s.upcoming = T
  ended : Ended T
  reads : ∀ p ∈ known, s.forest.Reads p.1 p.2

section At

variable {Γ : Context} {d : Nat} {T T' : List Token} {known : Known} {s s' : State}

theorem At.ended_upcoming (h : At Γ d T known s) : Ended s.upcoming := h.upcoming ▸ h.ended

theorem At.learn {ids : List NodeId} {ts : List SyntaxTree} (h : At Γ d T known s)
    (hreads : s.forest.Reads ids ts) : At Γ d T ((ids, ts) :: known) s :=
  { h with reads := List.forall_mem_cons.2 ⟨hreads, h.reads⟩ }

theorem At.moves (h : At Γ d T known s) (hmoves : s.Moves T' s') (hT' : Ended T') :
    At Γ d T' known s' where
  context := hmoves.context.trans h.context
  depth := hmoves.depth.trans h.depth
  upcoming := hmoves.upcoming
  ended := hT'
  reads := fun p hp => by
    rw [hmoves.forest]
    exact h.reads p hp

theorem At.advance {t : Token} (h : At Γ d (t :: T) known s) (ht : t.kind ≠ .endOfFile) :
    At Γ d T known s.advance := by
  have hk : kindOf s.upcoming ≠ .endOfFile := by
    rw [h.upcoming]
    exact ht
  have hmoves := State.moves_advance h.ended_upcoming hk
  have hended := ended_advance h.ended_upcoming
  rw [h.upcoming] at hmoves
  rw [hmoves.upcoming] at hended
  exact h.moves hmoves hended

theorem At.run_kind (h : At Γ d T known s) : kind.run s = (kindOf T, s) := by
  rw [← h.upcoming]
  rfl

theorem At.run_current (h : At Γ d T known s) : Grammar.current.run s = (headOf T, s) := by
  rw [← h.upcoming]
  rfl

theorem At.run_isAt (h : At Γ d T known s) (k : TokenKind) :
    (isAt k).run s = (kindOf T == k, s) := by
  rw [← h.upcoming]
  rfl

theorem At.run_isAtOrEnd (h : At Γ d T known s) (k : TokenKind) :
    (isAtOrEnd k).run s = (kindOf T == k || kindOf T == .endOfFile, s) := by
  rw [← h.upcoming]
  rfl

theorem At.run_afterLineBreak (h : At Γ d T known s) :
    afterLineBreak.run s = (isBroken T, s) := by
  rw [← h.upcoming]
  rfl

theorem At.run_context (h : At Γ d T known s) : Grammar.context.run s = (Γ, s) := by
  rw [← h.context]
  rfl

theorem At.run_isIdentifier (h : At Γ d T known s) :
    isIdentifier.run s = (Γ.binds (kindOf T), s) := by
  rw [Grammar.run_isIdentifier, h.upcoming, h.context]

theorem At.run_isPropertyWord (h : At Γ d T known s) :
    isPropertyWord.run s = ((kindOf T).isWord, s) := by
  rw [Grammar.run_isPropertyWord, h.upcoming]

theorem At.run_startsBinding (h : At Γ d T known s) :
    startsBinding.run s = (Γ.startsBinding (kindOf T), s) := by
  rw [Grammar.run_startsBinding, h.upcoming, h.context]

theorem At.run_canEndStatement (h : At Γ d T known s) :
    canEndStatement.run s = (endsStatement T, s) := by
  rw [Grammar.run_canEndStatement, h.upcoming]

theorem At.run_endsYield (h : At Γ d T known s) : endsYield.run s = (endsYieldAt T, s) := by
  rw [Grammar.run_endsYield, h.upcoming]

theorem At.run_startsArrowFunction (h : At Γ d T known s) :
    startsArrowFunction.run s = (startsArrow Γ T, s) := by
  rw [Grammar.run_startsArrowFunction h.ended_upcoming, h.upcoming, h.context]

/-- Looking ahead for a function matters behind the word `async` only. -/
theorem At.exists_run_startsAsyncFunction (h : At Γ d T known s) :
    ∃ b, startsAsyncFunction.run s = (b, s) ∧
      (kindOf T == .asyncKeyword && b) = (kindOf T == .asyncKeyword && isAsyncFunction T) := by
  by_cases hk : kindOf T = .asyncKeyword
  · refine ⟨isAsyncFunction T, ?_, rfl⟩
    rw [← h.upcoming] at hk ⊢
    exact Grammar.run_startsAsyncFunction h.ended_upcoming (by simp [hk])
  · have hrun := run_lookAhead (p := do
      Grammar.advance
      return (← isAt .functionKeyword) && !(← afterLineBreak)) _ rfl (forest_advance s)
    refine ⟨_, hrun, ?_⟩
    rw [beq_eq_false_iff_ne.2 hk, Bool.false_and, Bool.false_and]

/-- Looking ahead for a binding matters behind the word `let` only. -/
theorem At.exists_run_startsLetDeclaration (h : At Γ d T known s) :
    ∃ b, startsLetDeclaration.run s = (b, s) ∧
      (kindOf T == .letKeyword && b) =
        (kindOf T == .letKeyword && Γ.startsBinding (kindOf T.tail)) := by
  by_cases hk : kindOf T = .letKeyword
  · refine ⟨Γ.startsBinding (kindOf T.tail), ?_, rfl⟩
    rw [← h.upcoming] at hk ⊢
    rw [← h.context]
    exact Grammar.run_startsLetDeclaration h.ended_upcoming (by simp [hk])
  · have hrun : (Grammar.advance >>= fun _ => startsBinding).run s = (_, s.advance) :=
      Grammar.run_startsBinding s.advance
    refine ⟨_, run_lookAhead _ hrun (forest_advance s), ?_⟩
    rw [beq_eq_false_iff_ne.2 hk, Bool.false_and, Bool.false_and]

theorem At.keep {known' : Known} (h : At Γ d T known s) (hknown : known' ⊆ known) :
    At Γ d T known' s :=
  { h with reads := fun p hp => h.reads p (hknown hp) }

/-- The one tree of a slot is that of a node. -/
theorem At.exists_eq_some {slot : Slot} {t : SyntaxTree}
    (h : At Γ d T ((slot.toList, [t]) :: known) s) : ∃ id, slot = some id := by
  have hlength := (h.reads _ List.mem_cons_self).length_eq
  cases slot with
  | none => simp at hlength
  | some id => exact ⟨id, rfl⟩

theorem At.append {ids ids' : List NodeId} {ts ts' : List SyntaxTree}
    (h : At Γ d T ((ids', ts') :: (ids, ts) :: known) s) :
    At Γ d T ((ids ++ ids', ts ++ ts') :: known) s := by
  obtain ⟨hreads', hreads, hknown⟩ := by simpa using h.reads
  exact { h with reads := List.forall_mem_cons.2 ⟨hreads.append hreads', by simpa using hknown⟩ }

theorem At.inContext (h : At Γ d T known s) (Γ' : Context) :
    At Γ' d T known { s with context := Γ' } :=
  ⟨rfl, h.depth, h.upcoming, h.ended, h.reads⟩

/-- A new node is known by its shape and its parts. -/
theorem At.add (h : At Γ d T known s) {shape : Shape} {shape' : ShapeOf SyntaxTree}
    (hshape : Gives known shape shape') (start stop : Nat) :
    At Γ d T (([s.forest.size], [node shape']) :: known) (s.add start stop shape) := by
  have hmono : ∀ id sh, s.forest.shape? id = some sh →
      (s.add start stop shape).forest.shape? id = some sh :=
    fun id sh hid => Forest.shape?_add_of_some hid _ _ _
  refine ⟨h.context, h.depth, h.upcoming, h.ended, List.forall_mem_cons.2 ⟨?_, ?_⟩⟩
  · have hknown := (Filter.eventually_all_finite (List.finite_toSet known)).2 h.reads
    refine Forest.reads_node (Forest.shape?_add_self ..) ?_
    filter_upwards [hknown] with limit hlimit
    exact ShapeOf.replace?_mono (fun id _ tree => Forest.treeWithin_mono hmono limit id tree)
      (hshape _ (Known.holds_of_forall hlimit))
  · exact fun p hp => (h.reads p hp).mono hmono

end At

/-! ### Safe runs -/

/-- That `Q` holds of the outcome of `p` if there are no complaints then. -/
def Safe (p : Parser α) (s : State) (Q : α → State → Prop) : Prop :=
  (p.run s).2.Clean → Q (p.run s).1 (p.run s).2

/-- That a parser has found the nodes of some trees and stands before the tokens that follow, and
that `R` holds of these trees and tokens. -/
def Found (nodes : α → List NodeId) (Γ : Context) (d : Nat) (known : Known)
    (R : List SyntaxTree → List Token → Prop) (a : α) (s : State) : Prop :=
  ∃ ts T, At Γ d T ((nodes a, ts) :: known) s ∧ R ts T

/-- The one tree that a parser finds, under another category. -/
theorem Found.single {known : Known} {Γ : Context} {d : Nat} {s : State} {nodes : α → List NodeId} {c : Category} {T' : List Token}
    {F : List SyntaxTree → List Token → Prop} {a : α} (hc : c.isSingle = true)
    (h : Found nodes Γ d known (Derives c Γ d T') a s)
    (hF : ∀ t rest, Derives c Γ d T' [t] rest → F [t] rest) : Found nodes Γ d known F a s := by
  obtain ⟨ts, rest, hs, hderives⟩ := h
  obtain ⟨t, rfl⟩ := hderives.single hc
  exact ⟨_, rest, hs, hF t rest hderives⟩

namespace Safe

variable {p q : Parser α} {next : α → Parser β} {s : State} {Q : α → State → Prop}
  {R : β → State → Prop} {Γ : Context} {d : Nat} {T : List Token} {known : Known}

/-! #### Sequences -/

theorem pure {a : α} (h : Q a s) : Safe (Pure.pure a) s Q := fun _ => h

theorem bind (hp : Safe p s Q) (hnext : ∀ a s', Q a s' → Safe (next a) s' R) :
    Safe (p >>= next) s R :=
  fun hclean => hnext _ _ (hp (((next _).keeps _).clean hclean)) hclean

/-- A parser that only tells something. -/
theorem tells {a : α} (hp : p.run s = (a, s)) (hnext : Safe (next a) s R) :
    Safe (p >>= next) s R := by
  rw [Safe, Parser.run_bind, hp]
  exact hnext

/-- A parser whose outcome is known. -/
theorem runs {a : α} {s' : State} (hp : p.run s = (a, s')) (hnext : Safe (next a) s' R) :
    Safe (p >>= next) s R := by
  rw [Safe, Parser.run_bind, hp]
  exact hnext

theorem map {g : α → β} (hp : Safe p s fun a s' => R (g a) s') : Safe (g <$> p) s R := hp

theorem mono {Q' : α → State → Prop} (hp : Safe p s Q) (h : ∀ a s', Q a s' → Q' a s') :
    Safe p s Q' :=
  fun hclean => h _ _ (hp hclean)

theorem keeps (hp : Safe p s Q) : Safe p s fun a s' => Q a s' ∧ s.Keeps s' :=
  fun hclean => ⟨hp hclean, p.keeps s⟩

theorem ite {c : Prop} [Decidable c] (hp : c → Safe p s Q) (hq : ¬c → Safe q s Q) :
    Safe (if c then p else q) s Q := by
  split
  · next h => exact hp h
  · next h => exact hq h

theorem complain {cause : Cause} : Safe (Grammar.complain cause) s fun _ _ => False :=
  fun hclean => absurd hclean (s.not_clean_complain cause)

/-! #### Tokens -/

theorem position {next : Nat → Parser β} (h : ∀ n, Safe (next n) s R) :
    Safe (Grammar.position >>= next) s R :=
  h _

theorem advance (hs : At Γ d T known s) (hk : kindOf T ≠ .endOfFile) :
    Safe Grammar.advance s fun _ s' => ∃ t T', T = t :: T' ∧ At Γ d T' known s' := by
  intro _
  obtain ⟨t, u, T', rfl⟩ := hs.ended.exists_cons hk
  exact ⟨t, u :: T', rfl, hs.advance hk⟩

theorem accept (hs : At Γ d T known s) {k : TokenKind} (hk : k ≠ .endOfFile) :
    Safe (Grammar.accept k) s fun b s' => ∃ T', Accepts k b T T' ∧ At Γ d T' known s' := by
  intro _
  obtain ⟨b, s', T', hrun, haccepts, hmoves⟩ := exists_run_accept hs.ended_upcoming hk
  have hended : Ended T' := hmoves.upcoming ▸ ended_of_run hs.ended_upcoming hrun
  rw [hs.upcoming] at haccepts
  rw [hrun]
  exact ⟨T', haccepts, hs.moves hmoves hended⟩

theorem expect (hs : At Γ d T known s) {k : TokenKind} (hk : k ≠ .endOfFile) :
    Safe (Grammar.expect k) s fun _ s' =>
      ∃ t T', T = t :: T' ∧ t.kind = k ∧ At Γ d T' known s' := by
  refine (accept hs hk).bind fun b s' ⟨T', haccepts, hs'⟩ => ite (fun hb => ?_) fun _ => ?_
  · subst hb
    obtain ⟨t, ht, rfl⟩ := haccepts
    exact pure ⟨t, T', rfl, ht, hs'⟩
  · exact complain.mono fun _ _ h => h.elim

theorem semicolon (hs : At Γ d T known s) :
    Safe Grammar.semicolon s fun _ s' => ∃ T', Terminates T T' ∧ At Γ d T' known s' := by
  refine (accept hs (by decide)).bind fun b s' ⟨T', haccepts, hs'⟩ => ite (fun hb => ?_) fun hb => ?_
  · subst hb
    exact pure ⟨T', .inl haccepts, hs'⟩
  · obtain rfl : b = false := by simpa using hb
    obtain ⟨hne, rfl⟩ := haccepts
    refine tells hs'.run_canEndStatement (ite (fun hend => ?_) fun _ => ?_)
    · exact pure ⟨T', .inr ⟨⟨hne, rfl⟩, hend⟩, hs'⟩
    · refine (expect hs' (by decide)).mono fun _ _ ⟨t, T'', heq, ht, _⟩ => ?_
      subst heq
      exact absurd ht hne

/-! #### Nodes -/

theorem finish {known' : Known} (hs : At Γ d T known s) {start : Nat} {shape : Shape}
    {shape' : ShapeOf SyntaxTree} {F : List SyntaxTree → List Token → Prop} (hF : F [node shape'] T)
    (hknown : known' ⊆ known) (hshape : Gives known shape shape') :
    Safe (Grammar.finish start shape) s (Found ([·]) Γ d known' F) :=
  fun _ => ⟨_, T, (hs.add hshape _ _).keep (List.cons_subset_cons _ hknown), hF⟩

theorem insertHole (hs : At Γ d T known s) :
    Safe (Grammar.insertNode .hole) s fun id s' => At Γ d T (([id], [node .hole]) :: known) s' :=
  fun _ => hs.add (fun _ _ => rfl) _ _

/-- A part that is there. -/
theorem some {p : Parser NodeId} {F : List SyntaxTree → List Token → Prop}
    (hp : Safe p s (Found ([·]) Γ d known F)) :
    Safe (do return Option.some (← p)) s (Found Option.toList Γ d known F) :=
  hp

/-! #### Control -/

theorem inContext {change : Context → Context} (hs : At Γ d T known s)
    (hp : ∀ s', At (change Γ) d T known s' → Safe p s' Q) :
    Safe (Grammar.withContext change p) s fun a s' =>
      ∃ s'', Q a s'' ∧ s' = { s'' with context := Γ } := by
  intro hclean
  have hs' : At (change Γ) d T known { s with context := change s.context } :=
    ⟨congrArg change hs.context, hs.depth, hs.upcoming, hs.ended, hs.reads⟩
  refine ⟨_, hp _ hs' hclean, ?_⟩
  rw [← hs.context]
  rfl

theorem withContext {change : Context → Context} {nodes : α → List NodeId}
    {F : List SyntaxTree → List Token → Prop} (hs : At Γ d T known s)
    (hp : ∀ s', At (change Γ) d T known s' → Safe p s' (Found nodes (change Γ) d known F)) :
    Safe (Grammar.withContext change p) s (Found nodes Γ d known F) := by
  refine (inContext hs hp).mono ?_
  rintro a s' ⟨s'', ⟨ts, T', h, hF⟩, rfl⟩
  exact ⟨ts, T', h.inContext Γ, hF⟩

theorem deeper {nodes : α → List NodeId} {F : List SyntaxTree → List Token → Prop}
    (hs : At Γ d T known s)
    (hp : ∀ s', At Γ (d + 1) T known s' → Safe p s' (Found nodes Γ (d + 1) known F)) :
    Safe (Grammar.deeper p) s (Found nodes Γ d known F) := by
  intro hclean
  have hs' : At Γ (d + 1) T known { s with depth := s.depth + 1 } :=
    ⟨hs.context, congrArg (· + 1) hs.depth, hs.upcoming, hs.ended, hs.reads⟩
  obtain ⟨ts, T', h, hF⟩ := hp _ hs' hclean
  exact ⟨ts, T', ⟨h.context, congrArg (· - 1) h.depth, h.upcoming, h.ended, h.reads⟩, hF⟩

theorem nested {p : Parser Slot} {F : List SyntaxTree → List Token → Prop}
    (hs : At Γ d T known s)
    (hp : d < maxNesting → ∀ s', At Γ (d + 1) T known s' →
      Safe p s' (Found Option.toList Γ (d + 1) known F)) :
    Safe (Grammar.nested p) s (Found Option.toList Γ d known F) := by
  have hdepth : (Parser.inspect State.depth).run s = (d, s) := by
    rw [← hs.depth]
    rfl
  refine tells hdepth (ite (fun _ => ?_) fun hd => ?_)
  · exact complain.bind fun _ _ h => h.elim
  · exact deeper hs (hp (Nat.lt_of_not_le hd))

/-- What every round of a loop preserves holds when the loop ends, if every round but the last moves
past a token. -/
theorem iterate {step : α → Parser (Option α)} {a : α} (I : α → State → Prop) (ha : I a s)
    (hstep : ∀ a s, I a s → Safe (step a) s fun b s' =>
      (∀ a', b = Option.some a' → I a' s' ∧ s'.upcoming.length < s.upcoming.length) ∧
      (b = none → Q a s')) :
    Safe (Grammar.iterate a step) s Q := by
  have hwithin : ∀ limit a s, I a s → s.upcoming.length < limit →
      Safe (iterateWithin step limit a) s Q := by
    intro limit
    induction limit with
    | zero => exact fun _ _ _ hlimit => absurd hlimit (Nat.not_lt_zero _)
    | succ limit ih =>
      intro a s ha hlimit
      refine (hstep a s ha).bind fun b s' ⟨hsome, hnone⟩ => ?_
      cases b with
      | some b =>
        obtain ⟨hb, hlength⟩ := hsome b rfl
        exact ih b s' hb (by omega)
      | none => exact pure (hnone rfl)
  exact hwithin _ a s ha (Nat.lt_succ_self _)

/-- What a round of a loop that lets a phrase grow leads to: a larger phrase, where fewer than `n`
tokens are left, or the end of the loop. -/
def Grows (Γ : Context) (d : Nat) (known : Known) (F G : List SyntaxTree → List Token → Prop)
    (n : Nat) (phrase : Slot) (b : Option Slot) (s : State) : Prop :=
  (∃ larger, b = Option.some larger ∧
    Found Option.toList Γ d known (fun ts T => F ts T ∧ T.length < n) larger s) ∨
  b = none ∧ Found Option.toList Γ d known G phrase s

theorem grow {p : Parser NodeId} {F G : List SyntaxTree → List Token → Prop} {n : Nat}
    {phrase : Slot}
    (hp : Safe p s (Found ([·]) Γ d known fun ts T => F ts T ∧ T.length < n)) :
    Safe (do return Option.some (Option.some (← p))) s (Grows Γ d known F G n phrase) :=
  hp.bind fun id _ h => pure (.inl ⟨Option.some id, rfl, h⟩)

theorem grown {F G : List SyntaxTree → List Token → Prop} {n : Nat} {phrase : Slot}
    (h : Found Option.toList Γ d known G phrase s) :
    Safe (Pure.pure none) s (Grows Γ d known F G n phrase) :=
  pure (.inr ⟨rfl, h⟩)

theorem iterateGrowing {step : Slot → Parser (Option Slot)} {phrase : Slot}
    {F G : List SyntaxTree → List Token → Prop} (h : Found Option.toList Γ d known F phrase s)
    (hstep : ∀ phrase s ts T, At Γ d T ((phrase.toList, ts) :: known) s → F ts T →
      Safe (step phrase) s (Grows Γ d known F G T.length phrase)) :
    Safe (Grammar.iterate phrase step) s (Found Option.toList Γ d known G) := by
  refine iterate (Found Option.toList Γ d known F) h fun phrase s ⟨ts, T, hs, hF⟩ => ?_
  refine (hstep phrase s ts T hs hF).mono ?_
  rintro b s' (⟨larger, rfl, ts', T', hs', hF', hlength⟩ | ⟨rfl, hG⟩)
  · refine ⟨fun a' ha' => ?_, nofun⟩
    cases ha'
    rw [hs.upcoming, hs'.upcoming]
    exact ⟨⟨ts', T', hs', hF'⟩, hlength⟩
  · exact ⟨nofun, fun _ => hG⟩

/-- A list of phrases is found item by item. -/
theorem collect {item : Parser (Slot × Bool)}
    {F : List Token → List SyntaxTree → List Token → Prop} (hs : At Γ d T known s)
    (hitem : ∀ T known s, At Γ d T known s →
      Safe item s fun r s' => Found (·.1.toList) Γ d known (fun ts T' =>
        (r.2 = false → F T ts T') ∧
        (r.2 = true → T'.length < T.length ∧
          ∀ ts' rest, F T' ts' rest → F T (ts ++ ts') rest)) r s') :
    Safe (Grammar.collect item) s (Found id Γ d known (F T)) := by
  have hwithin : ∀ limit T known s, At Γ d T known s → T.length < limit →
      Safe (collectWithin item limit) s (Found id Γ d known (F T)) := by
    intro limit
    induction limit with
    | zero => exact fun _ _ _ _ hlimit => absurd hlimit (Nat.not_lt_zero _)
    | succ limit ih =>
      intro T known s hs hlimit
      refine (hitem T known s hs).bind fun r s' ⟨ts, T', hs', hlast, hmore⟩ => ?_
      obtain ⟨first, more⟩ := r
      cases more with
      | true =>
        obtain ⟨hlength, hnext⟩ := hmore rfl
        refine (ih T' _ s' hs' (by omega)).bind fun ids s'' ⟨ts', T'', hs'', hrest⟩ => pure ?_
        exact ⟨ts ++ ts', T'', hs''.append, hnext ts' T'' hrest⟩
      | false =>
        refine pure ⟨ts, T', ?_, hlast rfl⟩
        simpa using hs'
  have hlimit : T.length < s.remaining + 1 := by
    rw [State.remaining, hs.upcoming]
    exact Nat.lt_succ_self _
  exact hwithin _ T known s hs hlimit

end Safe

end FunctionNaming.Grammar
