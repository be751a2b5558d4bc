import FunctionNaming.Proofs.Grammar.First
import FunctionNaming.Proofs.Grammar.Safe

/-!
Reasoning about runs that have to succeed. Where the tokens ahead begin with a phrase, the parser
for phrases of its category reads it: it does not complain, does not stop early, and ends behind the
phrase with a node for each of its trees.
-/

namespace FunctionNaming.Grammar

open SyntaxTree (node)

variable {α β : Type}

namespace Accepts

variable {k : TokenKind} {t : Token} {T : List Token}

theorem passed (h : t.kind = k) : Accepts k true (t :: T) T := ⟨t, h, rfl⟩

theorem absent (h : kindOf T ≠ k) : Accepts k false T T := ⟨h, rfl⟩

end Accepts

/-- Where a parser stands that has not complained about anything. -/
structure Ready (Γ : Context) (d : Nat) (T : List Token) (known : Known) (s : State) : Prop
    extends At Γ d T known s where
  clean : s.Clean

/-- That a parser stands behind a phrase and has the nodes of its trees. -/
def Has (nodes : α → List NodeId) (Γ : Context) (d : Nat) (known : Known) (ts : List SyntaxTree)
    (T : List Token) (a : α) (s : State) : Prop :=
  Ready Γ d T ((nodes a, ts) :: known) s

namespace Ready

variable {Γ : Context} {d : Nat} {T T' : List Token} {known known' : Known} {s s' : State}
  {ids ids' : List NodeId} {ts ts' : List SyntaxTree}

theorem learn (h : Ready Γ d T known s) (hreads : s.forest.Reads ids ts) :
    Ready Γ d T ((ids, ts) :: known) s :=
  ⟨h.toAt.learn hreads, h.clean⟩

theorem moves (h : Ready Γ d T known s) (hmoves : s.Moves T' s') (hT' : Ended T') :
    Ready Γ d T' known s' :=
  ⟨h.toAt.moves hmoves hT', hmoves.faults.trans h.clean⟩

theorem keep (h : Ready Γ d T known s) (hknown : known' ⊆ known) : Ready Γ d T known' s :=
  ⟨h.toAt.keep hknown, h.clean⟩

theorem append (h : Ready Γ d T ((ids', ts') :: (ids, ts) :: known) s) :
    Ready Γ d T ((ids ++ ids', ts ++ ts') :: known) s :=
  ⟨h.toAt.append, h.clean⟩

theorem add (h : Ready Γ d T known s) {shape : Shape} {shape' : ShapeOf SyntaxTree}
    (hshape : Gives known shape shape') (start stop : Nat) :
    Ready Γ d T (([s.forest.size], [node shape']) :: known) (s.add start stop shape) :=
  ⟨h.toAt.add hshape start stop, h.clean⟩

theorem inContext (h : Ready Γ d T known s) (Γ' : Context) :
    Ready Γ' d T known { s with context := Γ' } :=
  ⟨h.toAt.inContext Γ', h.clean⟩

end Ready

/-! ### Runs with a known outcome -/

/-- That `Q` holds of the outcome of `p`. -/
def Leads (p : Parser α) (s : State) (Q : α → State → Prop) : Prop := Q (p.run s).1 (p.run s).2

namespace Leads

variable {p q : Parser α} {next : α → Parser β} {s : State} {Q : α → State → Prop}
  {R : β → State → Prop} {Γ : Context} {d : Nat} {T T' : List Token} {known : Known}

/-! #### Sequences -/

theorem pure {a : α} (h : Q a s) : Leads (Pure.pure a) s Q := h

theorem bind (hp : Leads p s Q) (hnext : ∀ a s', Q a s' → Leads (next a) s' R) :
    Leads (p >>= next) s R :=
  hnext _ _ hp

/-- A parser whose outcome is known. -/
theorem runs {a : α} {s' : State} (hp : p.run s = (a, s')) (hnext : Leads (next a) s' R) :
    Leads (p >>= next) s R := by
  rw [Leads, Parser.run_bind, hp]
  exact hnext

theorem map {g : α → β} (hp : Leads p s fun a s' => R (g a) s') : Leads (g <$> p) s R := hp

theorem mono {Q' : α → State → Prop} (hp : Leads p s Q) (h : ∀ a s', Q a s' → Q' a s') :
    Leads p s Q' :=
  h _ _ hp

theorem keeps (hp : Leads p s Q) : Leads p s fun a s' => Q a s' ∧ s.Keeps s' := ⟨hp, p.keeps s⟩

theorem then_ {c : Prop} [Decidable c] (hc : c) (hp : Leads p s Q) :
    Leads (if c then p else q) s Q := by
  rwa [if_pos hc]

theorem else_ {c : Prop} [Decidable c] (hc : ¬c) (hq : Leads q s Q) :
    Leads (if c then p else q) s Q := by
  rwa [if_neg hc]

/-! #### Tokens -/

theorem position {next : Nat → Parser β} (h : ∀ n, Leads (next n) s R) :
    Leads (Grammar.position >>= next) s R :=
  h _

theorem advance {t : Token} (hs : Ready Γ d (t :: T) known s) (ht : t.kind ≠ .endOfFile) :
    Leads Grammar.advance s fun _ s' => Ready Γ d T known s' := by
  have hk : kindOf s.upcoming ≠ .endOfFile := by
    rw [hs.upcoming]
    exact ht
  have hmoves := State.moves_advance hs.ended_upcoming hk
  have hended := ended_advance hs.ended_upcoming
  rw [hs.upcoming] at hmoves
  rw [hmoves.upcoming] at hended
  exact hs.moves hmoves hended

theorem accept {k : TokenKind} {present : Bool} (hs : Ready Γ d T known s)
    (h : Accepts k present T T') (hk : k ≠ .endOfFile) :
    Leads (Grammar.accept k) s fun b s' => b = present ∧ Ready Γ d T' known s' := by
  cases present with
  | true =>
    obtain ⟨t, ht, rfl⟩ := h
    rw [Leads, run_accept_of_eq (hs.upcoming ▸ ht)]
    exact ⟨rfl, advance hs (ht ▸ hk)⟩
  | false =>
    obtain ⟨hne, rfl⟩ := h
    rw [Leads, run_accept_of_ne (hs.upcoming ▸ hne)]
    exact ⟨rfl, hs⟩

theorem expect {t : Token} {k : TokenKind} (hs : Ready Γ d (t :: T) known s) (ht : t.kind = k)
    (hk : k ≠ .endOfFile) : Leads (Grammar.expect k) s fun _ s' => Ready Γ d T known s' := by
  refine (accept hs (.passed ht) hk).bind ?_
  rintro _ s' ⟨rfl, hs'⟩
  exact hs'

theorem semicolon (hs : Ready Γ d T known s) (h : Terminates T T') :
    Leads Grammar.semicolon s fun _ s' => Ready Γ d T' known s' := by
  rcases h with h | ⟨h, hend⟩
  · refine (accept hs h (by decide)).bind ?_
    rintro _ s' ⟨rfl, hs'⟩
    exact hs'
  · refine (accept hs h (by decide)).bind ?_
    rintro _ s' ⟨rfl, hs'⟩
    obtain ⟨-, rfl⟩ := h
    exact else_ Bool.false_ne_true (runs hs'.run_canEndStatement (then_ hend hs'))

/-! #### Nodes -/

theorem finish {known' : Known} (hs : Ready Γ d T known s) {start : Nat} {shape : Shape}
    {shape' : ShapeOf SyntaxTree} (hknown : known' ⊆ known) (hshape : Gives known shape shape') :
    Leads (Grammar.finish start shape) s (Has ([·]) Γ d known' [node shape'] T) :=
  (hs.add hshape _ _).keep (List.cons_subset_cons _ hknown)

theorem insertHole (hs : Ready Γ d T known s) :
    Leads (Grammar.insertNode .hole) s fun id s' =>
      Ready Γ d T (([id], [node .hole]) :: known) s' :=
  hs.add (fun _ _ => rfl) _ _

/-- A part that is there. -/
theorem some {p : Parser NodeId} {ts : List SyntaxTree}
    (hp : Leads p s (Has ([·]) Γ d known ts T)) :
    Leads (do return Option.some (← p)) s (Has Option.toList Γ d known ts T) :=
  hp

/-- A phrase that a loop goes on with. -/
theorem grow {p : Parser NodeId} {ts : List SyntaxTree}
    (hp : Leads p s (Has ([·]) Γ d known ts T)) :
    Leads (do return Option.some (Option.some (← p))) s fun b s' =>
      ∃ larger, b = Option.some larger ∧ Has Option.toList Γ d known ts T larger s' :=
  hp.bind fun id _ h => pure ⟨Option.some id, rfl, h⟩

/-! #### Control -/

theorem inContext {change : Context → Context} (hs : Ready Γ d T known s)
    (hp : ∀ s', Ready (change Γ) d T known s' → Leads p s' Q) :
    Leads (Grammar.withContext change p) s fun a s' =>
      ∃ s'', Q a s'' ∧ s' = { s'' with context := Γ } := by
  have hs' : Ready (change Γ) d T known { s with context := change s.context } :=
    ⟨⟨congrArg change hs.context, hs.depth, hs.upcoming, hs.ended, hs.reads⟩, hs.clean⟩
  refine ⟨_, hp _ hs', ?_⟩
  rw [← hs.context]
  rfl

theorem withContext {change : Context → Context} {nodes : α → List NodeId} {ts : List SyntaxTree}
    (hs : Ready Γ d T known s)
    (hp : ∀ s', Ready (change Γ) d T known s' → Leads p s' (Has nodes (change Γ) d known ts T')) :
    Leads (Grammar.withContext change p) s (Has nodes Γ d known ts T') := by
  refine (inContext hs hp).mono ?_
  rintro a s' ⟨s'', h, rfl⟩
  exact Ready.inContext h Γ

theorem nested {p : Parser Slot} {ts : List SyntaxTree} (hs : Ready Γ d T known s)
    (hd : d < maxNesting)
    (hp : ∀ s', Ready Γ (d + 1) T known s' → Leads p s' (Has Option.toList Γ (d + 1) known ts T')) :
    Leads (Grammar.nested p) s (Has Option.toList Γ d known ts T') := by
  have hdepth : (Parser.inspect State.depth).run s = (d, s) := by
    rw [← hs.depth]
    rfl
  refine runs hdepth (else_ (Nat.not_le_of_lt hd) ?_)
  have hs' : Ready Γ (d + 1) T known { s with depth := s.depth + 1 } :=
    ⟨⟨hs.context, congrArg (· + 1) hs.depth, hs.upcoming, hs.ended, hs.reads⟩, hs.clean⟩
  have h := hp _ hs'
  exact ⟨⟨h.context, congrArg (· - 1) h.depth, h.upcoming, h.ended, h.reads⟩, h.clean⟩

/-- A list of phrases is read item by item. Every item but the last is followed by a shorter
list. -/
theorem collect {item : Parser (Slot × Bool)} {L : List Token → List SyntaxTree → Prop}
    {ts : List SyntaxTree} (hs : Ready Γ d T known s) (h : L T ts)
    (hitem : ∀ T ts known s, L T ts → Ready Γ d T known s → Leads item s fun r s' =>
      (r.2 = false ∧ Has (·.1.toList) Γ d known ts T' r s') ∨
      (r.2 = true ∧ ∃ ts₁ ts₂ T₁, ts = ts₁ ++ ts₂ ∧ T₁.length < T.length ∧ L T₁ ts₂ ∧
        Has (·.1.toList) Γ d known ts₁ T₁ r s')) :
    Leads (Grammar.collect item) s (Has id Γ d known ts T') := by
  have hwithin : ∀ limit T ts known s, L T ts → Ready Γ d T known s → T.length < limit →
      Leads (collectWithin item limit) s (Has id Γ d known ts T') := by
    intro limit
    induction limit with
    | zero => exact fun _ _ _ _ _ _ hlimit => absurd hlimit (Nat.not_lt_zero _)
    | succ limit ih =>
      intro T ts known s h hs hlimit
      refine (hitem T ts known s h hs).bind ?_
      rintro ⟨first, more⟩ s' (⟨rfl, hlast⟩ | ⟨rfl, ts₁, ts₂, T₁, rfl, hlength, hrest, hfirst⟩)
      · have hids : Has id Γ d known ts T' first.toList s' := hlast
        simpa [Leads] using hids
      · exact (ih T₁ ts₂ _ s' hrest hfirst (by omega)).bind fun ids s'' hs'' => Ready.append hs''
  have hlimit : T.length < s.remaining + 1 := by
    rw [State.remaining, hs.upcoming]
    exact Nat.lt_succ_self _
  exact hwithin _ T ts known s h hs hlimit

end Leads

/-! ### Loops that let a phrase grow -/

/-- That a loop leads to `Q` from where it has the tree `e` and stands before the tokens `T`. -/
def Loops (step : Slot → Parser (Option Slot)) (Γ : Context) (d : Nat) (known : Known)
    (Q : Slot → State → Prop) (e : SyntaxTree) (T : List Token) : Prop :=
  ∀ ⦃phrase s limit⦄, Has Option.toList Γ d known [e] T phrase s → T.length < limit →
    Leads (iterateWithin step limit phrase) s Q

namespace Loops

variable {step : Slot → Parser (Option Slot)} {Γ : Context} {d : Nat} {known : Known}
  {Q : Slot → State → Prop} {e e' : SyntaxTree} {T T' : List Token} {phrase : Slot} {s : State}

theorem start (h : Loops step Γ d known Q e T) (hs : Has Option.toList Γ d known [e] T phrase s) :
    Leads (iterate phrase step) s Q := by
  have hlimit : T.length < s.remaining + 1 := by
    rw [State.remaining, hs.upcoming]
    exact Nat.lt_succ_self _
  exact h hs hlimit

theorem next (h : Loops step Γ d known Q e' T') (hlength : T'.length < T.length)
    (hstep : ∀ id s, Ready Γ d T (([id], [e]) :: known) s → Leads (step (some id)) s fun b s' =>
      ∃ larger, b = some larger ∧ Has Option.toList Γ d known [e'] T' larger s') :
    Loops step Γ d known Q e T := by
  intro phrase s limit hs hlimit
  obtain ⟨id, rfl⟩ := hs.exists_eq_some
  cases limit with
  | zero => exact absurd hlimit (Nat.not_lt_zero _)
  | succ limit =>
    refine (hstep id s hs).bind ?_
    rintro _ s' ⟨larger, rfl, hs'⟩
    exact h hs' (by omega)

theorem last (hstep : ∀ id s, Ready Γ d T (([id], [e]) :: known) s →
      Leads (step (some id)) s fun b s' => b = none ∧ Q (some id) s') :
    Loops step Γ d known Q e T := by
  intro phrase s limit hs hlimit
  obtain ⟨id, rfl⟩ := hs.exists_eq_some
  cases limit with
  | zero => exact absurd hlimit (Nat.not_lt_zero _)
  | succ limit =>
    refine (hstep id s hs).bind ?_
    rintro _ s' ⟨rfl, hs'⟩
    exact hs'

end Loops

end FunctionNaming.Grammar
