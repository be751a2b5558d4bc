import Mathlib.Tactic.Linarith
import FunctionNaming.Proofs.Grammar.Steps

/-!
What it costs to run a parser. Costs are counted in units that are worth as many steps as it takes to
look ahead through the whole script, so looking ahead costs one unit like everything else that reads a
fixed number of tokens.

A token is worth a large number of units, which are spent when it is passed. `Affords n p s price` says
that `p` is not cut off, and that besides the worth of the tokens that it passes it costs no more than
the `price` of its result. If it passes a token, then a `reserve` is left over in addition. The reserve
pays for the rounds of a loop: a round that passes a token and costs no more than the reserve is free,
so a loop costs no more than two of its rounds, however often it is repeated.
-/

namespace FunctionNaming.Grammar

variable {α β : Type} {n m r r' : Nat} {s s' : State}

/-! ### Units -/

/-- How many steps a unit is worth in a script of `n` tokens. -/
def unitSteps (n : Nat) : Nat := 8 * n + 16

/-- How many units a token is worth. -/
def tokenWorth : ℤ := 1000

/-- What is left over when a token has been passed. -/
@[simp]
def reserve : ℤ := 100

/-- What a token that is passed leaves for what follows. -/
@[simp]
def gain : ℤ := 800

/-- Costs of `cost` units on the way from `s` to `s'` are covered by a price. -/
def Pays (cost : Nat) (price : ℤ) (s s' : State) : Prop :=
  cost + tokenWorth * s'.remaining ≤ tokenWorth * s.remaining + price ∧
    (s'.remaining < s.remaining →
      cost + tokenWorth * s'.remaining + reserve ≤ tokenWorth * s.remaining + price)

/-- From `s`, the run of `p` is not cut off, and its costs are covered by a price that depends on the
result. -/
def Affords (n : Nat) (p : Parser α) (s : State) (price : α → ℤ) : Prop :=
  ∃ k cost, p.steps s = some k ∧ k ≤ unitSteps n * cost ∧ Pays cost (price (p.run s).1) s (p.run s).2

/-- Before an end that is there, among at most `n` tokens, six for each of which and `r` more are
covered by `m` references to other rules. -/
def State.Ready (n m r : Nat) (s : State) : Prop :=
  Ended s.upcoming ∧ s.remaining ≤ n ∧ 6 * s.remaining + r ≤ m

namespace State

namespace Ready

theorem of_upcoming (h : s.Ready n m r) (hs' : s'.upcoming = s.upcoming) : s'.Ready n m r := by
  rw [Ready, remaining, hs']
  exact h

theorem keeps (h : s.Ready n m r) (hs' : s.Keeps s') : s'.Ready n m r := by
  obtain ⟨hended, hn, hm⟩ := h
  have hle := hs'.remaining_le
  exact ⟨ended_of_keeps hended hs', by omega, by omega⟩

/-- After a token every rule can be referred to. -/
theorem pass (h : s.Ready n m r) (hs' : s.Keeps s') (hlt : s'.remaining < s.remaining) :
    s'.Ready n m 6 := by
  obtain ⟨hended, hn, hm⟩ := h
  exact ⟨ended_of_keeps hended hs', by omega, by omega⟩

end Ready

end State

theorem Pays.trans {s₁ s₂ s₃ : State} {c d : Nat} {x y : ℤ} (h₁ : Pays c x s₁ s₂)
    (h₂ : Pays d y s₂ s₃) (hle : s₃.remaining ≤ s₂.remaining) : Pays (c + d) (x + y) s₁ s₃ := by
  simp only [Pays, tokenWorth, reserve] at *
  omega

/-- What looks at the script and leaves it as it is costs one unit. -/
theorem pays_one {price : ℤ} (hremaining : s'.remaining = s.remaining) (hprice : 1 ≤ price) :
    Pays 1 price s s' := by
  simp only [Pays, hremaining]
  omega

namespace Affords

variable {p : Parser α} {next : α → Parser β} {x : α → ℤ} {y : β → ℤ}

/-! ### Sequences -/

theorem pure {a : α} (h : 0 ≤ x a) : Affords n (Pure.pure a) s x :=
  ⟨0, 0, rfl, Nat.zero_le _, by simpa [Pays] using h⟩

theorem mono {x' : α → ℤ} (hp : Affords n p s x) (h : ∀ a, x a ≤ x' a) : Affords n p s x' := by
  obtain ⟨k, cost, hk, hcost, hpays⟩ := hp
  have hprice := h (p.run s).1
  refine ⟨k, cost, hk, hcost, ?_⟩
  simp only [Pays] at *
  omega

/-- Something is done, and what follows has to make do with what is left of the price. -/
theorem andThen (hp : Affords n p s x)
    (hnext : ∀ a s', p.run s = (a, s') → Affords n (next a) s' fun b => y b - x a) :
    Affords n (p >>= next) s y := by
  obtain ⟨k, c, hk, hc, hpays⟩ := hp
  obtain ⟨l, d, hl, hd, hrest⟩ := hnext _ _ rfl
  refine ⟨k + l, c + d, Parser.steps_bind hk rfl hl, ?_, ?_⟩
  · rw [Nat.mul_add]
    exact Nat.add_le_add hc hd
  · have htrans := hpays.trans hrest ((next _).keeps _).remaining_le
    rw [add_sub_cancel] at htrans
    exact htrans

theorem bind (hs : s.Ready n m r) (hp : Affords n p s x)
    (hnext : ∀ a s', s'.Ready n m r → Affords n (next a) s' fun b => y b - x a) :
    Affords n (p >>= next) s y := by
  refine andThen hp fun a s' hrun => hnext a s' (hs.keeps ?_)
  have hkeeps := p.keeps s
  rwa [hrun] at hkeeps

theorem map {g : α → β} (hp : Affords n p s fun a => y (g a)) : Affords n (g <$> p) s y := by
  obtain ⟨k, c, hk, hc, hpays⟩ := hp
  refine ⟨k, c, ?_, hc, hpays⟩
  have hsteps : (g <$> p).steps s = some (k + 0) := Parser.steps_bind hk rfl rfl
  exact hsteps

theorem ite {q : Parser α} {h : Prop} [Decidable h] (hp : h → Affords n p s x)
    (hq : ¬h → Affords n q s x) : Affords n (if h then p else q) s x := by
  split
  · next hh => exact hp hh
  · next hh => exact hq hh

/-- What costs less than nothing has passed a token. -/
theorem remaining_lt (hp : Affords n p s x) (h : x (p.run s).1 < 0) :
    (p.run s).2.remaining < s.remaining := by
  obtain ⟨k, cost, hk, hcost, hpays⟩ := hp
  simp only [Pays, tokenWorth] at hpays
  omega

/-- After a part that costs less than nothing every rule can be referred to. -/
theorem pass (hs : s.Ready n m r) {price : ℤ} (hp : Affords n p s fun _ => price)
    (hprice : price < 0)
    (hnext : ∀ a s', s'.Ready n m 6 → Affords n (next a) s' fun b => y b - price) :
    Affords n (p >>= next) s y := by
  have hlt := hp.remaining_lt hprice
  refine andThen hp fun a s' hrun => hnext a s' (hs.pass ?_ ?_)
  · have hkeeps := p.keeps s
    rwa [hrun] at hkeeps
  · rwa [hrun] at hlt

/-- A part that passes a token if it is there. -/
theorem bindSome {p : Parser (Option α)} {next : Option α → Parser β} {price priceNone : ℤ}
    (hs : s.Ready n m r) (hp : Affords n p s fun o => if o.isSome then price else priceNone)
    (hprice : price < 0)
    (hnone : ∀ s', s'.Ready n m r → Affords n (next none) s' fun b => y b - priceNone)
    (hsome : ∀ a s', s'.Ready n m 6 → Affords n (next (some a)) s' fun b => y b - price) :
    Affords n (p >>= next) s y := by
  have hkeeps := p.keeps s
  have hlt := hp.remaining_lt
  refine andThen hp fun o s' hrun => ?_
  rw [hrun] at hkeeps hlt
  cases o with
  | none => exact hnone s' (hs.keeps hkeeps)
  | some a => exact hsome a s' (hs.pass hkeeps (hlt hprice))

end Affords

/-! ### Looking -/

/-- That `p` gives the result `a` and leaves no trace, at the cost of one unit. -/
def Tells (n : Nat) (p : Parser α) (s : State) (a : α) : Prop :=
  p.run s = (a, s) ∧ Takes p s (unitSteps n)

/-- That `p` comes back to the tokens from which it started, at the cost of one unit. -/
def Looks (n : Nat) (p : Parser α) (s : State) : Prop :=
  (p.run s).2.upcoming = s.upcoming ∧ Takes p s (unitSteps n)

theorem sixteen_le_unitSteps (n : Nat) : 16 ≤ unitSteps n := Nat.le_add_left _ _

section

variable {p : Parser α} {a : α} {next : α → Parser β} {y : β → ℤ}

theorem Looks.affords (hp : Looks n p s) {x : α → ℤ} (h : ∀ a, 1 ≤ x a) : Affords n p s x := by
  obtain ⟨hupcoming, k, hk, hsteps⟩ := hp
  have hremaining : (p.run s).2.remaining = s.remaining := congrArg List.length hupcoming
  refine ⟨k, 1, hk, by rwa [Nat.mul_one], pays_one hremaining (h _)⟩

theorem Looks.bind (hp : Looks n p s)
    (hnext : ∀ a s', s'.upcoming = s.upcoming → Affords n (next a) s' fun b => y b - 1) :
    Affords n (p >>= next) s y := by
  refine (hp.affords fun _ => le_refl 1).andThen fun a s' hrun => hnext a s' ?_
  have hupcoming := hp.1
  rwa [hrun] at hupcoming

theorem Tells.looks (hp : Tells n p s a) : Looks n p s := ⟨by rw [hp.1], hp.2⟩

theorem Tells.bind (hp : Tells n p s a) (hnext : Affords n (next a) s fun b => y b - 1) :
    Affords n (p >>= next) s y := by
  refine (hp.looks.affords fun _ => le_refl 1).andThen fun a' s' hrun => ?_
  obtain ⟨rfl, rfl⟩ : a' = a ∧ s' = s := by simpa [hp.1, eq_comm] using hrun
  exact hnext

theorem Tells.of_takes {bound : Nat} (hrun : p.run s = (a, s)) (hp : Takes p s bound)
    (hbound : bound ≤ 16) : Tells n p s a :=
  ⟨hrun, hp.mono (hbound.trans (sixteen_le_unitSteps n))⟩

theorem looks_lookAhead {bound : Nat} (hp : Takes p s bound) (hbound : bound ≤ 16) :
    Looks n (lookAhead p) s :=
  ⟨rfl, hp.lookAhead.mono (hbound.trans (sixteen_le_unitSteps n))⟩

end

theorem tells_inspect (tell : State → α) : Tells n (Parser.inspect tell) s (tell s) :=
  .of_takes rfl (.inspect tell s) (by decide)

theorem tells_kind : Tells n kind s (kindOf s.upcoming) := .of_takes rfl (takes_kind s) (by decide)

theorem tells_isAt (k : TokenKind) : Tells n (isAt k) s (kindOf s.upcoming == k) :=
  .of_takes rfl (takes_isAt k s) (by decide)

theorem tells_isAtOrEnd (k : TokenKind) :
    Tells n (isAtOrEnd k) s (kindOf s.upcoming == k || kindOf s.upcoming == .endOfFile) :=
  .of_takes rfl ⟨1, rfl, Nat.le_refl _⟩ (by decide)

theorem tells_position : Tells n position s s.current.start :=
  .of_takes rfl ⟨1, rfl, Nat.le_refl _⟩ (by decide)

theorem tells_afterLineBreak : Tells n afterLineBreak s (isBroken s.upcoming) :=
  .of_takes rfl (takes_afterLineBreak s) (by decide)

theorem tells_isPropertyWord : Tells n isPropertyWord s (kindOf s.upcoming).isWord :=
  .of_takes rfl (takes_isPropertyWord s) (by decide)

theorem tells_isIdentifier : Tells n isIdentifier s (s.context.binds (kindOf s.upcoming)) :=
  .of_takes (run_isIdentifier s) (takes_isIdentifier s) (by decide)

theorem tells_startsBinding :
    Tells n startsBinding s (s.context.startsBinding (kindOf s.upcoming)) :=
  .of_takes (run_startsBinding s) (takes_startsBinding s) (by decide)

theorem tells_canEndStatement : Tells n canEndStatement s (endsStatement s.upcoming) :=
  .of_takes (run_canEndStatement s) (takes_canEndStatement s) (by decide)

theorem tells_endsYield : Tells n endsYield s (endsYieldAt s.upcoming) :=
  .of_takes (run_endsYield s) (takes_endsYield s) (by decide)

theorem looks_isModifier : Looks n isModifier s :=
  looks_lookAhead ((takes_advance s).bind fun _ s' _ => takes_startsMember s') (by decide)

theorem looks_isAsyncModifier : Looks n isAsyncModifier s :=
  looks_lookAhead ((takes_advance s).bind fun _ s' _ => (takes_afterLineBreak s').bind fun _ s' _ =>
    (takes_startsMember s').bind fun _ _ _ => Takes.pure _ _) (by decide)

theorem looks_startsAsyncFunction : Looks n startsAsyncFunction s :=
  looks_lookAhead ((takes_advance s).bind fun _ s' _ => (takes_isAt _ s').bind fun _ s' _ =>
    (takes_afterLineBreak s').bind fun _ _ _ => Takes.pure _ _) (by decide)

theorem looks_startsLetDeclaration : Looks n startsLetDeclaration s :=
  looks_lookAhead ((takes_advance s).bind fun _ s' _ => takes_startsBinding s') (by decide)

theorem tells_startsArrowFunction (hs : s.Ready n m r) :
    Tells n startsArrowFunction s (startsArrow s.context s.upcoming) := by
  obtain ⟨hended, hn, -⟩ := hs
  -- The one look that passes any number of tokens; a unit is large enough for it.
  refine ⟨run_startsArrowFunction hended, (takes_startsArrowFunction hended).mono ?_⟩
  rw [unitSteps]
  omega

/-! ### Nodes and complaints -/

theorem looks_complain (cause : Cause) : Looks n (complain cause) s := by
  refine ⟨?_, (Takes.change _ _ s).mono (Nat.le_add_left _ _)⟩
  show (s.complain cause).upcoming = s.upcoming
  rw [State.complain]
  split <;> rfl

theorem looks_finish (start : Nat) (shape : Shape) : Looks n (finish start shape) s :=
  ⟨rfl, 1, rfl, Nat.le_add_left _ _⟩

theorem looks_insertNode (shape : Shape) : Looks n (insertNode shape) s :=
  ⟨rfl, 1, rfl, Nat.le_add_left _ _⟩

theorem looks_missingIdentifier : Looks n missingIdentifier s := looks_insertNode _

/-! ### Passing tokens -/

/-- A token that is there pays for what follows. -/
theorem affords_advance (hs : s.Ready n m r) (hk : kindOf s.upcoming ≠ .endOfFile) :
    Affords n advance s fun _ => -gain := by
  have hremaining := State.remaining_advance_lt hs.1 hk
  refine ⟨1, 1, rfl, ?_, ?_⟩
  · rw [unitSteps]
    omega
  · show Pays 1 (-gain) s s.advance
    simp only [Pays, tokenWorth, reserve, gain]
    omega

/-- What takes a few steps costs one unit, wherever it leads. -/
theorem affords_of_takes {p : Parser α} {bound : Nat} (hp : Takes p s bound) (hbound : bound ≤ 16) :
    Affords n p s fun _ => 1 := by
  obtain ⟨k, hk, hsteps⟩ := hp
  have hle := (p.keeps s).remaining_le
  refine ⟨k, 1, hk, ?_, ?_⟩
  · rw [unitSteps]
    omega
  · simp only [Pays, tokenWorth, reserve]
    omega

theorem affords_advance_anywhere : Affords n advance s fun _ => 1 :=
  affords_of_takes (takes_advance s) (by decide)

theorem affords_accept (k : TokenKind) : Affords n (accept k) s fun _ => 1 :=
  affords_of_takes (takes_accept k s) (by decide)

theorem affords_expect (k : TokenKind) : Affords n (expect k) s fun _ => 1 :=
  affords_of_takes (takes_expect k s) (by decide)

/-- A token that is accepted pays for what follows. -/
theorem affords_accept_of_eq (hs : s.Ready n m r) {k : TokenKind} (hk : k ≠ .endOfFile)
    (h : kindOf s.upcoming = k) : Affords n (accept k) s fun _ => 1 - gain := by
  refine (tells_isAt k).bind ?_
  rw [h, beq_self_eq_true, if_pos rfl]
  exact (affords_advance hs (h ▸ hk)).bind hs fun _ _ _ => .pure (by simp)

theorem takes_accept_of_ne {k : TokenKind} (h : kindOf s.upcoming ≠ k) : Takes (accept k) s 1 := by
  refine (takes_isAt k s).bind fun b s' hrun => ?_
  obtain ⟨rfl, rfl⟩ : (kindOf s.upcoming == k) = b ∧ s = s' := Prod.mk.inj hrun
  rw [beq_eq_false_iff_ne.2 h]
  exact Takes.pure _ _

theorem tells_accept_of_ne {k : TokenKind} (h : kindOf s.upcoming ≠ k) :
    Tells n (accept k) s false :=
  .of_takes (run_accept_of_ne h) (takes_accept_of_ne h) (by decide)

theorem looks_expect_of_ne {k : TokenKind} (h : kindOf s.upcoming ≠ k) : Looks n (expect k) s := by
  have hexpect : (expect k).run s = (complain (.tokenExpected k)).run s := by
    rw [expect, Parser.run_bind, run_accept_of_ne h]
    rfl
  refine ⟨?_, ?_⟩
  · rw [hexpect]
    exact (looks_complain (n := n) _).1
  · refine ((takes_accept_of_ne h).bind (c := 1) fun b s' hrun => ?_).mono
      (by rw [unitSteps]; omega)
    obtain ⟨rfl, rfl⟩ : false = b ∧ s = s' := Prod.mk.inj ((run_accept_of_ne h).symm.trans hrun)
    exact Takes.change _ _ _

theorem Affords.accept {next : Bool → Parser β} {y : β → ℤ} {k : TokenKind} (hs : s.Ready n m r)
    (hk : k ≠ .endOfFile)
    (htrue : ∀ s', s'.Ready n m 6 → Affords n (next true) s' fun b => y b + (gain - 1))
    (hfalse : kindOf s.upcoming ≠ k → Affords n (next false) s fun b => y b - 1) :
    Affords n (Grammar.accept k >>= next) s y := by
  by_cases h : kindOf s.upcoming = k
  · have haccept := affords_accept_of_eq hs hk h
    have hlt := haccept.remaining_lt (by decide)
    refine haccept.andThen fun b s' hrun => ?_
    rw [run_accept_of_eq h] at hrun hlt
    obtain ⟨rfl, rfl⟩ : true = b ∧ s.advance = s' := Prod.mk.inj hrun
    exact (htrue _ (hs.pass s.keeps_advance hlt)).mono (by simp)
  · exact (tells_accept_of_ne h).bind (hfalse h)

/-- A token that is expected and there pays for what follows. -/
theorem affords_expect_of_eq (hs : s.Ready n m r) {k : TokenKind} (hk : k ≠ .endOfFile)
    (h : kindOf s.upcoming = k) : Affords n (expect k) s fun _ => 1 - gain :=
  .accept hs hk (fun _ _ => .pure (by simp)) fun hne => absurd h hne

theorem affords_semicolon (hs : s.Ready n m r) : Affords n semicolon s fun _ => 4 := by
  refine .accept hs (by decide) (fun _ _ => .pure (by simp)) fun _ => ?_
  refine tells_canEndStatement.bind (.ite (fun _ => .pure (by simp)) fun _ => ?_)
  exact (affords_expect _).mono (by simp)

namespace Affords

/-! ### Control -/

variable {p : Parser α} {x : α → ℤ}

theorem withContext {change : Context → Context} (hs : s.Ready n m r)
    (hp : ∀ s', s'.upcoming = s.upcoming → s'.Ready n m r → Affords n p s' x) :
    Affords n (withContext change p) s x :=
  hp { s with context := change s.context } rfl hs

theorem outsideForHead (hs : s.Ready n m r)
    (hp : ∀ s', s'.upcoming = s.upcoming → s'.Ready n m r → Affords n p s' x) :
    Affords n (outsideForHead p) s x :=
  withContext hs hp

/-- Where the nesting is too deep already, there is only a complaint. -/
theorem nested {p : Parser Slot} {y : ℤ} (hs : s.Ready n m r) (hy : 2 ≤ y)
    (hp : ∀ s', s'.upcoming = s.upcoming → s'.Ready n m r → Affords n p s' fun _ => y - 1) :
    Affords n (nested p) s fun _ => y := by
  refine (tells_inspect _).bind (.ite (fun _ => ?_) fun _ => ?_)
  · exact (looks_complain _).bind fun _ s' hupcoming => pure (by omega)
  · exact hp { s with depth := s.depth + 1 } rfl hs

/-! ### Loops -/

/-- In a loop every round but the last passes a token and leaves more than it costs. -/
theorem iterate {step : α → Parser (Option α)} {a : α} {y : ℤ} (hs : s.Ready n m r)
    (hstep : ∀ a s, s.Ready n m r → Affords n (step a) s fun o => if o.isSome then -1 else y) :
    Affords n (iterate a step) s fun _ => y + 1 := by
  -- The limit is larger than the number of tokens left, and both fall together, so it is never reached.
  have hwithin : ∀ limit a s, s.Ready n m r → s.remaining < limit →
      Affords n (iterateWithin step limit a) s fun _ => y := by
    intro limit
    induction limit with
    | zero => exact fun _ _ _ hlimit => absurd hlimit (Nat.not_lt_zero _)
    | succ limit ih =>
      intro a s hs hlimit
      have hround := hstep a s hs
      have hkeeps := (step a).keeps s
      refine hround.andThen fun o s' hrun => ?_
      have hmoves := hround.remaining_lt
      rw [hrun] at hkeeps hmoves
      cases o with
      | none => exact pure (by simp)
      | some b =>
        have hlt : s'.remaining < s.remaining := hmoves (by simp)
        exact (ih b s' (hs.keeps hkeeps) (by omega)).mono (by simp)
  refine (tells_inspect _).bind ((hwithin _ a s hs (Nat.lt_succ_self _)).mono (by simp))

/-- The costs of a loop that collects items: `y` for a round that passes no token and ends it, and
once more `x` if tokens have been passed. -/
def Collects (n : Nat) (p : Parser α) (s : State) (x y : ℤ) : Prop :=
  ∃ k cost : Nat, p.steps s = some k ∧ k ≤ unitSteps n * cost ∧
    ((p.run s).2.remaining = s.remaining → cost ≤ y) ∧
    ((p.run s).2.remaining < s.remaining →
      cost + tokenWorth * (p.run s).2.remaining + reserve ≤ tokenWorth * s.remaining + x + y)

section

variable {item : Parser (Slot × Bool)} {x y : ℤ}

/-- The reserve of a round that goes on covers the price of the next one. -/
theorem collects_collectWithin (hx : 0 ≤ x) (hreserve : x ≤ reserve)
    (hitem : ∀ s, s.Ready n m r → Affords n item s fun o => if o.2 then x else y)
    (hmoves : ∀ s, s.Ready n m r → (item.run s).1.2 = true →
      (item.run s).2.remaining < s.remaining)
    (limit : Nat) (hs : s.Ready n m r) (hlimit : s.remaining < limit) :
    Collects n (collectWithin item limit) s x y := by
  induction limit generalizing s with
  | zero => exact absurd hlimit (Nat.not_lt_zero _)
  | succ limit ih =>
    obtain ⟨k, c, hk, hc, hpays⟩ := hitem s hs
    have hkeeps := item.keeps s
    have hlt := hmoves s hs
    rcases hrun : item.run s with ⟨⟨node, more⟩, s'⟩
    rw [hrun] at hpays hkeeps hlt
    have hle := hkeeps.remaining_le
    cases more with
    | false =>
      have hrest : (collectWithin item (limit + 1)).run s = (node.toList ++ [], s') := by
        rw [collectWithin, Parser.run_bind, hrun]
        rfl
      refine ⟨k + 0, c, Parser.steps_bind hk hrun rfl, hc, ?_⟩
      rw [hrest]
      simp only [Pays, tokenWorth, reserve, Bool.false_eq_true, if_false] at *
      omega
    | true =>
      have hmoved := hlt rfl
      -- What the round has left in reserve pays for the `x` of the rounds that follow, if they pass
      -- tokens as well.
      obtain ⟨l, d, hl, hd, hstays, hpasses⟩ := ih (hs.keeps hkeeps) (by omega)
      have hrest : (collectWithin item (limit + 1)).run s =
          (node.toList ++ ((collectWithin item limit).run s').1,
            ((collectWithin item limit).run s').2) := by
        rw [collectWithin, Parser.run_bind, hrun]
        rfl
      have hle' := ((collectWithin item limit).keeps s').remaining_le
      refine ⟨k + (l + 0), c + d, Parser.steps_bind hk hrun (Parser.steps_bind hl rfl rfl), ?_, ?_⟩
      · rw [Nat.mul_add]
        exact Nat.add_le_add hc hd
      · rw [hrest]
        simp only [Pays, tokenWorth, reserve, if_true] at *
        omega

theorem collect (hs : s.Ready n m r) (hx : 0 ≤ x) (hreserve : x ≤ reserve)
    (hitem : ∀ s, s.Ready n m r → Affords n item s fun o => if o.2 then x else y)
    (hmoves : ∀ s, s.Ready n m r → (item.run s).1.2 = true →
      (item.run s).2.remaining < s.remaining) :
    Affords n (collect item) s fun _ => x + y + 1 := by
  refine (tells_inspect _).bind ?_
  obtain ⟨k, c, hk, hc, hstays, hpasses⟩ :=
    collects_collectWithin hx hreserve hitem hmoves _ hs (Nat.lt_succ_self _)
  have hle := ((collectWithin item s.remaining.succ).keeps s).remaining_le
  refine ⟨k, c, hk, hc, ?_⟩
  generalize (collectWithin item s.remaining.succ).run s = result at *
  simp only [Pays, tokenWorth, reserve] at *
  omega

/-- A loop whose rounds end with a token. -/
theorem collectTokens (hs : s.Ready n m r)
    (hitem : ∀ s, s.Ready n m r → Affords n item s fun o => if o.2 then -1 else y) :
    Affords n (Grammar.collect item) s fun _ => y + 1 := by
  have hfree : ∀ s, s.Ready n m r → Affords n item s fun o => if o.2 then 0 else y := by
    intro s hs
    refine (hitem s hs).mono fun o => ?_
    cases o.2 <;> simp
  have hloop := collect hs (le_refl 0) (by simp) hfree fun s hs hmore =>
    (hitem s hs).remaining_lt (by simp [hmore])
  exact hloop.mono fun _ => by omega

end

section

variable {element : Parser Slot} {x : ℤ}

theorem listItem (hs : s.Ready n m r) (helement : Affords n element s fun _ => x) :
    Affords n (listItem element) s fun o => if o.2 then x + 1 - gain else x + 1 := by
  refine helement.bind hs fun node s hs => ?_
  cases node with
  | none => exact pure (by simp)
  | some node =>
    refine accept hs (by decide) (fun s hs => pure ?_) fun _ => pure (by simp)
    simp only [gain, if_true]
    omega

theorem commaList {close : TokenKind} (hs : s.Ready n m r) (hx₀ : 0 ≤ x) (hx : x + 3 ≤ gain)
    (helement : ∀ s, s.Ready n m r → Affords n element s fun _ => x) :
    Affords n (commaList close element) s fun _ => x + 3 := by
  have hitem : ∀ s, s.Ready n m r → Affords n (do
      if ← isAtOrEnd close then return (none, false)
      Grammar.listItem element) s fun o => if o.2 then -1 else x + 2 := by
    intro s hs
    refine (tells_isAtOrEnd close).bind (ite (fun _ => pure ?_) fun _ => ?_)
    · simp only [Bool.false_eq_true, if_false]
      omega
    · refine (listItem hs (helement s hs)).mono fun o => ?_
      simp only [gain] at *
      split <;> omega
  exact (collectTokens hs hitem).mono fun _ => by omega

theorem commaListWithHoles (hs : s.Ready n m r) (hx₀ : 0 ≤ x) (hx : x + 4 ≤ gain)
    (helement : ∀ s, s.Ready n m r → Affords n element s fun _ => x) :
    Affords n (commaListWithHoles element) s fun _ => x + 4 := by
  have hitem : ∀ s, s.Ready n m r → Affords n (do
      if ← isAtOrEnd .closeBracket then return (none, false)
      if ← isAt .comma then
        let hole ← insertNode .hole
        advance
        return (some hole, true)
      Grammar.listItem element) s fun o => if o.2 then -1 else x + 3 := by
    intro s hs
    refine (tells_isAtOrEnd _).bind (ite (fun _ => pure ?_) fun _ => ?_)
    · simp only [Bool.false_eq_true, if_false]
      omega
    · refine (tells_isAt _).bind (ite (fun hcomma => ?_) fun _ => ?_)
      · refine (looks_insertNode _).bind fun hole s' hupcoming => ?_
        have hk : kindOf s'.upcoming ≠ .endOfFile := by
          rw [hupcoming, eq_of_beq hcomma]
          decide
        exact (affords_advance (hs.of_upcoming hupcoming) hk).bind (hs.of_upcoming hupcoming)
          fun _ s hs => pure (by simp)
      · refine (listItem hs (helement s hs)).mono fun o => ?_
        simp only [gain] at *
        split <;> omega
  exact (collectTokens hs hitem).mono fun _ => by omega

end

end Affords

end FunctionNaming.Grammar
