import FunctionNaming.Script
import FunctionNaming.Proofs.Grammar.Ahead

/-!
How many steps the parts of a parser take that look at the script only. Most of them read a fixed
number of tokens. To see whether an arrow function begins, the parser passes a whole group, which takes
two steps for each token.
-/

namespace FunctionNaming.Grammar

variable {α β : Type} {s s' : State}

namespace State

theorem Keeps.remaining_le (h : s.Keeps s') : s'.remaining ≤ s.remaining := h.upcoming.length_le

theorem remaining_advance_lt (hs : Ended s.upcoming) (hk : kindOf s.upcoming ≠ .endOfFile) :
    s.advance.remaining + 1 = s.remaining := by
  obtain ⟨t, u, T, hT⟩ := hs.exists_cons hk
  rw [remaining, remaining, upcoming_advance hs hk, hT]
  rfl

end State

theorem Parser.steps_bind {p : Parser α} {next : α → Parser β} {a : α} {k l : Nat}
    (hp : p.steps s = some k) (hrun : p.run s = (a, s')) (hnext : (next a).steps s' = some l) :
    (p >>= next).steps s = some (k + l) := by
  show (do return (← p.steps s) + (← (next (p.run s).1).steps (p.run s).2)) = some (k + l)
  rw [hp, hrun]
  show (do return k + (← (next a).steps s')) = some (k + l)
  rw [hnext]
  rfl

/-- From `s`, the run of `p` is not cut off and takes at most `bound` steps. -/
def Takes (p : Parser α) (s : State) (bound : Nat) : Prop := ∃ k, p.steps s = some k ∧ k ≤ bound

namespace Takes

variable {p : Parser α} {next : α → Parser β} {b c : Nat}

theorem pure (a : α) (s : State) : Takes (Pure.pure a) s 0 := ⟨0, rfl, Nat.le_refl _⟩

theorem inspect (tell : State → α) (s : State) : Takes (Parser.inspect tell) s 1 :=
  ⟨1, rfl, Nat.le_refl _⟩

theorem change (move : State → State) (h : ∀ s : State, s.Keeps (move s)) (s : State) :
    Takes (Parser.change move h) s 1 :=
  ⟨1, rfl, Nat.le_refl _⟩

theorem bind (hp : Takes p s b) (hnext : ∀ a s', p.run s = (a, s') → Takes (next a) s' c) :
    Takes (p >>= next) s (c + b) := by
  obtain ⟨k, hk, hb⟩ := hp
  obtain ⟨l, hl, hc⟩ := hnext _ _ rfl
  exact ⟨k + l, Parser.steps_bind hk rfl hl, by omega⟩

theorem mono (hp : Takes p s b) (h : b ≤ c) : Takes p s c := by
  obtain ⟨k, hk, hb⟩ := hp
  exact ⟨k, hk, Nat.le_trans hb h⟩

theorem ite {q : Parser α} {h : Prop} [Decidable h] (hp : Takes p s b) (hq : Takes q s b) :
    Takes (if h then p else q) s b := by
  split
  · exact hp
  · exact hq

theorem lookAhead (hp : Takes p s b) : Takes (lookAhead p) s b := hp

end Takes

/-! ### Looking at the next tokens -/

theorem takes_kind (s : State) : Takes kind s 1 := ⟨1, rfl, Nat.le_refl _⟩

theorem takes_isAt (k : TokenKind) (s : State) : Takes (isAt k) s 1 := ⟨1, rfl, Nat.le_refl _⟩

theorem takes_afterLineBreak (s : State) : Takes afterLineBreak s 1 := ⟨1, rfl, Nat.le_refl _⟩

theorem takes_advance (s : State) : Takes advance s 1 := ⟨1, rfl, Nat.le_refl _⟩

theorem takes_accept (k : TokenKind) (s : State) : Takes (accept k) s 2 := by
  refine (takes_isAt k s).bind (c := 1) fun b s' _ => .ite ?_ ((Takes.pure _ _).mono (by decide))
  exact (takes_advance s').bind fun _ _ _ => Takes.pure _ _

theorem takes_expect (k : TokenKind) (s : State) : Takes (expect k) s 3 := by
  refine (takes_accept k s).bind (c := 1) fun b s' _ => .ite ((Takes.pure _ _).mono (by decide)) ?_
  exact Takes.change _ _ _

theorem takes_isPropertyWord (s : State) : Takes isPropertyWord s 1 := ⟨1, rfl, Nat.le_refl _⟩

theorem takes_isIdentifier (s : State) : Takes isIdentifier s 2 := by
  refine (takes_kind s).bind fun k s' _ => ?_
  split
  · exact (Takes.pure _ _).mono (by decide)
  · exact (Takes.inspect _ _).bind fun _ _ _ => Takes.pure _ _
  · exact (Takes.pure _ _).mono (by decide)

theorem takes_startsBinding (s : State) : Takes startsBinding s 3 := by
  refine (takes_kind s).bind fun k s' _ => ?_
  split
  · exact (Takes.pure _ _).mono (by decide)
  · exact (Takes.pure _ _).mono (by decide)
  · exact takes_isIdentifier s'

theorem takes_startsMember (s : State) : Takes startsMember s 2 := by
  refine (takes_kind s).bind fun k s' _ => ?_
  split
  · exact (Takes.pure _ _).mono (by decide)
  · exact (Takes.pure _ _).mono (by decide)
  · exact (Takes.pure _ _).mono (by decide)
  · exact (Takes.pure _ _).mono (by decide)
  · exact takes_isPropertyWord s'

theorem takes_canEndStatement (s : State) : Takes canEndStatement s 2 := by
  refine (takes_kind s).bind fun k s' _ => ?_
  split
  · exact (Takes.pure _ _).mono (by decide)
  · exact (Takes.pure _ _).mono (by decide)
  · exact (Takes.pure _ _).mono (by decide)
  · exact takes_afterLineBreak s'

theorem takes_endsYield (s : State) : Takes endsYield s 3 := by
  refine (takes_kind s).bind fun k s' _ => ?_
  split
  · exact (Takes.pure _ _).mono (by decide)
  · exact (Takes.pure _ _).mono (by decide)
  · exact (Takes.pure _ _).mono (by decide)
  · exact (Takes.pure _ _).mono (by decide)
  · exact takes_canEndStatement s'

theorem takes_isArrow (s : State) : Takes isArrow s 2 :=
  (takes_isAt _ s).bind fun _ s' _ => (takes_afterLineBreak s').bind fun _ _ _ => Takes.pure _ _

/-! ### Looking for an arrow -/

/-- Passing a group takes two steps for each of its tokens, and the end of the script comes before
the limit. -/
theorem takes_skipGroupWithin {limit : Nat} (depth : Nat) (hs : Ended s.upcoming)
    (hlimit : s.remaining ≤ limit) : Takes (skipGroupWithin limit depth) s (2 * s.remaining) := by
  induction limit generalizing depth s with
  | zero => exact absurd (List.length_eq_zero_iff.1 (Nat.le_zero.1 hlimit)) hs.ne_nil
  | succ limit ih =>
    have hpos : 0 < s.remaining := List.length_pos_iff.2 hs.ne_nil
    have hround : Takes (skipGroupWithin (limit + 1) depth) s (2 * s.remaining - 1 + 1) := by
      refine (takes_kind s).bind fun k s₁ hrun => ?_
      obtain ⟨rfl, rfl⟩ : kindOf s.upcoming = k ∧ s = s₁ := Prod.mk.inj hrun
      split
      · exact (Takes.pure _ _).mono (Nat.zero_le _)
      · next hend =>
        have hk : kindOf s.upcoming ≠ .endOfFile := by simpa using hend
        have hremaining := State.remaining_advance_lt hs hk
        have hrest : ∀ depth', Takes (skipGroupWithin limit depth') s.advance
            (2 * s.advance.remaining) :=
          fun depth' => ih depth' (ended_advance hs) (by omega)
        refine Takes.ite ((Takes.pure _ _).mono (Nat.zero_le _)) ?_
        refine ((takes_advance s).bind fun _ s₂ hrun₂ => ?_).mono
          (by omega : 2 * s.advance.remaining + 1 ≤ _)
        obtain rfl : s.advance = s₂ := (Prod.mk.inj hrun₂).2
        exact Takes.ite (hrest _) (Takes.ite (hrest _) (hrest _))
    exact hround.mono (by omega)

theorem takes_arrowFollowsGroup (hs : Ended s.upcoming) :
    Takes arrowFollowsGroup s (2 * s.remaining + 4) := by
  have hrun : ∀ a s', remaining.run s = (a, s') → Takes (do
      if ← skipGroupWithin a 0 then
        advance
        isArrow
      else return false) s' (3 + 2 * s.remaining) := by
    rintro a s' hrun
    obtain ⟨rfl, rfl⟩ : s.remaining = a ∧ s = s' := Prod.mk.inj hrun
    refine (takes_skipGroupWithin 0 hs (Nat.le_refl _)).bind fun b s₁ _ => ?_
    have harrow : Takes (advance >>= fun _ => isArrow) s₁ 3 :=
      (takes_advance s₁).bind fun _ s₂ _ => takes_isArrow s₂
    exact Takes.ite harrow ((Takes.pure _ _).mono (Nat.zero_le _))
  exact ((Takes.inspect _ s).bind hrun).mono (by omega)

theorem takes_startsArrowFunction (hs : Ended s.upcoming) :
    Takes startsArrowFunction s (2 * s.remaining + 8) := by
  have harrow : ∀ s, Takes (do
      advance
      isArrow) s 3 :=
    fun s => (takes_advance s).bind fun _ s₂ _ => takes_isArrow s₂
  have hgroup : Takes arrowFollowsGroup s (2 * s.remaining + 7) :=
    (takes_arrowFollowsGroup hs).mono (by omega)
  refine ((takes_kind s).bind fun k s₁ hrun => ?_).mono (by omega : 2 * s.remaining + 7 + 1 ≤ _)
  obtain ⟨rfl, rfl⟩ : kindOf s.upcoming = k ∧ s = s₁ := Prod.mk.inj hrun
  split
  · exact hgroup.lookAhead
  · refine Takes.lookAhead (((takes_advance s).bind fun _ s₂ hrun₂ => ?_).mono
      (by omega : 2 * s.remaining + 6 + 1 ≤ _))
    obtain rfl : s.advance = s₂ := (Prod.mk.inj hrun₂).2
    have hle : s.advance.remaining ≤ s.remaining := s.keeps_advance.remaining_le
    refine ((takes_afterLineBreak _).bind fun b s₃ hrun₃ => ?_).mono
      (by omega : 2 * s.advance.remaining + 5 + 1 ≤ _)
    obtain rfl : s.advance = s₃ := (Prod.mk.inj hrun₃).2
    refine Takes.ite ((Takes.pure _ _).mono (Nat.zero_le _)) ?_
    refine ((takes_isAt _ _).bind fun b s₄ hrun₄ => ?_).mono
      (by omega : 2 * s.advance.remaining + 4 + 1 ≤ _)
    obtain rfl : s.advance = s₄ := (Prod.mk.inj hrun₄).2
    refine Takes.ite (takes_arrowFollowsGroup (ended_advance hs)) ?_
    have hpos : 0 < s.advance.remaining := List.length_pos_iff.2 (ended_advance hs).ne_nil
    refine ((takes_isIdentifier _).bind fun b s₅ _ => ?_).mono (by omega : 3 + 2 ≤ _)
    exact Takes.ite (harrow s₅) ((Takes.pure _ _).mono (Nat.zero_le _))
  · refine ((takes_isIdentifier s).bind fun b s₂ _ => ?_).mono (by omega : 3 + 2 ≤ _)
    exact Takes.ite (harrow s₂).lookAhead ((Takes.pure _ _).mono (Nat.zero_le _))

end FunctionNaming.Grammar
