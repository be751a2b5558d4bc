import FunctionNaming.Proofs.Grammar.Clean
import FunctionNaming.Proofs.Grammar.Halts.Statement

/-!
Reading always comes to an end. No limit of the grammar is ever reached, whatever the source text is,
so every loop ends by itself, and the loop over the statements of the script ends at its last token.
The number of steps is bounded by a square of the length of the text, because at a parenthesis the
parser may look ahead through everything that is left.
-/

namespace FunctionNaming

namespace Grammar

variable {α β : Type} {s : State}

theorem Parser.exists_steps_of_bind {p : Parser α} {next : α → Parser β} {k : Nat}
    (h : (p >>= next).steps s = some k) :
    ∃ i j, p.steps s = some i ∧ (next (p.run s).1).steps (p.run s).2 = some j := by
  have hbind : ((p.steps s).bind fun i =>
      ((next (p.run s).1).steps (p.run s).2).bind fun j => some (i + j)) = some k := h
  obtain ⟨i, hi, hrest⟩ := Option.bind_eq_some_iff.1 hbind
  obtain ⟨j, hj, -⟩ := Option.bind_eq_some_iff.1 hrest
  exact ⟨i, j, hi, hj⟩

/-- A loop that is not cut off ends with a round that asks for no more. -/
theorem ends_collectWithin {item : Parser (Slot × Bool)} {P : State → Prop}
    (hitem : ∀ s, (item.run s).1.2 = false → P (item.run s).2) {limit k : Nat}
    (h : (collectWithin item limit).steps s = some k) :
    P ((collectWithin item limit).run s).2 := by
  induction limit generalizing s k with
  -- A loop whose limit is reached has no number of steps.
  | zero => cases h
  | succ limit ih =>
    obtain ⟨-, l, -, hrest⟩ := Parser.exists_steps_of_bind h
    have hstops := hitem s
    rw [collectWithin, Parser.run_bind]
    rcases hrun : item.run s with ⟨⟨node, more⟩, s'⟩
    rw [hrun] at hstops hrest
    cases more with
    | false => exact hstops rfl
    | true =>
      obtain ⟨i, -, hi, -⟩ := Parser.exists_steps_of_bind hrest
      exact ih hi

/-- The statements of a script that are read without being cut off reach its end. -/
theorem ends_scriptStatements {parse : Rule → Parser Slot} {k : Nat}
    (h : (scriptStatements parse).steps s = some k) :
    kindOf ((scriptStatements parse).run s).2.upcoming = .endOfFile := by
  obtain ⟨-, l, -, hloop⟩ := Parser.exists_steps_of_bind h
  refine ends_collectWithin (P := fun s => kindOf s.upcoming = .endOfFile) (fun s hstops => ?_) hloop
  rw [Parser.run_bind, run_kind] at hstops ⊢
  split at hstops
  · next hk => exact hk
  · cases hstops
  · cases hstops

end Grammar

namespace Script

open Grammar

/-- There is at most one token for each character, and one for the end. -/
theorem length_readTokens_le (limit : Nat) (s : Scanner) :
    (Scanner.readTokens limit s).1.length ≤ limit := by
  induction limit generalizing s with
  | zero => exact Nat.le_refl 0
  | succ limit ih =>
    rw [Scanner.readTokens]
    split
    · exact Nat.succ_le_succ (Nat.zero_le _)
    · exact Nat.succ_le_succ (ih _)

theorem length_tokens_le (source : String) : (tokens source).length ≤ source.length + 1 := by
  have hread := length_readTokens_le (source.toList.length + 1) (.start source.toList)
  rwa [String.length_toList] at hread

/-- For every source text, the tokens are at most one more than its characters, the last of them is
the end of the script, and reading them takes a bounded number of steps and ends at the last token,
in the surroundings and at the depth at which it began. Every parser restores its surroundings and
its depth, whatever its result. -/
theorem parse_halts (source : String) :
    (tokens source).length ≤ source.length + 1 ∧ Ended (tokens source) ∧
    (∃ k, (reading (tokens source)).steps (.start (tokens source)) = some k ∧
      k ≤ (8 * source.length + 24) * (1000 * source.length + 1058)) ∧
    (readStatements (tokens source)).2.current.kind = .endOfFile ∧
    (readStatements (tokens source)).2.depth = 0 ∧
    (readStatements (tokens source)).2.context = .outermost ∧
    ∀ (α : Type) (p : Parser α) (s : State),
      (p.run s).2.depth = s.depth ∧ (p.run s).2.context = s.context := by
  have hended : Ended (tokens source) := TokenStream.ended_ofSource source.toList
  have hlength := length_tokens_le source
  have hstart : (State.start (tokens source)).Ready (tokens source).length
      (6 * (tokens source).length + 6) 6 := ⟨hended, Nat.le_refl _, Nat.le_refl _⟩
  obtain ⟨k, cost, hk, hcost, hpays, -⟩ :=
    affords_scriptStatements (callable_parseWithin _ _) (by decide) hstart
  have hkeeps := (reading (tokens source)).keeps (.start (tokens source))
  refine ⟨hlength, hended, ⟨k, hk, hcost.trans (Nat.mul_le_mul ?_ ?_)⟩, ?_, hkeeps.depth,
    hkeeps.context, fun α p s => ⟨(p.keeps s).depth, (p.keeps s).context⟩⟩
  · rw [unitSteps]
    omega
  · have hremaining : (State.start (tokens source)).remaining = (tokens source).length := rfl
    simp only [hremaining, tokenWorth] at hpays
    omega
  · exact ends_scriptStatements hk

end Script

end FunctionNaming
