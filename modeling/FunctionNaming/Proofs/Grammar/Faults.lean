import FunctionNaming.Proofs.Grammar.Outline
import FunctionNaming.Proofs.Token.Faults

/-!
Where the diagnostics of a script point. They come in the order of the text, and all of them lie in
it (`Script.diagnostics_inside`): what the scanner finds fault with stands where it is looking, and
the grammar complains about tokens. Only the byte that should have been a hexadecimal digit may be
missing altogether, at the end of the script.
-/

namespace FunctionNaming

namespace Diagnostic

theorem mem_insert {d e : Diagnostic} {ds : List Diagnostic} :
    e ∈ insert d ds ↔ e = d ∨ e ∈ ds := by
  induction ds with
  | nil => simp [insert]
  | cons f ds ih =>
    rw [insert]
    split
    · exact List.mem_cons
    · rw [List.mem_cons, ih, List.mem_cons]
      exact or_left_comm

theorem mem_sort {e : Diagnostic} {ds : List Diagnostic} : e ∈ sort ds ↔ e ∈ ds := by
  induction ds with
  | nil => exact Iff.rfl
  | cons d ds ih => exact mem_insert.trans ((or_congr_right ih).trans List.mem_cons.symm)

theorem pairwise_insert (d : Diagnostic) {ds : List Diagnostic}
    (h : ds.Pairwise fun e f => e.start ≤ f.start) :
    (insert d ds).Pairwise fun e f => e.start ≤ f.start := by
  induction ds with
  | nil => exact List.pairwise_singleton _ _
  | cons e ds ih =>
    obtain ⟨hfirst, hrest⟩ := List.pairwise_cons.1 h
    rw [insert]
    split
    · next hle =>
      refine List.pairwise_cons.2 ⟨fun f hf => ?_, h⟩
      obtain rfl | hf := List.mem_cons.1 hf
      · exact hle
      · exact hle.trans (hfirst f hf)
    · next hle =>
      refine List.pairwise_cons.2 ⟨fun f hf => ?_, ih hrest⟩
      obtain rfl | hf := mem_insert.1 hf
      · exact (Nat.lt_of_not_le hle).le
      · exact hfirst f hf

/-- Sorting puts diagnostics into the order of the text. -/
theorem pairwise_sort (ds : List Diagnostic) :
    (sort ds).Pairwise fun d e => d.start ≤ e.start := by
  induction ds with
  | nil => exact List.Pairwise.nil
  | cons d ds ih => exact pairwise_insert d ih

end Diagnostic

namespace Script

open Grammar

variable {file source : String}

/-- The grammar complains about tokens of the script. -/
theorem token_mem_of_mem_faults {f : Fault} (h : f ∈ (readStatements (tokens source)).2.faults.toList) :
    f.token ∈ tokens source := by
  have hne : (State.start (tokens source)).upcoming ≠ [] :=
    (TokenStream.ended_ofSource source.toList).ne_nil
  rcases (Parser.keeps _ _).fault_mem hne f h with hf | hf
  · exact absurd hf List.not_mem_nil
  · exact hf

/-- A complaint about a token lies where the token does. -/
theorem liesIn_diagnostic {f : Fault} (h : f ∈ (readStatements (tokens source)).2.faults.toList) :
    f.diagnostic.LiesIn source.toList := by
  have hspaces := ((Scanner.standsIn_start source.toList).spaces_readTokens
    (source.toList.length + 1)).1
  obtain ⟨hstart, hstop⟩ := hspaces.boundaries f.token (token_mem_of_mem_faults h)
  have hlength : f.token.start + (f.token.stop - f.token.start) = f.token.stop :=
    Nat.add_sub_cancel' (Nat.le_add_right _ _)
  exact ⟨hstart, .inl (hlength.symm ▸ hstop)⟩

theorem liesIn_of_mem_diagnostics {d : Diagnostic} (h : d ∈ (Script.parse file source).diagnostics) :
    d.LiesIn source.toList := by
  rw [parse_diagnostics, Diagnostic.mem_sort, List.mem_append, List.mem_map] at h
  rcases h with ⟨f, hf, rfl⟩ | hd
  · exact liesIn_diagnostic hf
  · exact TokenStream.liesIn_faults source.toList d hd

/-- The diagnostics of any script are in the order of the text. Each of them starts between
characters and ends within the script, unless the script lacks a hexadecimal digit at its end: the
byte where that should be does not exist. -/
theorem diagnostics_inside (file source : String) :
    (Script.parse file source).diagnostics.Pairwise (fun d e => d.start ≤ e.start) ∧
      ∀ d ∈ (Script.parse file source).diagnostics,
        Text.IsBoundary source.toList d.start ∧
          (d.start + d.length ≤ source.utf8ByteSize ↔
            d ≠ ⟨source.utf8ByteSize, 1, .hexDigitExpected⟩) := by
  constructor
  · rw [parse_diagnostics]
    exact Diagnostic.pairwise_sort _
  · intro d hd
    have hlies := liesIn_of_mem_diagnostics hd
    rw [← Text.width_toList]
    exact ⟨hlies.start, hlies.stop_le_iff⟩

/-- A string that ends with the script in the middle of an escape, behind an open parenthesis. The
parenthesis that is missing at the end has no length, but the digit that is missing there has one. -/
theorem diagnostics_inside_open_escape :
    (Script.parse "" "é = #(\"\\x").diagnostics =
        [⟨5, 1, .expressionExpected⟩, ⟨5, 1, .invalidCharacter⟩, ⟨7, 3, .unterminatedString⟩,
          ⟨10, 0, .tokenExpected .closeParen⟩, ⟨10, 1, .hexDigitExpected⟩] ∧
      (Text.IsBoundary "é = #(\"\\x".toList 10 ∧
        (10 + 0 ≤ "é = #(\"\\x".utf8ByteSize ↔
          (⟨10, 0, .tokenExpected .closeParen⟩ : Diagnostic) ≠
            ⟨"é = #(\"\\x".utf8ByteSize, 1, .hexDigitExpected⟩)) ∧
      (Text.IsBoundary "é = #(\"\\x".toList 10 ∧
        (10 + 1 ≤ "é = #(\"\\x".utf8ByteSize ↔
          (⟨10, 1, .hexDigitExpected⟩ : Diagnostic) ≠
            ⟨"é = #(\"\\x".utf8ByteSize, 1, .hexDigitExpected⟩)) := by
  have hdiagnostics : (Script.parse "" "é = #(\"\\x").diagnostics =
      [⟨5, 1, .expressionExpected⟩, ⟨5, 1, .invalidCharacter⟩, ⟨7, 3, .unterminatedString⟩,
        ⟨10, 0, .tokenExpected .closeParen⟩, ⟨10, 1, .hexDigitExpected⟩] := by
    decide +kernel
  have hinside := (diagnostics_inside "" "é = #(\"\\x").2
  rw [hdiagnostics] at hinside
  exact ⟨hdiagnostics, hinside ⟨10, 0, .tokenExpected .closeParen⟩ (by simp),
    hinside ⟨10, 1, .hexDigitExpected⟩ (by simp)⟩

end Script

end FunctionNaming
