import FunctionNaming.Proofs.Token.Calm

/-!
The texts that are numbers: hexadecimal digits behind their mark, or digits, a point with further
digits and an exponent, some of which may be missing. The scanner cuts off such a text and no other,
and it reads it again as a whole, if nothing follows that the number could go on with.
-/

namespace FunctionNaming

namespace Literal

/-- That a text is a point with the digits after it, or nothing. -/
inductive IsFraction : List Char → Prop
  | none : IsFraction []
  | point (ds : List Char) : ds.all Char.isDigit = true → IsFraction ('.' :: ds)

/-- That a text is an exponent, or nothing. -/
inductive IsExponent : List Char → Prop
  | none : IsExponent []
  | unsigned {e d : Char} (ds : List Char) : e = 'e' ∨ e = 'E' → (d :: ds).all Char.isDigit = true →
      IsExponent (e :: d :: ds)
  | signed {e sign d : Char} (ds : List Char) : e = 'e' ∨ e = 'E' → sign = '+' ∨ sign = '-' →
      (d :: ds).all Char.isDigit = true → IsExponent (e :: sign :: d :: ds)

/-- That a text is a number. -/
inductive IsNumeral : List Char → Prop
  | hex {x : Char} {ds : List Char} : x = 'x' ∨ x = 'X' → ds ≠ [] → ds.all isHexDigit = true →
      IsNumeral ('0' :: x :: ds)
  | decimal (whole fraction exponent : List Char) : whole.all Char.isDigit = true →
      IsFraction fraction → IsExponent exponent →
      Lexeme.startsNumber (whole ++ fraction ++ exponent) = true →
      IsNumeral (whole ++ fraction ++ exponent)

variable {cs ds : List Char}

/-! ### What is cut off -/

theorem all_digits (cs : List Char) : (digits cs).all Char.isDigit = true :=
  List.all_eq_true.2 fun _ hc => List.mem_takeWhile_imp hc

theorem isFraction_take (cs : List Char) : IsFraction (cs.take (fractionLength cs)) := by
  match cs with
  | [] => exact .none
  | c :: cs =>
    by_cases hpoint : c = '.'
    · subst hpoint
      rw [fractionLength, Nat.add_comm, List.take_succ_cons, take_digits]
      exact .point _ (all_digits cs)
    · simpa [fractionLength, hpoint] using IsFraction.none

/-- A text that starts with a digit has digits to cut off. -/
theorem exists_digits (h : startsWithDigit cs = true) :
    ∃ d ds, digits cs = d :: ds ∧ (d :: ds).all Char.isDigit = true := by
  cases cs with
  | nil => cases h
  | cons d cs =>
    have hdigits : digits (d :: cs) = d :: digits cs := List.takeWhile_cons_of_pos h
    exact ⟨d, digits cs, hdigits, hdigits ▸ all_digits (d :: cs)⟩

theorem isExponent_take (cs : List Char) : IsExponent (cs.take (exponentLength cs)) := by
  match cs with
  | [] => exact .none
  | [e] => simpa [exponentLength] using IsExponent.none
  | e :: sign :: cs =>
    rw [exponentLength]
    split
    · next he =>
      split
      · next hsign =>
        obtain ⟨d, ds, hdigits, hall⟩ := exists_digits hsign.2
        rw [Nat.add_comm, List.take_succ_cons, List.take_succ_cons, take_digits, hdigits]
        exact .signed ds he hsign.1 hall
      · split
        · next hdigit =>
          obtain ⟨d, ds, hdigits, hall⟩ := exists_digits hdigit
          rw [Nat.add_comm, List.take_succ_cons, take_digits, hdigits]
          exact .unsigned ds he hall
        · exact .none
    · exact .none

theorem exists_of_startsHex (h : startsHex cs = true) :
    ∃ x ds, (x = 'x' ∨ x = 'X') ∧ cs = '0' :: x :: ds := by
  cases cs with
  | nil => cases h
  | cons c cs =>
    cases cs with
    | nil => simp [startsHex] at h
    | cons x cs =>
      by_cases hc : c = '0'
      · exact ⟨x, cs, by simpa [startsHex, hc] using h, by rw [hc]⟩
      · simp [startsHex, hc] at h

theorem startsNumber_take (h : Lexeme.startsNumber cs = true) :
    Lexeme.startsNumber (cs.take (decimalLength cs)) = true := by
  have hpos := Lexeme.length_pos_of_startsNumber h
  match cs with
  | [] => cases h
  | c :: cs =>
    by_cases hpoint : c = '.'
    · subst hpoint
      obtain ⟨d, ds, hdigits, -⟩ := @exists_digits cs h
      have hwhole : digits ('.' :: cs) = [] := rfl
      have hlength : 2 ≤ decimalLength ('.' :: cs) := by
        simp only [decimalLength, hwhole, List.length_nil, List.drop_zero, fractionLength, hdigits,
          List.length_cons]
        omega
      obtain ⟨n, hn⟩ := Nat.exists_eq_add_of_le' hlength
      rw [hn]
      cases cs with
      | nil => cases h
      | cons d cs => exact h
    · obtain ⟨n, hn⟩ := Nat.exists_eq_add_of_le' hpos
      rw [hn, List.take_succ_cons]
      simpa [Lexeme.startsNumber, hpoint, startsWithDigit] using h

end Literal

open Literal (IsNumeral)

/-- What the scanner cuts off where a number begins is one, unless digits are missing. -/
theorem Lexeme.isNumeral_ofNumber {o : Nat} {cs : List Char} (h : startsNumber cs = true)
    (hfaults : (ofNumber o cs).faults = []) : IsNumeral (ofNumber o cs).value := by
  rw [ofNumber] at hfaults ⊢
  split
  · next hhex =>
    obtain ⟨x, ds, hx, rfl⟩ := Literal.exists_of_startsHex hhex
    have hne : ds.takeWhile Literal.isHexDigit ≠ [] := by
      intro hnil
      simp [hhex, Literal.hexLength, hnil] at hfaults
    have htake : ('0' :: x :: ds).take (2 + Literal.hexLength ('0' :: x :: ds)) =
        '0' :: x :: ds.takeWhile Literal.isHexDigit := by
      rw [Nat.add_comm, List.take_succ_cons, List.take_succ_cons,
        List.prefix_iff_eq_take.1 (List.takeWhile_prefix Literal.isHexDigit)]
      rfl
    simp only [htake]
    exact .hex hx hne (List.all_eq_true.2 fun _ hc => List.mem_takeWhile_imp hc)
  · have hstart := Literal.startsNumber_take h
    simp only [Literal.decimalLength, List.take_add] at hstart ⊢
    refine .decimal _ _ _ ?_ (Literal.isFraction_take _) (Literal.isExponent_take _) hstart
    rw [Literal.take_digits]
    exact Literal.all_digits cs

/-- What is read as a number is what is cut off where one begins. -/
theorem Lexeme.isNumeral_read {o : Nat} {cs : List Char} (h : (read o cs).kind = .number)
    (hfaults : (read o cs).faults = []) : IsNumeral (read o cs).value := by
  have hmarks : ∀ k ∈ TokenKind.marks, k ≠ .number := by decide
  have hwords : ∀ k ∈ TokenKind.keywords, k ≠ .number := by decide
  match cs with
  | [] => cases h
  | c :: cs =>
    rw [read] at h hfaults ⊢
    split at h
    · cases h
    · split at h
      · next hquote hnumber =>
        rw [if_neg hquote, if_pos hnumber] at hfaults ⊢
        exact isNumeral_ofNumber hnumber hfaults
      · split at h
        · simp only [ofWord] at h
          cases hkeyword : TokenKind.keyword? (String.ofList ((c :: cs).takeWhile isWordPart)) with
          | none =>
            rw [hkeyword] at h
            cases h
          | some k =>
            rw [hkeyword] at h
            exact absurd h (hwords k (List.mem_of_find?_eq_some hkeyword))
        · split at h
          · next k hmark => exact absurd h (hmarks k (List.mem_of_find?_eq_some hmark))
          · cases h

/-! ### What is read again -/

namespace Literal

/-- Whether a number of the text `cs` ends before the character `c`. -/
def endsBefore (cs : List Char) (c : Char) : Bool :=
  (c == 'i' || !isWordPart c) && (c != '.' || cs.any fun d => !d.isDigit)

theorem of_endsBefore {c : Char} (h : endsBefore cs c = true) :
    c.isDigit = false ∧ isHexDigit c = false ∧ c ∉ ['e', 'E', 'x', 'X'] ∧
      (c = '.' → ∃ d ∈ cs, d.isDigit = false) := by
  simp only [endsBefore, Bool.and_eq_true, Bool.or_eq_true, beq_iff_eq, Bool.not_eq_true',
    bne_iff_ne] at h
  obtain ⟨hplain, hpoint⟩ := h
  have hpoint' : c = '.' → ∃ d ∈ cs, d.isDigit = false := fun hc => by
    simpa using hpoint.resolve_left (not_not_intro hc)
  rcases hplain with rfl | hpart
  · exact ⟨rfl, rfl, by decide, hpoint'⟩
  · have hhex : isHexDigit c = false := by
      rw [Bool.eq_false_iff]
      intro hhex
      rw [isWordPart_of_isHexDigit hhex] at hpart
      cases hpart
    have hletters : ['e', 'E', 'x', 'X'].all isWordPart = true := by decide
    refine ⟨?_, hhex, fun hc => ?_, hpoint'⟩
    rotate_left
    · exact Bool.false_ne_true (hpart.symm.trans (List.all_eq_true.1 hletters c hc))
    simp only [isHexDigit, Bool.or_eq_false_iff] at hhex
    exact hhex.1.1

theorem digits_append (hcs : cs.all Char.isDigit = true) (hds : ∀ c ∈ ds.head?, c.isDigit = false) :
    digits (cs ++ ds) = cs := by
  rw [digits, takeWhile_append_of_head hds, List.takeWhile_eq_self_iff]
  exact List.all_eq_true.1 hcs

/-- What follows an exponent or stands in its place is no digit. -/
theorem isDigit_head?_exponent {exponent rest : List Char} (h : IsExponent exponent)
    (hrest : ∀ c ∈ rest.head?, c.isDigit = false) :
    ∀ c ∈ (exponent ++ rest).head?, c.isDigit = false := by
  cases h with
  | none => exact hrest
  | unsigned ds he _ | signed ds he _ _ =>
    rintro c ⟨rfl⟩
    rcases he with rfl | rfl <;> rfl

theorem exponentLength_append_rest {exponent rest : List Char} (h : IsExponent exponent)
    (hrest : ∀ c ∈ rest.head?, c.isDigit = false ∧ c ≠ 'e' ∧ c ≠ 'E') :
    exponentLength (exponent ++ rest) = exponent.length := by
  have hdigit : ∀ c ∈ rest.head?, c.isDigit = false := fun c hc => (hrest c hc).1
  cases h with
  | none =>
    cases rest with
    | nil => rfl
    | cons c rest =>
      have hc := hrest c rfl
      simp [exponentLength, hc]
  | @unsigned e d ds he hall =>
    have hdigits := digits_append hall hdigit
    have hd : d.isDigit = true := (Bool.and_eq_true_iff.1 hall).1
    have hsign : ¬(d = '+' ∨ d = '-') := by
      rintro (rfl | rfl) <;> cases hd
    have hstart : startsWithDigit (d :: (ds ++ rest)) = true := hd
    rw [List.cons_append] at hdigits
    simp [exponentLength, he, hsign, hstart, hdigits]
    omega
  | @signed e sign d ds he hsign hall =>
    have hdigits := digits_append hall hdigit
    have hd : d.isDigit = true := (Bool.and_eq_true_iff.1 hall).1
    have hstart : startsWithDigit (d :: (ds ++ rest)) = true := hd
    rw [List.cons_append] at hdigits
    simp [exponentLength, he, hsign, hstart, hdigits]
    omega

theorem fractionLength_append_rest {fraction rest : List Char} (h : IsFraction fraction)
    (hrest : ∀ c ∈ rest.head?, c.isDigit = false)
    (hpoint : fraction = [] → rest.head? ≠ some '.') :
    fractionLength (fraction ++ rest) = fraction.length := by
  cases h with
  | none =>
    cases rest with
    | nil => rfl
    | cons c rest =>
      have hc : c ≠ '.' := fun heq => hpoint rfl (by simp [heq])
      simp [fractionLength, hc]
  | point ds hall =>
    rw [List.cons_append, fractionLength, digits_append hall hrest, List.length_cons, Nat.add_comm]

theorem decimalLength_append_rest {whole fraction exponent rest : List Char}
    (hwhole : whole.all Char.isDigit = true) (hfraction : IsFraction fraction)
    (hexponent : IsExponent exponent)
    (hrest : ∀ c ∈ rest.head?, endsBefore (whole ++ fraction ++ exponent) c = true) :
    decimalLength (whole ++ fraction ++ exponent ++ rest) =
      (whole ++ fraction ++ exponent).length := by
  have hdigit : ∀ c ∈ rest.head?, c.isDigit = false := fun c hc => (of_endsBefore (hrest c hc)).1
  have hletter : ∀ c ∈ rest.head?, c.isDigit = false ∧ c ≠ 'e' ∧ c ≠ 'E' := by
    intro c hc
    obtain ⟨hdigit, -, hletters, -⟩ := of_endsBefore (hrest c hc)
    simp_all
  have hpoint : fraction = [] → (exponent ++ rest).head? ≠ some '.' := by
    intro hnone heq
    subst hnone
    cases hexponent with
    | none =>
      obtain ⟨d, hd, hnot⟩ := (of_endsBefore (hrest '.' heq)).2.2.2 rfl
      have hall : d.isDigit = true := List.all_eq_true.1 hwhole d (by simpa using hd)
      exact Bool.false_ne_true (hnot.symm.trans hall)
    | unsigned ds he _ | signed ds he _ _ =>
      rcases he with rfl | rfl <;> simp at heq
  have hbehind := isDigit_head?_exponent hexponent hdigit
  have hafter : ∀ c ∈ (fraction ++ (exponent ++ rest)).head?, c.isDigit = false := by
    cases hfraction with
    | none => exact hbehind
    | point ds _ =>
      rintro c ⟨rfl⟩
      rfl
  have hdigits := digits_append hwhole hafter
  have hlength := fractionLength_append_rest hfraction hbehind hpoint
  have hlength' := exponentLength_append_rest hexponent hletter
  simp only [decimalLength, List.append_assoc, hdigits, List.drop_left, hlength, List.length_append]
  rw [← List.drop_drop, List.drop_left, List.drop_left, hlength', Nat.add_assoc]

end Literal

namespace Lexeme

theorem startsNumber_append_rest {cs : List Char} (h : startsNumber cs = true) (rest : List Char) :
    startsNumber (cs ++ rest) = true := by
  match cs with
  | [] => cases h
  | [c] =>
    by_cases hpoint : c = '.'
    · subst hpoint
      cases h
    · simpa [startsNumber, hpoint, Literal.startsWithDigit] using h
  | c :: d :: cs =>
    by_cases hpoint : c = '.'
    · subst hpoint
      exact h
    · simpa [startsNumber, hpoint, Literal.startsWithDigit] using h

end Lexeme

namespace Literal

/-- Whether `c` is in the mark of a hexadecimal number. -/
def marksHex (c : Char) : Bool := c == 'x' || c == 'X'

theorem startsHex_eq_false {rest : List Char} (hne : cs ≠ []) (hcs : ∀ c ∈ cs, marksHex c = false)
    (hrest : ∀ c ∈ rest.head?, marksHex c = false) : startsHex (cs ++ rest) = false := by
  have hsecond : ∀ (c : Char) (ds : List Char), (∀ d ∈ ds.head?, marksHex d = false) →
      startsHex (c :: ds) = false := by
    intro c ds hds
    by_cases hc : c = '0'
    · cases ds with
      | nil => simp [startsHex]
      | cons d ds =>
        subst hc
        exact hds d rfl
    · simp [startsHex, hc]
  obtain ⟨c, cs, rfl⟩ := List.exists_cons_of_ne_nil hne
  cases cs with
  | nil => exact hsecond c rest hrest
  | cons d cs =>
    refine hsecond c (d :: cs ++ rest) ?_
    rintro e ⟨rfl⟩
    exact hcs d (by simp)

theorem marksHex_of_isDigit {c : Char} (h : c.isDigit = true) : marksHex c = false := by
  rw [Bool.eq_false_iff]
  intro hx
  have hx' : c = 'x' ∨ c = 'X' := by simpa [marksHex] using hx
  rcases hx' with rfl | rfl <;> cases h

/-- No decimal number has the mark of a hexadecimal one in it. -/
theorem marksHex_of_mem {whole fraction exponent : List Char}
    (hwhole : whole.all Char.isDigit = true) (hfraction : IsFraction fraction)
    (hexponent : IsExponent exponent) :
    ∀ c ∈ whole ++ fraction ++ exponent, marksHex c = false := by
  have hdigits : ∀ {ds : List Char}, ds.all Char.isDigit = true → ∀ c ∈ ds, marksHex c = false :=
    fun h c hc => marksHex_of_isDigit (List.all_eq_true.1 h c hc)
  have hletter : ∀ {e : Char}, e = 'e' ∨ e = 'E' → marksHex e = false := by
    rintro e (rfl | rfl) <;> rfl
  have hsign : ∀ {c : Char}, c = '+' ∨ c = '-' → marksHex c = false := by
    rintro c (rfl | rfl) <;> rfl
  rw [List.append_assoc, List.forall_mem_append, List.forall_mem_append]
  refine ⟨hdigits hwhole, ?_, ?_⟩
  · cases hfraction with
    | none => exact List.forall_mem_nil _
    | point ds hall => exact List.forall_mem_cons.2 ⟨rfl, hdigits hall⟩
  · cases hexponent with
    | none => exact List.forall_mem_nil _
    | unsigned ds he hall => exact List.forall_mem_cons.2 ⟨hletter he, hdigits hall⟩
    | signed ds he hs hall =>
      exact List.forall_mem_cons.2 ⟨hletter he, List.forall_mem_cons.2 ⟨hsign hs, hdigits hall⟩⟩

end Literal

/-- A number is one token, if it ends before what follows it. -/
theorem Lexeme.ofNumber_append_rest {cs rest : List Char} (h : IsNumeral cs)
    (hrest : ∀ c ∈ rest.head?, Literal.endsBefore cs c = true) :
    startsNumber (cs ++ rest) = true ∧
      ∀ o, ofNumber o (cs ++ rest) = ⟨.number, cs.length, cs, []⟩ := by
  cases h with
  | @hex x ds hx hne hall =>
    have hhex : Literal.startsHex ('0' :: x :: ds ++ rest) = true := by
      rcases hx with rfl | rfl <;> rfl
    have hdigits : (ds ++ rest).takeWhile Literal.isHexDigit = ds := by
      rw [Literal.takeWhile_append_of_head fun c hc => (Literal.of_endsBefore (hrest c hc)).2.1,
        List.takeWhile_eq_self_iff]
      exact List.all_eq_true.1 hall
    have hcount : Literal.hexLength ('0' :: x :: ds ++ rest) = ds.length := by
      simp [Literal.hexLength, hdigits]
    have hlength : 2 + ds.length = ('0' :: x :: ds).length := by
      simp only [List.length_cons]
      omega
    refine ⟨rfl, fun o => ?_⟩
    rw [ofNumber, if_pos hhex]
    simp only [hcount, hlength, List.take_left, List.length_eq_zero_iff, if_neg hne]
  | decimal whole fraction exponent hwhole hfraction hexponent hstart =>
    have hne : whole ++ fraction ++ exponent ≠ [] := by
      intro hnil
      rw [hnil] at hstart
      cases hstart
    have hnext : ∀ c ∈ rest.head?, Literal.marksHex c = false := by
      intro c hc
      have hletters := (Literal.of_endsBefore (hrest c hc)).2.2.1
      simp_all [Literal.marksHex]
    have hhex := Literal.startsHex_eq_false hne
      (Literal.marksHex_of_mem hwhole hfraction hexponent) hnext
    have hlength := Literal.decimalLength_append_rest hwhole hfraction hexponent hrest
    refine ⟨startsNumber_append_rest hstart rest, fun o => ?_⟩
    rw [ofNumber, hhex, if_neg Bool.false_ne_true]
    simp only [hlength, List.take_left]

theorem isGap_of_isDigit {c : Char} (h : c.isDigit = true) : isGap c = false := by
  have hall : ∀ n < 58, 48 ≤ n → isGap (Char.ofNat n) = false := by decide
  simp only [Char.isDigit, ge_iff_le, UInt32.le_iff_toNat_le, Bool.and_eq_true,
    decide_eq_true_eq] at h
  have hlow : 48 ≤ c.toNat := h.1
  have hhigh : c.toNat ≤ 57 := h.2
  rw [← Char.ofNat_toNat c]
  exact hall c.toNat (by omega) hlow

theorem Lexeme.startsNumber_head {c : Char} {cs : List Char} (h : startsNumber (c :: cs) = true) :
    isGap c = false ∧ c ≠ '/' ∧ ¬(c = '"' ∨ c = '\'') := by
  have hfirst : c = '.' ∨ c.isDigit = true := by
    by_cases hpoint : c = '.'
    · exact .inl hpoint
    · exact .inr (by simpa [startsNumber, hpoint, Literal.startsWithDigit] using h)
  rcases hfirst with rfl | hdigit
  · exact ⟨by decide, by decide, by decide⟩
  · refine ⟨isGap_of_isDigit hdigit, ?_, ?_⟩
    · rintro rfl
      cases hdigit
    · rintro (rfl | rfl) <;> cases hdigit

/-- No gap begins where a number does. -/
theorem Gap.read_of_startsNumber {cs : List Char} (h : Lexeme.startsNumber cs = true) (o : Nat) :
    Gap.read o cs = ⟨cs, o, false, none⟩ := by
  cases cs with
  | nil => cases h
  | cons c cs =>
    obtain ⟨hgap, hslash, -⟩ := Lexeme.startsNumber_head h
    exact Gap.read_of_not_isGap hgap (fun heq => absurd heq hslash) o

/-- A number is the first token where it stands, if the text behind it does not go on with it. -/
theorem Lexeme.read_number {cs rest : List Char} (h : IsNumeral cs)
    (hrest : ∀ c ∈ rest.head?, Literal.endsBefore cs c = true) (o : Nat) :
    read o (cs ++ rest) = ⟨.number, cs.length, cs, []⟩ := by
  obtain ⟨hstart, hread⟩ := Lexeme.ofNumber_append_rest h hrest
  rw [← hread o]
  generalize cs ++ rest = ds at hstart
  cases ds with
  | nil => cases hstart
  | cons c ds => rw [read, if_neg (startsNumber_head hstart).2.2, if_pos hstart]

end FunctionNaming
