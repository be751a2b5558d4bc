import FunctionNaming.Proofs.Token.Takes

/-!
Pieces of text that keep their tokens when a certain character follows. A word keeps them before
what is not part of a word, a string before anything, a mark before what makes no longer mark of it,
and a number before what no number goes on with.
-/

namespace FunctionNaming

open Literal (IsNumeral)
open Scanner

/-! ### Pieces -/

/-- That a piece keeps its tokens at the end of a text, and when the character `c` follows. -/
def Splits (piece : List Char) (c : Char) : Prop :=
  ∀ rest : List Char, (∀ d ∈ rest.head?, d = c) → Takes (piece ++ rest) (looks piece) rest

theorem splits_of_takes {piece : List Char} {c : Char} (ls : List Look)
    (h : ∀ rest : List Char, (∀ d ∈ rest.head?, d = c) → Takes (piece ++ rest) ls rest) :
    Splits piece c := by
  have hend := h [] nofun
  rw [List.append_nil] at hend
  rw [Splits, hend.looks_eq]
  exact h

theorem Splits.append {first second : List Char} {b c : Char} (hfirst : Splits first b)
    (hsecond : Splits (b :: second) c) : Splits (first ++ b :: second) c := by
  refine splits_of_takes (looks first ++ looks (b :: second)) fun rest hrest => ?_
  rw [List.append_assoc]
  refine (hfirst _ ?_).trans (hsecond rest hrest)
  rintro d ⟨rfl⟩
  rfl

/-- A space splits off what is before it from what follows it. -/
theorem Splits.append_space {first second : List Char} {c : Char} (hfirst : Splits first ' ')
    (hsecond : Splits second c) : Splits (first ++ ' ' :: second) c := by
  refine splits_of_takes (looks first ++ looks second) fun rest hrest => ?_
  rw [List.append_assoc]
  refine (hfirst _ ?_).trans ((takes_space _).trans (hsecond rest hrest))
  rintro d ⟨rfl⟩
  rfl

/-! ### Words, strings and numbers -/

theorem splits_word {word : List Char} {c : Char} (hword : isWord word = true)
    (hc : isWordPart c = false) : Splits word c :=
  splits_of_takes _ fun _ hrest => takes_word hword fun d hd => hrest d hd ▸ hc

theorem splits_quoted {q : Char} (hq : isQuote q = true) (value : List Char) (c : Char) :
    Splits (Text.quoted q value) c := by
  rw [← String.toList_ofList (l := value)]
  exact splits_of_takes _ fun rest _ => takes_quoted hq (String.ofList value) rest

theorem splits_number {cs : List Char} {c : Char} (h : IsNumeral cs)
    (hc : Literal.endsBefore cs c = true) : Splits cs c :=
  splits_of_takes _ fun _ hrest => takes_number h fun d hd => hrest d hd ▸ hc

/-! ### Marks -/

namespace TokenKind

/-- The characters that make a longer mark of a mark. -/
def extensions (k : TokenKind) : List Char :=
  marks.filterMap fun longer =>
    if k.spelling.toList.isPrefixOf longer.spelling.toList then
      longer.spelling.toList[k.spelling.toList.length]?
    else none

theorem isPrefixOf_append_rest {m s rest : List Char}
    (h : ∀ c ∈ rest.head?, s.isPrefixOf m = true → m[s.length]? ≠ some c) :
    m.isPrefixOf (s ++ rest) = m.isPrefixOf s := by
  induction m generalizing s with
  | nil => cases s <;> simp
  | cons c m ih =>
    cases s with
    | nil =>
      cases rest with
      | nil => rfl
      | cons d rest =>
        have hne : c ≠ d := fun heq => h d rfl (by simp) (by simp [heq])
        simp [List.isPrefixOf, hne]
    | cons d s =>
      by_cases hcd : c = d
      · subst hcd
        have htail := ih (s := s) fun e he hprefix => by simpa using h e he (by simpa using hprefix)
        simpa [List.isPrefixOf] using htail
      · have hne : (c == d) = false := beq_eq_false_iff_ne.2 hcd
        simp [List.isPrefixOf, hne]

/-- A mark is read where its spelling stands, if what follows makes no longer mark of it. -/
theorem mark?_spelling {k : TokenKind} (hk : k ∈ marks) {rest : List Char}
    (hrest : ∀ c ∈ rest.head?, c ∉ k.extensions) : mark? (k.spelling.toList ++ rest) = some k := by
  have hself : ∀ k ∈ marks, mark? k.spelling.toList = some k := by decide
  rw [← hself k hk]
  refine List.find?_congr fun m hm => isPrefixOf_append_rest fun c hc hprefix hnext => ?_
  refine hrest c hc (List.mem_filterMap.2 ⟨m, hm, ?_⟩)
  rw [if_pos hprefix, hnext]

end TokenKind

/-- No mark begins with a character that could begin another token, but for the point, which begins
numbers, and the slash, which begins comments. -/
theorem mark_head {k : TokenKind} (hk : k ∈ TokenKind.marks) {c : Char} {cs : List Char}
    (h : k.spelling.toList = c :: cs) :
    isGap c = false ∧ isQuote c = false ∧ isWordStart c = false ∧ c.isDigit = false ∧
      (c = '.' → k = .dot ∧ cs = [] ∨ cs.head? = some '.') ∧
      (c = '/' → k = .slash ∧ cs = [] ∨ cs.head? = some '=') := by
  have hall : ∀ k ∈ TokenKind.marks, k.spelling.toList.head?.all (fun c => decide
      (isGap c = false ∧ isQuote c = false ∧ isWordStart c = false ∧ c.isDigit = false ∧
        (c = '.' → k = .dot ∧ k.spelling.toList.tail = [] ∨
          k.spelling.toList.tail.head? = some '.') ∧
        (c = '/' → k = .slash ∧ k.spelling.toList.tail = [] ∨
          k.spelling.toList.tail.head? = some '='))) = true := by
    decide
  simpa [h, imp_iff_not_or] using hall k hk

/-- A mark is the first token where its spelling stands, if what follows makes neither a longer mark
nor a number of it. -/
theorem Lexeme.read_mark {k : TokenKind} (hk : k ∈ TokenKind.marks) {rest : List Char}
    (hrest : ∀ c ∈ rest.head?, c ∉ k.extensions)
    (hpoint : k = .dot → Literal.startsWithDigit rest = false) (o : Nat) :
    read o (k.spelling.toList ++ rest) = ⟨k, k.spelling.toList.length, [], []⟩ := by
  have hmark := TokenKind.mark?_spelling hk hrest
  have hlength : k.spelling.length = k.spelling.toList.length := rfl
  have hne : ∀ k ∈ TokenKind.marks, k.spelling.toList ≠ [] := by decide
  obtain ⟨c, cs, hspelling⟩ := List.exists_cons_of_ne_nil (hne k hk)
  obtain ⟨-, hquote, hstart, hdigit, hdots, -⟩ := mark_head hk hspelling
  have hnumber : startsNumber (c :: (cs ++ rest)) = false := by
    by_cases hc : c = '.'
    · subst hc
      rcases hdots rfl with ⟨hdot, rfl⟩ | hnext
      · exact hpoint hdot
      · obtain ⟨ds, rfl⟩ := List.head?_eq_some_iff.1 hnext
        rfl
    · simp [startsNumber, hc, Literal.startsWithDigit, hdigit]
  rw [hspelling, List.cons_append] at hmark
  rw [hspelling, List.cons_append, read,
    if_neg (by rw [← isQuote_iff, hquote]; exact Bool.false_ne_true),
    if_neg (by rw [hnumber]; exact Bool.false_ne_true),
    if_neg (by rw [hstart]; exact Bool.false_ne_true), hmark]
  simp only [hlength, hspelling]

/-- No gap begins where a mark stands, unless a comment does. -/
theorem Gap.read_mark {k : TokenKind} (hk : k ∈ TokenKind.marks) {rest : List Char}
    (hslash : k = .slash → afterSlash rest = false) (o : Nat) :
    Gap.read o (k.spelling.toList ++ rest) = ⟨k.spelling.toList ++ rest, o, false, none⟩ := by
  have hne : ∀ k ∈ TokenKind.marks, k.spelling.toList ≠ [] := by decide
  obtain ⟨c, cs, hspelling⟩ := List.exists_cons_of_ne_nil (hne k hk)
  obtain ⟨hgap, -, -, -, -, hslashes⟩ := mark_head hk hspelling
  rw [hspelling, List.cons_append]
  refine Gap.read_of_not_isGap hgap (fun hc => ?_) o
  rcases hslashes hc with ⟨hdivide, rfl⟩ | hnext
  · exact hslash hdivide
  · obtain ⟨ds, rfl⟩ := List.head?_eq_some_iff.1 hnext
    rfl

theorem Scanner.takes_mark {k : TokenKind} (hk : k ∈ TokenKind.marks) {rest : List Char}
    (hrest : ∀ c ∈ rest.head?, c ∉ k.extensions)
    (hpoint : k = .dot → Literal.startsWithDigit rest = false)
    (hslash : k = .slash → afterSlash rest = false) :
    Takes (k.spelling.toList ++ rest) [.fixed k] rest := by
  have hall : ∀ k ∈ TokenKind.marks, k ≠ .endOfFile ∧ k.isKeyword = false := by decide
  obtain ⟨hend, hkeyword⟩ := hall k hk
  have hlook : Look.fixed k = ⟨k, String.ofList k.spelling.toList, String.ofList []⟩ := by
    rw [Look.fixed, hkeyword, String.ofList_toList]
    rfl
  rw [hlook]
  exact takes_of_read hend (Gap.read_mark hk hslash) (Lexeme.read_mark hk hrest hpoint)

theorem splits_mark {k : TokenKind} {c : Char} (hk : k ∈ TokenKind.marks) (hc : c ∉ k.extensions)
    (hpoint : k = .dot → c.isDigit = false) (hslash : k = .slash → c ≠ '/' ∧ c ≠ '*') :
    Splits k.spelling.toList c := by
  refine splits_of_takes [.fixed k] fun rest hrest => takes_mark hk ?_ (fun hk => ?_) fun hk => ?_
  · exact fun d hd => hrest d hd ▸ hc
  · cases rest with
    | nil => rfl
    | cons d rest => exact hrest d rfl ▸ hpoint hk
  · cases rest with
    | nil => rfl
    | cons d rest =>
      obtain rfl := hrest d rfl
      simp [afterSlash, hslash hk]

end FunctionNaming
