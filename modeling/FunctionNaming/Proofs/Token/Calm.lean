import FunctionNaming.Proofs.Token.Literal
import Mathlib.Data.List.Find

/-!
Where a text may be cut without changing its tokens. A text is calm when it opens no comment and
closes each string that it opens; the texts that are printed are all calm. Behind a calm text that
does not end in a word a word begins a new token, whatever tokens the text consists of.
-/

namespace FunctionNaming

/-- Whether a slash before `cs` would open a comment. -/
def afterSlash (cs : List Char) : Bool := cs.head? == some '/' || cs.head? == some '*'

/-- That a text opens no comment, and closes every string that it opens. -/
inductive Calm : List Char → Prop
  | nil : Calm []
  | char {c : Char} {cs : List Char} : isQuote c = false → (c = '/' → afterSlash cs = false) →
      Calm cs → Calm (c :: cs)
  | string {q : Char} {cs : List Char} (value : List Char) : isQuote q = true → Calm cs →
      Calm (Text.quoted q value ++ cs)

namespace Calm

variable {cs ds : List Char}

theorem of_plain (h : ∀ c ∈ cs, isQuote c = false ∧ c ≠ '/') : Calm cs := by
  induction cs with
  | nil => exact .nil
  | cons c cs ih =>
    obtain ⟨⟨hquote, hslash⟩, hcs⟩ := List.forall_mem_cons.1 h
    exact .char hquote (fun heq => absurd heq hslash) (ih hcs)

theorem of_all (h : cs.all (fun c => !isQuote c && c != '/') = true) : Calm cs :=
  of_plain fun c hc => by simpa using List.all_eq_true.1 h c hc

theorem append (hcs : Calm cs) (hds : Calm ds)
    (h : cs.getLast? = some '/' → afterSlash ds = false) : Calm (cs ++ ds) := by
  induction hcs with
  | nil => exact hds
  | @char c cs hquote hslash _ ih =>
    rw [List.cons_append]
    cases cs with
    | nil => exact .char hquote (fun heq => h (by simp [heq])) hds
    | cons d cs => exact .char hquote (fun heq => hslash heq) (ih fun hlast => h (by simpa using hlast))
  | @string q cs value hquote _ ih =>
    rw [List.append_assoc]
    refine .string value hquote (ih fun hlast => h ?_)
    rw [List.getLast?_append, hlast]
    rfl

/-- What follows a character that opens no string. -/
theorem tail {c : Char} (h : Calm (c :: cs)) (hc : isQuote c = false) :
    (c = '/' → afterSlash cs = false) ∧ Calm cs := by
  generalize hds : c :: cs = ds at h
  cases h with
  | nil => cases hds
  | char _ hslash hcs =>
    cases hds
    exact ⟨hslash, hcs⟩
  | @string q rest value hquote _ =>
    rw [Text.quoted, List.cons_append, List.cons_append, List.cons.injEq] at hds
    rw [hds.1, hquote] at hc
    cases hc

/-- A quote opens a string that ends before the rest of the text. -/
theorem exists_string {q : Char} (h : Calm (q :: cs)) (hq : isQuote q = true) :
    ∃ value rest, q :: cs = Text.quoted q value ++ rest ∧ Calm rest := by
  generalize hds : q :: cs = ds at h
  cases h with
  | nil => cases hds
  | char hquote =>
    cases hds
    rw [hq] at hquote
    cases hquote
  | @string q' rest value _ hrest =>
    obtain rfl : q = q' := by
      rw [Text.quoted, List.cons_append, List.cons_append, List.cons.injEq] at hds
      exact hds.1
    exact ⟨value, rest, rfl, hrest⟩

theorem of_append (h : Calm (cs ++ ds)) (hcs : ∀ c ∈ cs, isQuote c = false) : Calm ds := by
  induction cs with
  | nil => exact h
  | cons c cs ih =>
    obtain ⟨hquote, hcs'⟩ := List.forall_mem_cons.1 hcs
    exact ih (h.tail hquote).2 hcs'

/-- A space at the end belongs to no string. -/
theorem of_append_space (h : Calm (cs ++ [' '])) : Calm cs := by
  generalize hds : cs ++ [' '] = ds at h
  induction h generalizing cs with
  | nil => simp at hds
  | @char c ds hquote hslash _ ih =>
    cases cs with
    | nil => exact .nil
    | cons d cs =>
      rw [List.cons_append, List.cons.injEq] at hds
      obtain ⟨rfl, rfl⟩ := hds
      refine .char hquote (fun heq => ?_) (ih rfl)
      cases cs with
      | nil => rfl
      | cons _ _ => exact hslash heq
  | @string q ds value hquote _ ih =>
    rcases List.eq_nil_or_concat ds with rfl | ⟨ds, d, rfl⟩
    · have hlast : (cs ++ [' ']).getLast? = (Text.quoted q value ++ []).getLast? := by rw [hds]
      simp only [Text.quoted, List.append_nil, List.getLast?_append, List.getLast?_singleton,
        Option.some_or, Option.some.injEq] at hlast
      subst hlast
      cases hquote
    · rw [List.concat_eq_append, ← List.append_assoc] at hds
      obtain ⟨rfl, hd⟩ := List.append_inj' hds rfl
      refine .string value hquote (ih ?_)
      rw [hd, List.concat_eq_append]

end Calm

/-! ### Single tokens -/

/-- Whether `c` separates tokens and means nothing else. -/
def isGap (c : Char) : Bool := isLineBreak c || isSpace c

theorem Gap.rest_read_of_isGap {c : Char} (hc : isGap c = true) (cs : List Char) :
    (Gap.read 0 (c :: cs)).rest = (Gap.read 0 cs).rest := by
  have hslash : c ≠ '/' := by
    rintro rfl
    revert hc
    decide
  have hread : (Gap.read 0 (c :: cs)).rest =
      (Gap.readFrom 0 false .outside (c :: cs)).rest := rfl
  rw [hread, Gap.readFrom]
  · split
    · exact Gap.rest_readFrom .outside cs
    · next hbreak =>
      have hspace : isSpace c = true := by simpa [isGap, hbreak] using hc
      rw [if_pos hspace]
      exact Gap.rest_readFrom .outside cs
  · rintro ds rfl
    exact absurd rfl hslash
  · rintro ds rfl
    exact absurd rfl hslash

theorem Gap.read_of_not_isGap {c : Char} {cs : List Char} (hc : isGap c = false)
    (hslash : c = '/' → afterSlash cs = false) (o : Nat) :
    Gap.read o (c :: cs) = ⟨c :: cs, o, false, none⟩ := by
  obtain ⟨hbreak, hspace⟩ := Bool.or_eq_false_iff.1 hc
  rw [Gap.read, Gap.readFrom, if_neg (by simp [hbreak]), if_neg (by simp [hspace])]
  · rintro ds rfl rfl
    exact absurd (hslash rfl) (by simp [afterSlash])
  · rintro ds rfl rfl
    exact absurd (hslash rfl) (by simp [afterSlash])

theorem Gap.rest_read_of_not_isGap {c : Char} {cs : List Char} (hc : isGap c = false)
    (hslash : c = '/' → afterSlash cs = false) : (Gap.read 0 (c :: cs)).rest = c :: cs := by
  rw [Gap.read_of_not_isGap hc hslash]

theorem readings_of_isGap {c : Char} (hc : isGap c = true) (cs : List Char) :
    readings (c :: cs) = readings cs := by
  rw [readings_eq, readings_eq cs]
  simp only [Gap.rest_read_of_isGap hc]

/-- A text that begins with no gap begins with a token. -/
theorem readings_cons {c : Char} {cs : List Char} (hc : isGap c = false)
    (hslash : c = '/' → afterSlash cs = false) :
    readings (c :: cs) =
      ((Lexeme.read 0 (c :: cs)).kind, String.ofList (Lexeme.read 0 (c :: cs)).value) ::
        readings ((c :: cs).drop (Lexeme.read 0 (c :: cs)).length) := by
  rw [readings_eq]
  simp only [Gap.rest_read_of_not_isGap hc hslash]
  rw [if_neg (Lexeme.read_cons 0 c cs).1]

theorem readings_ne_nil (cs : List Char) : readings cs ≠ [] := by
  rw [readings_eq]
  exact List.cons_ne_nil _ _

/-! ### Words -/

theorem Text.CharSet.not_contains_of_disjoint {s t : CharSet} {c : Char}
    (h : (s.ranges.all fun r => t.ranges.all fun u => r.2 < u.1 || u.2 < r.1) = true)
    (hs : s.contains c = true) : t.contains c = false := by
  rw [Bool.eq_false_iff]
  intro ht
  obtain ⟨r, hr, hlow, hhigh⟩ := contains_iff.1 hs
  obtain ⟨u, hu, hlow', hhigh'⟩ := contains_iff.1 ht
  have hdisjoint : r.2 < u.1 ∨ u.2 < r.1 := by
    simpa using List.all_eq_true.1 (List.all_eq_true.1 h r hr) u hu
  omega

theorem isDigit_of_isWordStart {c : Char} (h : isWordStart c = true) : c.isDigit = false := by
  rw [Bool.eq_false_iff]
  intro hdigit
  simp only [Char.isDigit, ge_iff_le, UInt32.le_iff_toNat_le, Bool.and_eq_true,
    decide_eq_true_eq] at hdigit
  simp only [isWordStart, Bool.or_eq_true, Bool.and_eq_true, beq_iff_eq] at h
  rcases h with ((h | rfl) | rfl) | ⟨h, -⟩
  · have hhigh : c.toNat ≤ 57 := hdigit.2
    rcases Literal.isAlpha_iff.1 h with h | h <;> omega
  · revert hdigit
    decide
  · revert hdigit
    decide
  · simp [isForeign] at h hdigit
    omega

theorem isGap_of_isWordStart {c : Char} (h : isWordStart c = true) : isGap c = false := by
  rw [Bool.eq_false_iff]
  intro hgap
  have hplain : ['\n', '\r', '\u2028', '\u2029', ' ', '\t', '\u000b', '\u000c', '\u00a0',
      '\ufeff'].all (fun d => !isWordStart d) = true := by
    decide +kernel
  by_cases hmem : c ∈ ['\n', '\r', '\u2028', '\u2029', ' ', '\t', '\u000b', '\u000c', '\u00a0',
      '\ufeff']
  · have hnot := List.all_eq_true.1 hplain c hmem
    rw [h] at hnot
    cases hnot
  · simp only [List.mem_cons, List.not_mem_nil, not_or] at hmem
    have hblank : isForeign c = true ∧ Text.isBlank c = true := by
      simp [isGap, isLineBreak, isSpace, hmem] at hgap
      exact hgap
    -- Outside ASCII a word begins with a letter, and no letter is white space.
    have hforeign : Text.isAlphabetic c = true := by
      simp only [isWordStart, Bool.or_eq_true, Bool.and_eq_true, beq_iff_eq] at h
      rcases h with ((h | rfl) | rfl) | ⟨-, h⟩
      · exact Text.isAlphabetic_of_isAlpha h
      · cases hblank.1
      · cases hblank.1
      · exact h
    have hdisjoint : (Text.alphabetic.ranges.all fun r => Text.whiteSpace.ranges.all fun u =>
        r.2 < u.1 || u.2 < r.1) = true := by decide +kernel
    have hnot : Text.whiteSpace.contains c = false :=
      Text.CharSet.not_contains_of_disjoint hdisjoint hforeign
    rw [Text.isBlank, hnot] at hblank
    cases hblank.2

/-- The token that a word is. -/
def wordReading (word : List Char) : TokenKind × String :=
  ((TokenKind.keyword? (String.ofList word)).getD .identifier, String.ofList word)

theorem takeWhile_word {word rest : List Char} (hword : isWord word = true)
    (hrest : ∀ c ∈ rest.head?, isWordPart c = false) :
    (word ++ rest).takeWhile isWordPart = word := by
  rw [Literal.takeWhile_append_of_head hrest]
  cases word with
  | nil => rfl
  | cons c cs =>
    obtain ⟨hstart, hparts⟩ : isWordStart c = true ∧ cs.all isWordPart = true := by
      simpa [isWord] using hword
    rw [List.takeWhile_eq_self_iff]
    exact List.forall_mem_cons.2 ⟨isWordPart_of_isWordStart hstart, List.all_eq_true.1 hparts⟩

theorem Lexeme.read_of_isWordStart {c : Char} (hc : isWordStart c = true) (o : Nat)
    (cs : List Char) : read o (c :: cs) = ofWord (c :: cs) := by
  have hquote : ¬(c = '"' ∨ c = '\'') := by
    rw [← isQuote_iff, isQuote_of_isWordPart (isWordPart_of_isWordStart hc)]
    exact Bool.false_ne_true
  have hpoint : c ≠ '.' := by
    rintro rfl
    revert hc
    decide
  have hnumber : startsNumber (c :: cs) = false := by
    simp [startsNumber, hpoint, Literal.startsWithDigit, isDigit_of_isWordStart hc]
  rw [read, if_neg hquote, if_neg (by simp [hnumber]), if_pos hc]

/-- A word is the first token where it stands, if the text behind it does not go on with the word. -/
theorem Lexeme.read_word {word rest : List Char} (hword : isWord word = true)
    (hrest : ∀ c ∈ rest.head?, isWordPart c = false) (o : Nat) :
    read o (word ++ rest) = ⟨(wordReading word).1, word.length, word, []⟩ := by
  have htake := takeWhile_word hword hrest
  match word with
  | [] => cases hword
  | c :: cs =>
    rw [List.cons_append] at htake ⊢
    rw [Lexeme.read_of_isWordStart (Bool.and_eq_true_iff.1 hword).1]
    simp only [ofWord, htake]
    rfl

theorem Gap.read_word {word : List Char} (hword : isWord word = true) (rest : List Char) (o : Nat) :
    Gap.read o (word ++ rest) = ⟨word ++ rest, o, false, none⟩ := by
  match word with
  | [] => cases hword
  | c :: cs =>
    have hstart : isWordStart c = true := (Bool.and_eq_true_iff.1 hword).1
    have hslash : c ≠ '/' := by
      rintro rfl
      revert hstart
      decide
    exact Gap.read_of_not_isGap (isGap_of_isWordStart hstart) (fun heq => absurd heq hslash) o

/-- A word is one token, if the text behind it does not go on with the word. -/
theorem readings_word {word rest : List Char} (hword : isWord word = true)
    (hrest : ∀ c ∈ rest.head?, isWordPart c = false) :
    readings (word ++ rest) = wordReading word :: readings rest := by
  rw [readings_eq]
  simp only [Gap.read_word hword, Lexeme.read_word hword hrest, List.drop_left]
  rw [wordReading, if_neg (Lexeme.keyword?_ne_endOfFile _)]

/-- The words of functions. -/
theorem readings_function {rest : List Char} (hrest : ∀ c ∈ rest.head?, isWordPart c = false) :
    readings ("function".toList ++ rest) = (.functionKeyword, "function") :: readings rest :=
  readings_word (by decide) hrest

theorem mark?_star {rest : List Char} (hrest : rest.head? ≠ some '=') :
    TokenKind.mark? ('*' :: rest) = some .star := by
  cases rest with
  | nil => rfl
  | cons c rest =>
    have hc : ('=' == c) = false := by
      rw [beq_eq_false_iff_ne]
      rintro rfl
      exact hrest rfl
    simp [TokenKind.mark?, TokenKind.marks, TokenKind.spelling, List.find?, List.isPrefixOf, hc]

/-- The mark of a generator is a token, if no sign of assignment follows. -/
theorem readings_star {rest : List Char} (hrest : rest.head? ≠ some '=') :
    readings ('*' :: rest) = (.star, "") :: readings rest := by
  have hread : Lexeme.read 0 ('*' :: rest) = ⟨.star, 1, [], []⟩ := by
    have hnumber : Lexeme.startsNumber ('*' :: rest) = false := rfl
    rw [Lexeme.read, if_neg (by decide), if_neg (by simp [hnumber]), if_neg (by decide),
      mark?_star hrest]
    rfl
  rw [readings_cons (by decide) (fun h => by cases h), hread]
  rfl

/-! ### Cuts -/

theorem isPrefixOf_append {m u x : List Char} (hm : 'f' ∉ m) (hx : x.head? = some 'f') :
    m.isPrefixOf (u ++ x) = m.isPrefixOf u := by
  induction m generalizing u with
  | nil => simp
  | cons c m ih =>
    rw [List.mem_cons, not_or] at hm
    cases u with
    | nil =>
      obtain ⟨rest, rfl⟩ := List.head?_eq_some_iff.1 hx
      have hc : (c == 'f') = false := beq_eq_false_iff_ne.2 (Ne.symm hm.1)
      simp [List.isPrefixOf, hc]
    | cons d u => simp [List.isPrefixOf, ih hm.2]

theorem mark?_append {u x : List Char} (hx : x.head? = some 'f') :
    TokenKind.mark? (u ++ x) = TokenKind.mark? u := by
  have hmarks : ∀ k ∈ TokenKind.marks, 'f' ∉ k.spelling.toList := by decide
  have hstarts : ∀ k ∈ TokenKind.marks,
      k.spelling.toList.isPrefixOf (u ++ x) = k.spelling.toList.isPrefixOf u :=
    fun k hk => isPrefixOf_append (hmarks k hk) hx
  exact List.find?_congr hstarts

/-- That the token with which `cs` begins is the same when `ds` follows. -/
structure Lexeme.SameBefore (cs ds : List Char) : Prop where
  kind : (read 0 (cs ++ ds)).kind = (read 0 cs).kind
  value : (read 0 (cs ++ ds)).value = (read 0 cs).value
  length : (read 0 (cs ++ ds)).length = (read 0 cs).length
  length_le : (read 0 cs).length ≤ cs.length

/-- A token that is no string has no quotes in it, and goes on in the same way whether or not a word
follows a text that ends in no word. -/
theorem Lexeme.sameBefore_of_not_isQuote {c : Char} {cs ds : List Char} (hquote : isQuote c = false)
    (hlast : endsInWord (c :: cs) = false) (hds : ds.head? = some 'f') :
    SameBefore (c :: cs) ds ∧
      ∀ d ∈ (c :: cs).take (read 0 (c :: cs)).length, isQuote d = false := by
  have hstring : ¬(c = '"' ∨ c = '\'') := by
    rw [← isQuote_iff, hquote]
    exact Bool.false_ne_true
  have hnumbers : startsNumber (c :: cs ++ ds) = startsNumber (c :: cs) :=
    startsNumber_append (Literal.isDigit_of_head (by decide) hds)
  cases hnumber : startsNumber (c :: cs) with
  | true =>
    have hnumber' := hnumbers.trans hnumber
    obtain ⟨hsame, hle⟩ := ofNumber_append (by decide) hds (List.cons_ne_nil c cs) 0 fun hhex =>
      Literal.hexLength_append ds hhex hlast
    have hread : read 0 (c :: cs) = ofNumber 0 (c :: cs) := by
      rw [read, if_neg hstring, if_pos hnumber]
    have hread' : read 0 (c :: cs ++ ds) = ofNumber 0 (c :: cs) := by
      rw [← hsame, List.cons_append, read, if_neg hstring, ← List.cons_append, if_pos hnumber']
    refine ⟨⟨?_, ?_, ?_, ?_⟩, fun d hd => ?_⟩
    · rw [hread', hread]
    · rw [hread', hread]
    · rw [hread', hread]
    · rw [hread]
      exact hle
    · rw [hread] at hd
      exact isQuote_of_isNumeralPart (isNumeralPart_of_mem_number hd)
  | false =>
    have hnumber' := hnumbers.trans hnumber
    cases hstart : isWordStart c with
    | true =>
      have htake : (c :: cs ++ ds).takeWhile isWordPart = (c :: cs).takeWhile isWordPart :=
        Literal.takeWhile_append_of_last (exists_mem_of_endsInWord (List.cons_ne_nil c cs) hlast)
      have hread : read 0 (c :: cs) = ofWord (c :: cs) := read_of_isWordStart hstart 0 cs
      have hread' : read 0 (c :: cs ++ ds) = ofWord (c :: cs) := by
        rw [List.cons_append, read_of_isWordStart hstart, ← List.cons_append, ofWord, htake, ofWord]
      refine ⟨⟨?_, ?_, ?_, ?_⟩, fun d hd => ?_⟩
      · rw [hread', hread]
      · rw [hread', hread]
      · rw [hread', hread]
      · rw [hread]
        exact (List.takeWhile_prefix _).length_le
      · rw [hread] at hd
        have hmem : d ∈ (c :: cs).takeWhile isWordPart := by
          rw [List.prefix_iff_eq_take.1 (List.takeWhile_prefix isWordPart)]
          exact hd
        exact isQuote_of_isWordPart (List.mem_takeWhile_imp hmem)
    | false =>
      have hmark' : TokenKind.mark? (c :: (cs ++ ds)) = TokenKind.mark? (c :: cs) := by
        rw [← List.cons_append, mark?_append hds]
      have hread : ∀ rest, startsNumber (c :: rest) = false → read 0 (c :: rest) =
          (TokenKind.mark? (c :: rest)).elim (ofUnknown 0 c)
            fun kind => ⟨kind, kind.spelling.length, [], []⟩ := fun rest hrest => by
        rw [read, if_neg hstring, if_neg (by simp [hrest]), if_neg (by simp [hstart])]
        cases TokenKind.mark? (c :: rest) <;> rfl
      have hsame : read 0 (c :: cs ++ ds) = read 0 (c :: cs) := by
        rw [List.cons_append, hread (cs ++ ds) hnumber', hmark', hread cs hnumber]
      have htake : (read 0 (c :: cs)).length ≤ (c :: cs).length ∧
          ∀ d ∈ (c :: cs).take (read 0 (c :: cs)).length, isQuote d = false := by
        rw [hread _ hnumber]
        cases hmark : TokenKind.mark? (c :: cs) with
        | none =>
          refine ⟨Nat.succ_le_succ (Nat.zero_le _), fun d hd => ?_⟩
          obtain rfl : d = c := by simpa [ofUnknown] using hd
          exact hquote
        | some k =>
          have hstarts : k.spelling.toList <+: c :: cs := by
            have hfound : k.spelling.toList.isPrefixOf (c :: cs) = true := by
              simpa using List.find?_some hmark
            exact List.isPrefixOf_iff_prefix.1 hfound
          have hmarks : ∀ k ∈ TokenKind.marks, k.spelling.toList.all (fun d => !isQuote d) := by
            decide
          have hplain : ∀ d ∈ k.spelling.toList, isQuote d = false := fun d hd => by
            simpa using List.all_eq_true.1 (hmarks k (List.mem_of_find?_eq_some hmark)) d hd
          have hlength : k.spelling.length = k.spelling.toList.length := rfl
          refine ⟨hstarts.length_le, fun d hd => hplain d ?_⟩
          rw [List.prefix_iff_eq_take.1 hstarts]
          exact hd
      refine ⟨⟨?_, ?_, ?_, htake.1⟩, htake.2⟩
      · rw [hsame]
      · rw [hsame]
      · rw [hsame]

/-- A token in a calm text that ends in no word goes on in the same way whether or not a word follows
the text, and what is left of the text is calm. -/
theorem Lexeme.sameBefore {c : Char} {cs ds : List Char} (hcalm : Calm (c :: cs))
    (hlast : endsInWord (c :: cs) = false) (hds : ds.head? = some 'f') :
    SameBefore (c :: cs) ds ∧ Calm ((c :: cs).drop (read 0 (c :: cs)).length) := by
  cases hquote : isQuote c with
  | true =>
    have hstring : ∀ rest, read 0 (c :: rest) = ofString 0 c (c :: rest) := fun rest => by
      rw [read, if_pos (isQuote_iff.1 hquote)]
    obtain ⟨value, rest, heq, hrest⟩ := hcalm.exists_string hquote
    obtain ⟨hlength, hvalue⟩ := ofString_quoted hquote 0 value rest
    obtain ⟨hlength', hvalue'⟩ := ofString_quoted hquote 0 value (rest ++ ds)
    rw [← heq] at hlength hvalue
    rw [← List.append_assoc, ← heq] at hlength' hvalue'
    refine ⟨⟨?_, ?_, ?_, ?_⟩, ?_⟩
    · rw [List.cons_append, hstring, hstring]
      rfl
    · rw [List.cons_append, hstring, hstring, ← List.cons_append, hvalue, hvalue']
    · rw [List.cons_append, hstring, hstring, ← List.cons_append, hlength, hlength']
    · rw [hstring, hlength, heq, List.length_append]
      exact Nat.le_add_right _ _
    · rw [hstring, hlength, heq, List.drop_left]
      exact hrest
  | false =>
    obtain ⟨hsame, hplain⟩ := sameBefore_of_not_isQuote hquote hlast hds
    refine ⟨hsame, Calm.of_append ?_ hplain⟩
    rw [List.take_append_drop]
    exact hcalm

/-- Behind a calm text that ends in no word, the word of a function begins a new token. -/
theorem readings_append {u x : List Char} (hu : Calm u) (hlast : endsInWord u = false)
    (hx : x.head? = some 'f') : readings (u ++ x) = (readings u).dropLast ++ readings x := by
  induction hn : u.length using Nat.strongRecOn generalizing u with
  | ind n ih =>
    match u with
    | [] => rfl
    | c :: cs =>
      cases hgap : isGap c with
      | true =>
        have hquote : isQuote c = false := by
          rw [Bool.eq_false_iff, ne_eq, isQuote_iff]
          rintro (rfl | rfl) <;> revert hgap <;> decide
        have hcs : endsInWord cs = false := by
          cases cs with
          | nil => rfl
          | cons d ds => simpa [endsInWord] using hlast
        rw [List.cons_append, readings_of_isGap hgap, readings_of_isGap hgap]
        exact ih cs.length (by simp [← hn]) (hu.tail hquote).2 hcs rfl
      | false =>
        obtain ⟨hsame, hrest⟩ := Lexeme.sameBefore hu hlast hx
        have hpos := (Lexeme.read_cons 0 c cs).2
        have hdrop : (c :: cs ++ x).drop (Lexeme.read 0 (c :: cs)).length =
            (c :: cs).drop (Lexeme.read 0 (c :: cs)).length ++ x :=
          List.drop_append_of_le_length hsame.length_le
        have hrestlast : endsInWord ((c :: cs).drop (Lexeme.read 0 (c :: cs)).length) = false := by
          rw [endsInWord, List.getLast?_drop]
          split
          · rfl
          · exact hlast
        have hlt : ((c :: cs).drop (Lexeme.read 0 (c :: cs)).length).length < n := by
          rw [List.length_drop, hn, ← hn, List.length_cons]
          omega
        have hslash : c = '/' → afterSlash (cs ++ x) = false ∧ afterSlash cs = false := by
          rintro rfl
          have hcs := (hu.tail rfl).1 rfl
          cases cs with
          | nil => exact ⟨by simp [afterSlash, hx], hcs⟩
          | cons d cs => exact ⟨hcs, hcs⟩
        rw [List.cons_append, readings_cons hgap fun heq => (hslash heq).1,
          readings_cons hgap fun heq => (hslash heq).2, ← List.cons_append, hsame.kind, hsame.value,
          hsame.length, hdrop, ih _ hlt hrest hrestlast rfl,
          List.dropLast_cons_of_ne_nil (readings_ne_nil _), List.cons_append]

end FunctionNaming
