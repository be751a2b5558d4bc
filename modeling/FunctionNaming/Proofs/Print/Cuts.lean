import FunctionNaming.Print.Node
import FunctionNaming.Proofs.Token.Calm

/-!
Output that is cut where the names of functions stand. One script may be printed with different names
for its functions. What is written then falls into pieces: each piece but the last ends with the word
of a function, perhaps with the mark of a generator, a name may follow, and the next piece begins with
a parenthesis. The pieces do not depend on the names, because a writer looks back at the last
character only, and never beyond a parenthesis.
-/

namespace FunctionNaming

/-! ### Pieces -/

/-- That a piece of output ends with the word of a function, which is a token of its own. -/
def EndsInFunction (piece : List Char) : Prop :=
  ∃ before, Calm before ∧ endsInWord before = false ∧
    (piece = before ++ "function".toList ∨ piece = before ++ "function*".toList)

/-- What stands for the name of a function behind a piece. -/
inductive Spaced (piece : List Char) : Option String → List Char → Prop
  | none : Spaced piece none []
  | space (name : String) : isWord name.toList = true →
      Spaced piece (some name) (' ' :: name.toList)
  | star (name : String) : isWord name.toList = true → piece.getLast? = some '*' →
      Spaced piece (some name) name.toList

/-- That a text consists of pieces, each with the name of its function. -/
inductive Filled : List (List Char) → List (Option String) → List Char → Prop
  | nil : Filled [] [] []
  | snoc {pieces : List (List Char)} {names : List (Option String)} {text piece gap : List Char}
      {name : Option String} : Filled pieces names text → Spaced piece name gap →
      Filled (pieces ++ [piece]) (names ++ [name]) (text ++ (piece ++ gap))

namespace Writer

/-- The writer with a text before what it has written. -/
def after (w : Writer) (text : List Char) : Writer :=
  { w with written := w.written ++ text.reverse }

/-- That a writer does not look at the text before it. -/
def StandsAfter (w : Writer) (text : List Char) : Prop :=
  text = [] ∨ w.written.getLast? = some '('

variable {w : Writer} {text : List Char}

theorem StandsAfter.written_ne_nil (h : w.StandsAfter text) (hne : text ≠ []) : w.written ≠ [] := by
  rintro heq
  rcases h with h | h
  · exact hne h
  · rw [heq] at h
    cases h

theorem head?_after (h : w.StandsAfter text) : (w.after text).written.head? = w.written.head? := by
  by_cases hne : text = []
  · simp [after, hne]
  · obtain ⟨c, cs, hwritten⟩ := List.exists_cons_of_ne_nil (h.written_ne_nil hne)
    simp [after, hwritten]

theorem beginLine_after (w : Writer) (text : List Char) :
    (w.after text).beginLine = w.beginLine.after text := by
  cases hline : w.atLineStart <;> cases hcompact : w.compact <;>
    simp [beginLine, after, hline, hcompact]

theorem separate_after (h : w.StandsAfter text) (c : Char) :
    (w.after text).separate c = (w.separate c).after text := by
  by_cases hne : text = []
  · simp [after, hne]
  · obtain ⟨d, ds, hwritten⟩ := List.exists_cons_of_ne_nil (h.written_ne_nil hne)
    simp only [separate, after, hwritten, List.cons_append]
    split <;> simp [hwritten]

theorem space_after (h : w.StandsAfter text) : (w.after text).space = w.space.after text := by
  by_cases hskip : (w.compact || w.atLineStart || w.written.head? == some ' ') = true
  · have hskip' : ((w.after text).compact || (w.after text).atLineStart ||
        (w.after text).written.head? == some ' ') = true := by
      rw [head?_after h]
      exact hskip
    rw [space, if_pos hskip', space, if_pos hskip]
  · have hskip' : ¬((w.after text).compact || (w.after text).atLineStart ||
        (w.after text).written.head? == some ' ') = true := by
      rw [head?_after h]
      exact hskip
    rw [space, if_neg hskip', space, if_neg hskip]
    rfl

/-- A parenthesis stays where spaces are taken away. -/
theorem getLast?_dropWhile {cs : List Char} (h : cs.getLast? = some '(') :
    (cs.dropWhile (· == ' ')).getLast? = some '(' := by
  obtain ⟨ds, rfl⟩ := List.getLast?_eq_some_iff.1 h
  rw [List.dropWhile_append]
  split
  · rfl
  · simp

theorem dropWhile_after {cs ds : List Char} (h : cs.getLast? = some '(') :
    (cs ++ ds).dropWhile (· == ' ') = cs.dropWhile (· == ' ') ++ ds := by
  have hlast := getLast?_dropWhile h
  rw [List.dropWhile_append, if_neg]
  intro hempty
  rw [List.isEmpty_iff.1 hempty] at hlast
  cases hlast

theorem newline_after (h : w.StandsAfter text) : (w.after text).newline = w.newline.after text := by
  have hcompact : (w.after text).compact = w.compact := rfl
  rw [newline, newline, hcompact]
  split
  · rfl
  · rcases h with rfl | h
    · simp [after]
    · simp [after, dropWhile_after h]

theorem write_after (h : w.StandsAfter text) (s : List Char) :
    (w.after text).write s = (w.write s).after text := by
  cases s with
  | nil => rfl
  | cons c s =>
    have hline : w.beginLine.StandsAfter text := by
      rcases h with rfl | h
      · exact .inl rfl
      · right
        rw [beginLine]
        split
        · split
          · exact h
          · rw [List.getLast?_append, h]
            rfl
        · exact h
    simp only [write, beginLine_after, separate_after hline]
    simp [after]

/-- What is put before a piece of text that is written: spaces. -/
theorem exists_written_separate (w : Writer) (c : Char) :
    ∃ k, (w.beginLine.separate c).written = List.replicate k ' ' ++ w.written := by
  have hline : ∃ k, w.beginLine.written = List.replicate k ' ' ++ w.written := by
    rw [beginLine]
    split
    · split
      · exact ⟨0, rfl⟩
      · exact ⟨4 * w.level, rfl⟩
    · exact ⟨0, rfl⟩
  obtain ⟨k, hk⟩ := hline
  rw [separate]
  split
  · split
    · exact ⟨k + 1, by simp [hk, List.replicate_succ]⟩
    · exact ⟨k, hk⟩
  · exact ⟨k, hk⟩

theorem exists_written_write (w : Writer) (c : Char) (s : List Char) :
    ∃ k, (w.write (c :: s)).written = (c :: s).reverse ++ (List.replicate k ' ' ++ w.written) := by
  obtain ⟨k, hk⟩ := w.exists_written_separate c
  exact ⟨k, by simp [write, hk]⟩

/-- In the middle of a line a text is put behind the last character, perhaps after a space. -/
theorem write_of_running {c last : Char} {s rest : List Char} (hline : w.atLineStart = false)
    (hwritten : w.written = last :: rest) :
    w.write (c :: s) =
      { w with
        written := (c :: s).reverse ++
          if needsSeparator last c then ' ' :: w.written else w.written } := by
  have hbegin : w.beginLine = w := by
    rw [beginLine, hline]
    rfl
  simp only [write, hbegin, separate, hwritten]
  split <;> simp [hwritten]

theorem atLineStart_write (w : Writer) (c : Char) (s : List Char) :
    (w.write (c :: s)).atLineStart = false := by
  have hbegin : w.beginLine.atLineStart = false := by
    cases hline : w.atLineStart <;> simp [beginLine, hline]
  simp only [write, separate]
  split
  · split <;> exact hbegin
  · exact hbegin

/-- A word is kept apart from a word before it. -/
theorem endsInWord_separate (w : Writer) {c : Char} (hc : isWordPart c = true) :
    endsInWord (w.separate c).written.reverse = false := by
  rw [endsInWord, List.getLast?_reverse, separate]
  split
  · next last rest hwritten =>
    have hspace : isWordPart ' ' = false := by decide
    split
    · simp [hspace]
    · next hsep =>
      have hlast : isWordPart last = false := by
        simp only [needsSeparator, hc, Bool.and_true, Bool.or_eq_true, not_or] at hsep
        simpa using hsep.1.1
      simp [hwritten, hlast]
  · next hwritten => simp [hwritten]

theorem StandsAfter.write (h : w.StandsAfter text) (s : List Char) :
    (w.write s).StandsAfter text := by
  rcases h with rfl | h
  · exact .inl rfl
  · right
    cases s with
    | nil => exact h
    | cons c s =>
      obtain ⟨k, hk⟩ := w.exists_written_write c s
      rw [hk, List.getLast?_append, List.getLast?_append, h]
      rfl

end Writer

/-! ### Stages of a print -/

/-- Marks and keywords are calm: a slash is followed by a sign of assignment at most. -/
theorem calm_spelling (k : TokenKind) : Calm k.spelling.toList := by
  by_cases hk : k = .slash ∨ k = .divAssign
  · rcases hk with rfl | rfl
    · exact .char rfl (fun _ => rfl) .nil
    · exact .char rfl (fun _ => rfl) (.of_all (by decide))
  · exact .of_all (by revert hk; cases k <;> decide)

theorem Calm.append_spaces {cs : List Char} (h : Calm cs) (k : Nat) :
    Calm (cs ++ List.replicate k ' ') := by
  refine h.append (.of_plain ?_) fun _ => ?_
  · intro c hc
    obtain ⟨-, rfl⟩ := List.mem_replicate.1 hc
    decide
  · cases k <;> rfl

/-- That a print has come to the writer `w`, behind finished pieces. -/
structure Stage (pieces : List (List Char)) (w : Writer) : Prop where
  ends : ∀ piece ∈ pieces, EndsInFunction piece
  begins : ∀ piece ∈ pieces.tail, piece.head? = some '('
  current : pieces ≠ [] → w.written.getLast? = some '('
  calm : Calm w.written.reverse

/-- That the last thing written is no slash. -/
def Writer.ClearOfSlash (w : Writer) : Prop := w.written.head? ≠ some '/'

namespace Stage

variable {pieces : List (List Char)} {names : List (Option String)} {w w' : Writer}
  {text : List Char}

theorem start (compact : Bool) : Stage [] (.start compact) where
  ends := by simp
  begins := by simp
  current := fun h => absurd rfl h
  calm := .nil

theorem standsAfter (h : Stage pieces w) (hfilled : Filled pieces names text) :
    w.StandsAfter text := by
  cases hfilled with
  | nil => exact .inl rfl
  | snoc => exact .inr (h.current (by simp))

/-- A writer that has written more stands behind the same pieces. -/
theorem more (h : Stage pieces w) {added : List Char} (hw : w'.written = added ++ w.written)
    (hcalm : Calm w'.written.reverse) : Stage pieces w' where
  ends := h.ends
  begins := h.begins
  current := by
    intro hne
    rw [hw, List.getLast?_append, h.current hne]
    rfl
  calm := hcalm

theorem write (h : Stage pieces w) {s : List Char} (hs : Calm s)
    (hjoin : w.ClearOfSlash ∨ afterSlash s = false) : Stage pieces (w.write s) := by
  cases s with
  | nil => exact h
  | cons c s =>
    obtain ⟨k, hk⟩ := w.exists_written_write c s
    refine h.more (hk.trans (List.append_assoc ..).symm) ?_
    have hreverse : (w.write (c :: s)).written.reverse =
        (w.written.reverse ++ List.replicate k ' ') ++ (c :: s) := by
      simp [hk]
    rw [hreverse]
    refine (h.calm.append_spaces k).append hs fun hlast => ?_
    rcases hjoin with hclear | hjoin
    · refine absurd ?_ hclear
      cases k with
      | zero => simpa using hlast
      | succ k => simp [List.replicate_succ'] at hlast
    · exact hjoin

theorem space (h : Stage pieces w) : Stage pieces w.space := by
  rw [Writer.space]
  split
  · exact h
  · have hmore : ({ w with written := ' ' :: w.written } : Writer).written = [' '] ++ w.written := rfl
    refine h.more hmore ?_
    rw [List.reverse_cons]
    exact h.calm.append_spaces 1

theorem newline (h : Stage pieces w) : Stage pieces w.newline := by
  rw [Writer.newline]
  split
  · exact h
  · have hcalm : Calm (w.written.dropWhile (· == ' ')).reverse := by
      have hwritten := h.calm
      generalize w.written = cs at hwritten
      induction cs with
      | nil => exact .nil
      | cons c cs ih =>
        rw [List.dropWhile_cons]
        split
        · next hc =>
          obtain rfl : c = ' ' := by simpa using hc
          rw [List.reverse_cons] at hwritten
          exact ih hwritten.of_append_space
        · exact hwritten
    refine ⟨h.ends, h.begins, fun hne => ?_, ?_⟩
    · rw [List.getLast?_cons, Writer.getLast?_dropWhile (h.current hne)]
      rfl
    · rw [List.reverse_cons]
      exact hcalm.append (.of_all (by decide)) fun _ => rfl

end Stage

/-! ### Layouts that are cut

A layout is given for each way `i` to name the functions, where `name i` holds the names. -/

section

variable {ι : Type} (name : ι → NodeId → Option String)

/-- That a layout, in whatever way the functions are named, is cut at the same places and into the
same pieces: behind the words of the functions in `sites`. If `leads` holds, the layout may follow a
slash. -/
def Cuts (leads : Bool) (layout : ι → Layout) (sites : List NodeId) : Prop :=
  ∀ pieces w, Stage pieces w → (leads = true ∨ w.ClearOfSlash) →
    ∃ pieces' w', Stage pieces' w' ∧ w'.ClearOfSlash ∧
      ∀ i names text, Filled pieces names text →
        ∃ text', Filled pieces' (names ++ sites.map (name i)) text' ∧
          (layout i).write (w.after text) = w'.after text'

namespace Cuts

variable {name} {leads : Bool} {layout layout' : ι → Layout} {sites sites' : List NodeId}

theorem congr (h : Cuts name leads layout sites) (hsites : sites' = sites)
    (hlayout : ∀ i w, (layout' i).write w = (layout i).write w) : Cuts name leads layout' sites' := by
  subst hsites
  intro pieces w hw hclear
  obtain ⟨pieces', w', hw', hclear', hwrite⟩ := h pieces w hw hclear
  refine ⟨pieces', w', hw', hclear', fun i names text hfilled => ?_⟩
  rw [hlayout]
  exact hwrite i names text hfilled

theorem append (h : Cuts name leads layout sites) (h' : Cuts name false layout' sites') :
    Cuts name leads (fun i => layout i ++ layout' i) (sites ++ sites') := by
  intro pieces w hw hclear
  obtain ⟨pieces₁, w₁, hw₁, hclear₁, hwrite₁⟩ := h pieces w hw hclear
  obtain ⟨pieces₂, w₂, hw₂, hclear₂, hwrite₂⟩ := h' pieces₁ w₁ hw₁ (.inr hclear₁)
  refine ⟨pieces₂, w₂, hw₂, hclear₂, fun i names text hfilled => ?_⟩
  obtain ⟨text₁, hfilled₁, heq₁⟩ := hwrite₁ i names text hfilled
  obtain ⟨text₂, hfilled₂, heq₂⟩ := hwrite₂ i _ text₁ hfilled₁
  refine ⟨text₂, ?_, ?_⟩
  · rwa [List.map_append, ← List.append_assoc]
  · rw [Layout.write_append, heq₁, heq₂]

/-- What is written in the same way whatever the names are is not cut. -/
theorem of_writer {l : Layout} (hafter : ∀ w text, w.StandsAfter text →
      l.write (w.after text) = (l.write w).after text)
    (hstage : ∀ pieces w, Stage pieces w → (leads = true ∨ w.ClearOfSlash) →
      Stage pieces (l.write w) ∧ (l.write w).ClearOfSlash) :
    Cuts name leads (fun _ => l) [] := by
  intro pieces w hw hclear
  obtain ⟨hw', hclear'⟩ := hstage pieces w hw hclear
  refine ⟨pieces, l.write w, hw', hclear', fun i names text hfilled => ⟨text, ?_, ?_⟩⟩
  · simpa using hfilled
  · exact hafter w text (hw.standsAfter hfilled)

protected theorem empty : Cuts name false (fun _ => Layout.empty) [] :=
  of_writer (fun _ _ _ => rfl) fun _ _ hw hclear =>
    ⟨hw, hclear.resolve_left Bool.false_ne_true⟩

protected theorem space : Cuts name false (fun _ => Layout.space) [] := by
  refine of_writer (fun _ _ h => Writer.space_after h) fun _ w hw hclear => ⟨hw.space, ?_⟩
  have hclear' := hclear.resolve_left Bool.false_ne_true
  rw [Layout.write, Writer.space]
  split
  · exact hclear'
  · simp [Writer.ClearOfSlash]

protected theorem newline : Cuts name false (fun _ => Layout.newline) [] := by
  refine of_writer (fun _ _ h => Writer.newline_after h) fun _ w hw hclear => ⟨hw.newline, ?_⟩
  have hclear' := hclear.resolve_left Bool.false_ne_true
  rw [Layout.write, Writer.newline]
  split
  · exact hclear'
  · simp [Writer.ClearOfSlash]

/-- A text that is calm and does not end with a slash. It may follow one if it cannot be read together
with it. -/
protected theorem text {s : String} (hs : Calm s.toList) (hlast : s.toList.getLast? ≠ some '/')
    (hleads : leads = true → s ≠ "" ∧ afterSlash s.toList = false) :
    Cuts name leads (fun _ => Layout.text s) [] := by
  refine of_writer (fun _ _ h => Writer.write_after h s.toList) fun pieces w hw hclear => ⟨?_, ?_⟩
  · refine hw.write hs ?_
    rcases hclear with hleads' | hclear
    · exact .inr (hleads hleads').2
    · exact .inl hclear
  · have hwrite : (Layout.text s).write w = w.write s.toList := rfl
    rw [hwrite]
    cases htext : s.toList with
    | nil =>
      refine hclear.resolve_left fun hleads' => (hleads hleads').1 ?_
      simpa using htext
    | cons c cs =>
      obtain ⟨k, hk⟩ := w.exists_written_write c cs
      rw [htext] at hlast
      rw [Writer.ClearOfSlash, hk, List.head?_append, List.head?_reverse]
      rw [List.getLast?_cons] at hlast ⊢
      exact hlast

protected theorem indented (h : Cuts name leads layout sites) :
    Cuts name leads (fun i => Layout.indented (layout i)) sites := by
  intro pieces w hw hclear
  have hindent : Stage pieces w.indent := ⟨hw.ends, hw.begins, hw.current, hw.calm⟩
  obtain ⟨pieces', w', hw', hclear', hwrite⟩ := h pieces w.indent hindent hclear
  refine ⟨pieces', w'.dedent, ⟨hw'.ends, hw'.begins, hw'.current, hw'.calm⟩, hclear',
    fun i names text hfilled => ?_⟩
  obtain ⟨text', hfilled', heq⟩ := hwrite i names text hfilled
  refine ⟨text', hfilled', ?_⟩
  have hafter : (w.after text).indent = w.indent.after text := rfl
  rw [Layout.write, hafter, heq]
  rfl

/-! ### Fixed texts -/

/-- Whether a text has neither quotes nor slashes in it. -/
def isPlain (s : String) : Bool := s.toList.all fun c => !isQuote c && c != '/'

theorem calm_of_isPlain {s : String} (h : isPlain s = true) :
    Calm s.toList ∧ s.toList.getLast? ≠ some '/' := by
  have hplain : ∀ c ∈ s.toList, isQuote c = false ∧ c ≠ '/' := by
    intro c hc
    simpa using List.all_eq_true.1 h c hc
  exact ⟨.of_plain hplain, fun hlast => (hplain _ (List.mem_of_getLast? hlast)).2 rfl⟩

/-- A plain text is written as it is. -/
protected theorem plain (s : String) (hs : isPlain s = true) :
    Cuts name false (fun _ => Layout.text s) [] :=
  Cuts.text (calm_of_isPlain hs).1 (calm_of_isPlain hs).2 fun h => absurd h Bool.false_ne_true

/-- A plain text that may follow a slash. -/
protected theorem opening (s : String) (hs : isPlain s = true) (hne : s ≠ "")
    (hslash : afterSlash s.toList = false) : Cuts name leads (fun _ => Layout.text s) [] :=
  Cuts.text (calm_of_isPlain hs).1 (calm_of_isPlain hs).2 fun _ => ⟨hne, hslash⟩

/-! ### Functions -/

/-- The name of a function behind its word. -/
def nameLayout : Option String → Layout
  | none => .empty
  | some n => .space ++ .text n

/-- The writer behind the word of a function. -/
def functionWord (isGenerator : Bool) : Layout := .text "function" ++ Layout.markIf isGenerator "*"

/-- Behind the word of a function a piece ends. -/
theorem stage_functionWord {pieces : List (List Char)} {w : Writer} (hw : Stage pieces w)
    (isGenerator : Bool) :
    ∃ v last rest, Stage pieces v ∧ EndsInFunction v.written.reverse ∧ v.atLineStart = false ∧
      v.written = last :: rest ∧ (last = 'n' ∨ last = '*') ∧
      ∀ text, w.StandsAfter text → (functionWord isGenerator).write (w.after text) = v.after text := by
  obtain ⟨k, hk⟩ := w.exists_written_separate 'f'
  have hbefore : Calm (w.beginLine.separate 'f').written.reverse := by
    rw [hk, List.reverse_append, List.reverse_replicate]
    exact hw.calm.append_spaces k
  have hend : endsInWord (w.beginLine.separate 'f').written.reverse = false :=
    w.beginLine.endsInWord_separate (by decide)
  have hwritten : (w.write "function".toList).written =
      'n' :: "oitcnuf".toList ++ (w.beginLine.separate 'f').written := rfl
  have hword : Stage pieces (w.write "function".toList) :=
    hw.write (.of_all (by decide)) (.inr rfl)
  have hline : (w.write "function".toList).atLineStart = false := w.atLineStart_write _ _
  have hclear : (w.write "function".toList).ClearOfSlash := by
    rw [Writer.ClearOfSlash, hwritten]
    simp
  have hafter : ∀ text, w.StandsAfter text → (Layout.text "function").write (w.after text) =
      (w.write "function".toList).after text := fun text h => Writer.write_after h _
  cases isGenerator with
  | false =>
    refine ⟨_, 'n', _, hword, ⟨_, hbefore, hend, .inl ?_⟩, hline, hwritten, .inl rfl, hafter⟩
    rw [hwritten]
    simp
  | true =>
    have hstar : (w.write "function".toList).write ['*'] =
        { w.write "function".toList with
          written := '*' :: (w.write "function".toList).written } :=
      Writer.write_of_running hline hwritten
    refine ⟨(w.write "function".toList).write ['*'], '*', (w.write "function".toList).written,
      hword.write (.of_all (by decide)) (.inl hclear),
      ⟨_, hbefore, hend, .inr ?_⟩, ?_, ?_, .inr rfl, fun text h => ?_⟩
    · rw [hstar, hwritten]
      simp
    · exact Writer.atLineStart_write _ _ _
    · rw [hstar]
    · rw [functionWord, Layout.write_append, hafter text h]
      exact Writer.write_after (h.write _) _

/-- A name is put behind the word of a function, after a space or after the mark of a generator. -/
theorem exists_gap {v : Writer} {last : Char} {rest : List Char} (hline : v.atLineStart = false)
    (hwritten : v.written = last :: rest) (hlast : last = 'n' ∨ last = '*') {n : Option String}
    (hn : ∀ s, n = some s → isWord s.toList = true) :
    ∃ gap, (∀ piece, piece.getLast? = some last → Spaced piece n gap) ∧
      (nameLayout n).write v = { v with written := gap.reverse ++ v.written } := by
  cases n with
  | none => exact ⟨[], fun _ _ => .none, rfl⟩
  | some s =>
    obtain ⟨c, cs, hs⟩ : ∃ c cs, s.toList = c :: cs := by
      cases hs : s.toList with
      | nil => exact absurd (hn s rfl) (by simp [hs, isWord])
      | cons c cs => exact ⟨c, cs, rfl⟩
    have hpart : isWordPart c = true := by
      have hword := hn s rfl
      rw [hs] at hword
      exact isWordPart_of_isWordStart (Bool.and_eq_true_iff.1 hword).1
    have hname : (nameLayout (some s)).write v = v.space.write (c :: cs) := by
      rw [← hs]
      rfl
    rw [hname]
    cases hcompact : v.compact with
    | false =>
      have hspace : v.space = { v with written := ' ' :: v.written } := by
        rcases hlast with rfl | rfl <;> simp [Writer.space, hcompact, hline, hwritten]
      have hseparator : Writer.needsSeparator ' ' c = false := by
        have hgap : isWordPart ' ' = false := by decide
        simp [Writer.needsSeparator, hgap]
      have hrunning : ({ v with written := ' ' :: v.written } : Writer).atLineStart = false := hline
      refine ⟨' ' :: s.toList, fun _ _ => .space s (hn s rfl), ?_⟩
      rw [hspace, Writer.write_of_running hrunning rfl, hseparator]
      simp [hs, hcompact]
    | true =>
      have hspace : v.space = v := by
        rw [Writer.space, hcompact]
        rfl
      rw [hspace, Writer.write_of_running hline hwritten]
      rcases hlast with rfl | rfl
      · have hseparator : Writer.needsSeparator 'n' c = true := by
          have hn : isWordPart 'n' = true := by decide
          simp [Writer.needsSeparator, hn, hpart]
        refine ⟨' ' :: s.toList, fun _ _ => .space s (hn s rfl), ?_⟩
        simp [hseparator, hs, hcompact]
      · have hseparator : Writer.needsSeparator '*' c = false := by
          have hn : isWordPart '*' = false := by decide
          simp [Writer.needsSeparator, hn]
        refine ⟨s.toList, fun _ h => .star s (hn s rfl) h, ?_⟩
        simp [hseparator, hs, hcompact]

/-- No space is put before a parenthesis. -/
theorem write_parenthesis {v : Writer} (hline : v.atLineStart = false) (hne : v.written ≠ []) :
    (Layout.text "(").write v = { v with written := '(' :: v.written } := by
  obtain ⟨c, cs, hwritten⟩ := List.exists_cons_of_ne_nil hne
  have hseparator : Writer.needsSeparator c '(' = false := by
    have hpart : isWordPart '(' = false := by decide
    simp [Writer.needsSeparator, hpart]
  have hwrite : (Layout.text "(").write v = v.write ['('] := rfl
  rw [hwrite, Writer.write_of_running hline hwritten, hseparator]
  rfl

/-- A name, if there is one, and the parenthesis behind it. -/
theorem exists_spaced {v : Writer} {last : Char} {rest : List Char} (hline : v.atLineStart = false)
    (hwritten : v.written = last :: rest) (hlast : last = 'n' ∨ last = '*') (text : List Char)
    {n : Option String} (hn : ∀ s, n = some s → isWord s.toList = true) :
    ∃ gap, Spaced v.written.reverse n gap ∧
      (nameLayout n ++ Layout.text "(").write (v.after text) =
        ({ v with written := ['('] } : Writer).after (text ++ (v.written.reverse ++ gap)) := by
  have hafter : (v.after text).written = last :: (rest ++ text.reverse) := by
    simp [Writer.after, hwritten]
  have hrunning : (v.after text).atLineStart = false := hline
  obtain ⟨gap, hspaced, heq⟩ := exists_gap hrunning hafter hlast hn
  refine ⟨gap, hspaced _ (by simp [hwritten]), ?_⟩
  rw [Layout.write_append, heq, write_parenthesis]
  · simp [Writer.after]
  · exact hline
  · simp [hafter]

/-- Where a function has its name, the output is cut. -/
protected theorem function (isGenerator : Bool) {id : NodeId}
    (hname : ∀ i s, name i id = some s → isWord s.toList = true) :
    Cuts name leads (fun i => functionWord isGenerator ++ (nameLayout (name i id) ++ Layout.text "("))
      [id] := by
  intro pieces w hw _
  obtain ⟨v, last, rest, hv, hends, hline, hwritten, hlast, hword⟩ :=
    stage_functionWord hw isGenerator
  have hcurrent : Stage (pieces ++ [v.written.reverse]) { v with written := ['('] } := by
    have hparen : Calm ['('] := .of_all (by decide)
    refine ⟨?_, ?_, fun _ => rfl, hparen⟩
    · simpa [or_imp, forall_and] using ⟨hv.ends, hends⟩
    · intro piece hpiece
      cases pieces with
      | nil => cases hpiece
      | cons p ps =>
        rw [List.cons_append, List.tail_cons, List.mem_append, List.mem_singleton] at hpiece
        rcases hpiece with hpiece | rfl
        · exact hv.begins piece hpiece
        · rw [List.head?_reverse]
          exact hv.current (List.cons_ne_nil p ps)
  refine ⟨pieces ++ [v.written.reverse], { v with written := ['('] }, hcurrent,
    by simp [Writer.ClearOfSlash],
    fun i names text hfilled => ?_⟩
  obtain ⟨gap, hspaced, heq⟩ := exists_spaced hline hwritten hlast text (hname i)
  refine ⟨text ++ (v.written.reverse ++ gap), hfilled.snoc hspaced, ?_⟩
  rw [Layout.write_append, hword text (hw.standsAfter hfilled), heq]

/-- An operator and its right operand. Only here may something be written behind a slash. -/
protected theorem operator (k : TokenKind) (h : Cuts name true layout sites) :
    Cuts name false (fun i => Layout.text k.spelling ++ Layout.space ++ layout i) sites := by
  intro pieces w hw hclear
  have hoperator : Stage pieces (w.write k.spelling.toList) :=
    hw.write (calm_spelling k) (.inl (hclear.resolve_left Bool.false_ne_true))
  obtain ⟨pieces', w', hw', hclear', hwrite⟩ := h pieces _ hoperator.space (.inl rfl)
  refine ⟨pieces', w', hw', hclear', fun i names text hfilled => ?_⟩
  obtain ⟨text', hfilled', heq⟩ := hwrite i names text hfilled
  refine ⟨text', hfilled', ?_⟩
  have hword : (Layout.text k.spelling).write (w.after text) =
      (w.write k.spelling.toList).after text :=
    Writer.write_after (hw.standsAfter hfilled) _
  have hspace : Layout.space.write ((w.write k.spelling.toList).after text) =
      (w.write k.spelling.toList).space.after text :=
    Writer.space_after (hoperator.standsAfter hfilled)
  rw [Layout.write_append, Layout.write_append, hword, hspace, heq]

end Cuts

end

end FunctionNaming
