import FunctionNaming.Proofs.Print.Cuts

/-!
Output as the pieces of text that a layout consists of, with blanks between them. Which pieces there
are, in what order, and between which of them a line ends, is a matter of the layout alone; how the
output is laid out decides only about the blanks. A writer puts two pieces side by side only where it
sees no need to separate them, and it ends lines unless the output is compact.
-/

namespace FunctionNaming

/-- The pieces of text that a layout writes, in their order. -/
def Layout.pieces : Layout → List (List Char)
  | empty | space | newline => []
  | text s => if s.toList = [] then [] else [s.toList]
  | indented inner => inner.pieces
  | append first second => first.pieces ++ second.pieces

@[simp] theorem Layout.pieces_append (a b : Layout) : (a ++ b).pieces = a.pieces ++ b.pieces := rfl

/-- The pieces of text that a layout writes, and the ends of lines between them, which are `none`. -/
def Layout.items : Layout → List (Option (List Char))
  | empty | space => []
  | newline => [none]
  | text s => if s.toList = [] then [] else [some s.toList]
  | indented inner => inner.items
  | append first second => first.items ++ second.items

theorem Layout.filterMap_items (l : Layout) : l.items.filterMap id = l.pieces := by
  induction l with
  | empty | space | newline => rfl
  | text s => by_cases hs : s.toList = [] <;> simp [items, pieces, hs]
  | indented _ ih => exact ih
  | append _ _ ihfirst ihsecond =>
    rw [items, List.filterMap_append, ihfirst, ihsecond]
    rfl

theorem Layout.mem_pieces_of_mem_items {l : Layout} {piece : List Char}
    (h : some piece ∈ l.items) : piece ∈ l.pieces := by
  rw [← l.filterMap_items]
  exact List.mem_filterMap.2 ⟨_, h, rfl⟩

/-- The characters that are put between pieces. -/
def blanks : List Char := [' ', '\n']

theorem mem_blanks_iff {c : Char} : c ∈ blanks ↔ c = ' ' ∨ c = '\n' := by simp [blanks]

/-- That a text consists of pieces and of blanks between them, that pieces without a blank between
them need none, and that lines end where they are said to, or not at all. -/
inductive SetOut (breaks : Bool) : List (Option (List Char)) → List Char → Prop
  | nil : SetOut breaks [] []
  | space {items : List (Option (List Char))} {text : List Char} : SetOut breaks items text →
      SetOut breaks items (' ' :: text)
  | newline {items : List (Option (List Char))} {text : List Char} : breaks = true →
      SetOut breaks items text → SetOut breaks (none :: items) ('\n' :: text)
  | unbroken {items : List (Option (List Char))} {text : List Char} : breaks = false →
      SetOut breaks items text → SetOut breaks (none :: items) text
  | piece {items : List (Option (List Char))} {piece text : List Char} :
      (∀ last ∈ piece.getLast?, ∀ next ∈ text.head?, Writer.needsSeparator last next = false) →
      SetOut breaks items text → SetOut breaks (some piece :: items) (piece ++ text)

theorem Writer.needsSeparator_of_mem_blanks {c : Char} (hc : c ∈ blanks) (d : Char) :
    needsSeparator c d = false ∧ needsSeparator d c = false := by
  have hplain : isWordPart c = false ∧ c ≠ '+' ∧ c ≠ '-' := by
    rcases mem_blanks_iff.1 hc with rfl | rfl <;> decide
  simp [needsSeparator, hplain]

namespace SetOut

variable {breaks : Bool} {items items' : List (Option (List Char))} {text text' piece : List Char}
  {c : Char}

theorem append (h : SetOut breaks items text) (h' : SetOut breaks items' text')
    (hseparated : ∀ last ∈ text.getLast?, ∀ next ∈ text'.head?,
      Writer.needsSeparator last next = false) :
    SetOut breaks (items ++ items') (text ++ text') := by
  induction h with
  | nil => exact h'
  | @space _ text _ ih =>
    exact .space (ih fun last hlast => hseparated last (by simp_all [List.getLast?_cons]))
  | @newline _ text hbreaks _ ih =>
    exact .newline hbreaks (ih fun last hlast => hseparated last (by simp_all [List.getLast?_cons]))
  | unbroken hbreaks _ ih => exact .unbroken hbreaks (ih hseparated)
  | @piece _ first text hfirst _ ih =>
    rw [List.append_assoc]
    refine .piece (fun last hlast next hnext => ?_) (ih fun last hlast => hseparated last ?_)
    · cases text with
      | nil => exact hseparated last (by simpa using hlast) next (by simpa using hnext)
      | cons d text => exact hfirst last hlast next (by simpa using hnext)
    · simp_all [List.getLast?_append]

theorem concat (h : SetOut breaks items text)
    (hseparated : ∀ last ∈ text.getLast?, ∀ next ∈ piece.head?,
      Writer.needsSeparator last next = false) :
    SetOut breaks (items ++ [some piece]) (text ++ piece) := by
  have hpiece : SetOut breaks [some piece] (piece ++ []) := .piece (by simp) .nil
  rw [List.append_nil] at hpiece
  exact h.append hpiece hseparated

/-- Text of which nothing has to be kept apart. -/
theorem append_blank (h : SetOut breaks items text) (hc : c ∈ blanks)
    (h' : SetOut breaks items' [c]) : SetOut breaks (items ++ items') (text ++ [c]) := by
  refine h.append h' fun last _ next hnext => ?_
  obtain rfl : c = next := by simpa using hnext
  exact (Writer.needsSeparator_of_mem_blanks hc last).2

theorem concat_space (h : SetOut breaks items text) : SetOut breaks items (text ++ [' ']) := by
  simpa using h.append_blank (by decide) (.space .nil)

theorem append_spaces (h : SetOut breaks items text) (k : Nat) :
    SetOut breaks items (text ++ List.replicate k ' ') := by
  induction k with
  | zero => simpa using h
  | succ k ih =>
    rw [List.replicate_succ', ← List.append_assoc]
    exact ih.concat_space

/-- A space at the end belongs to no piece, if no piece ends with one. -/
theorem of_concat_space (h : SetOut breaks items (text ++ [' ']))
    (hitems : ∀ piece, some piece ∈ items → piece.getLast? ≠ some ' ') :
    SetOut breaks items text := by
  generalize hds : text ++ [' '] = ds at h
  induction h generalizing text with
  | nil => simp at hds
  | space htail ih =>
    cases text with
    | nil =>
      obtain ⟨-, rfl⟩ := List.cons.inj hds
      exact htail
    | cons d text =>
      obtain ⟨rfl, htext⟩ := List.cons.inj hds
      exact .space (ih hitems htext)
  | newline hbreaks _ ih =>
    cases text with
    | nil => exact absurd (List.cons.inj hds).1 (by decide)
    | cons d text =>
      obtain ⟨rfl, htext⟩ := List.cons.inj hds
      exact .newline hbreaks (ih (fun piece hmem => hitems piece (List.mem_cons_of_mem _ hmem)) htext)
  | unbroken hbreaks _ ih =>
    exact .unbroken hbreaks (ih (fun piece hmem => hitems piece (List.mem_cons_of_mem _ hmem)) hds)
  | @piece items first ds hfirst htail ih =>
    have hne := hitems first List.mem_cons_self
    have htails := fun piece hmem => hitems piece (List.mem_cons_of_mem _ hmem)
    rcases List.eq_nil_or_concat ds with rfl | ⟨ds, d, rfl⟩
    · rw [List.append_nil] at hds
      rw [← hds] at hne
      simp at hne
    · rw [List.concat_eq_append] at *
      rw [← List.append_assoc] at hds
      obtain ⟨rfl, hd⟩ := List.append_inj' hds rfl
      refine .piece (fun last hlast next hnext => hfirst last hlast next ?_) (ih htails (by rw [hd]))
      cases ds with
      | nil => cases hnext
      | cons e ds => exact hnext

/-- What a text begins with: a blank or the first piece. -/
theorem head_cases (h : SetOut breaks items (c :: text))
    (hitems : ∀ piece, some piece ∈ items → piece ≠ []) :
    c ∈ blanks ∨ ∃ first rest, items.filterMap id = first :: rest ∧ first.head? = some c := by
  generalize hds : c :: text = ds at h
  induction h with
  | nil => cases hds
  | space _ _ =>
    obtain ⟨rfl, -⟩ := List.cons.inj hds
    exact .inl (by decide)
  | newline _ _ _ =>
    obtain ⟨rfl, -⟩ := List.cons.inj hds
    exact .inl (by decide)
  | unbroken _ _ ih => exact ih (fun piece hmem => hitems piece (List.mem_cons_of_mem _ hmem)) hds
  | @piece _ first _ _ _ =>
    obtain ⟨d, cs, rfl⟩ := List.exists_cons_of_ne_nil (hitems first List.mem_cons_self)
    obtain ⟨rfl, -⟩ := List.cons.inj hds
    exact .inr ⟨_, _, List.filterMap_cons_some rfl, rfl⟩

end SetOut

namespace Writer

variable {breaks : Bool} {items : List (Option (List Char))} {w : Writer}

/-- Behind the space that a writer puts where one is needed, none is needed any more. -/
theorem needsSeparator_separate (w : Writer) (c : Char) :
    ∀ last ∈ (w.separate c).written.reverse.getLast?, needsSeparator last c = false := by
  rw [List.getLast?_reverse, separate]
  split
  · next last rest hwritten =>
    split
    · rintro d ⟨rfl⟩
      exact (needsSeparator_of_mem_blanks (by decide) c).1
    · next hno =>
      rw [hwritten]
      rintro d ⟨rfl⟩
      simpa using hno
  · next hwritten => simp [hwritten]

theorem setOut_write (h : SetOut breaks items w.written.reverse) (c : Char) (s : List Char) :
    SetOut breaks (items ++ [some (c :: s)]) (w.write (c :: s)).written.reverse := by
  obtain ⟨k, hk⟩ := w.exists_written_separate c
  have hbefore : SetOut breaks items (w.beginLine.separate c).written.reverse := by
    rw [hk, List.reverse_append, List.reverse_replicate]
    exact h.append_spaces k
  have hwrite : (w.write (c :: s)).written.reverse =
      (w.beginLine.separate c).written.reverse ++ (c :: s) := by
    simp [write]
  rw [hwrite]
  refine hbefore.concat fun last hlast next hnext => ?_
  obtain rfl : c = next := by simpa using hnext
  exact w.beginLine.needsSeparator_separate c last hlast

theorem setOut_space (h : SetOut breaks items w.written.reverse) :
    SetOut breaks items w.space.written.reverse := by
  rw [space]
  split
  · exact h
  · rw [List.reverse_cons]
    exact h.concat_space

theorem setOut_newline (h : SetOut (!w.compact) items w.written.reverse)
    (hitems : ∀ piece, some piece ∈ items → piece.getLast? ≠ some ' ') :
    SetOut (!w.compact) (items ++ [none]) w.newline.written.reverse := by
  rw [newline]
  split
  · next hcompact =>
    have hnone : SetOut (!w.compact) [none] [] := .unbroken (by rw [hcompact]; rfl) .nil
    simpa using h.append hnone (by simp)
  · next hcompact =>
    have hstripped : SetOut (!w.compact) items (w.written.dropWhile (· == ' ')).reverse := by
      generalize w.written = cs at h
      induction cs with
      | nil => exact h
      | cons c cs ih =>
        rw [List.dropWhile_cons]
        split
        · next hc =>
          obtain rfl : c = ' ' := by simpa using hc
          rw [List.reverse_cons] at h
          exact ih (h.of_concat_space hitems)
        · exact h
    rw [List.reverse_cons]
    exact hstripped.append_blank (by decide) (.newline (by simpa using hcompact) .nil)

end Writer

/-- A layout leaves a writer as compact as it was. -/
theorem Layout.compact_write (l : Layout) (w : Writer) : (l.write w).compact = w.compact := by
  induction l generalizing w with
  | empty => rfl
  | text s => exact w.compact_write s.toList
  | space => exact w.compact_space
  | newline => exact w.compact_newline
  | indented inner ih => exact ih w.indent
  | append first second ihfirst ihsecond => exact (ihsecond _).trans (ihfirst w)

/-- What a layout writes is set out from its pieces, whatever the writer does about blanks. -/
theorem Layout.setOut_write (l : Layout) {w : Writer} {items : List (Option (List Char))}
    (h : SetOut (!w.compact) items w.written.reverse)
    (hitems : ∀ piece, some piece ∈ items ++ l.items → piece.getLast? ≠ some ' ') :
    SetOut (!w.compact) (items ++ l.items) (l.write w).written.reverse := by
  induction l generalizing w items with
  | empty => simpa [Layout.items, Layout.write] using h
  | text s =>
    cases hs : s.toList with
    | nil => simpa [Layout.items, Layout.write, Writer.write, hs] using h
    | cons c cs =>
      have hwrite := Writer.setOut_write h c cs
      simpa [Layout.items, Layout.write, hs] using hwrite
  | space => simpa [Layout.items, Layout.write] using Writer.setOut_space h
  | newline =>
    have hitems' : ∀ piece, some piece ∈ items → piece.getLast? ≠ some ' ' := by
      simpa [Layout.items] using hitems
    simpa [Layout.items, Layout.write] using Writer.setOut_newline h hitems'
  | indented inner ih => exact ih (w := w.indent) h hitems
  | append first second ihfirst ihsecond =>
    simp only [Layout.items, ← List.append_assoc] at hitems ⊢
    have hfirst := ihfirst h fun piece hpiece => hitems piece (List.mem_append_left _ hpiece)
    rw [← first.compact_write w] at hfirst ⊢
    exact ihsecond hfirst hitems

end FunctionNaming
