import FunctionNaming.Proofs.Print.Marks
import FunctionNaming.Proofs.Print.Pieces
import FunctionNaming.Proofs.Token.Splits

/-!
Layouts whose pieces keep their tokens side by side. What may stand behind a piece is the edge of the
piece: behind a word or a bracket it is anything, as long as a space is put between words; behind an
operator it is what a phrase may begin with, and behind a number what no number goes on with. A layout
leads from the edge before it to the edge behind it, and layouts that do so can be put one after the
other.
-/

namespace FunctionNaming

open Literal (IsNumeral)
open Layout (empty text space newline indented)

/-! ### Edges -/

/-- What may stand behind a piece. -/
inductive Edge where
  | settled
  /-- What a phrase may begin with. -/
  | opening
  /-- What may stand behind a phrase. -/
  | closing
  /-- What may stand behind a phrase of which a member is accessed. -/
  | object
  /-- A word. -/
  | point
  deriving DecidableEq

/-- A text that is written in one piece. -/
structure IsPiece (piece : List Char) : Prop where
  ne : piece ≠ []
  last : piece.getLast? ≠ some ' '
  blank : ∀ c ∈ blanks, Splits piece c

namespace Edge

/-- Whether a piece behind the edge may begin with the character. -/
def allows : Edge → Char → Bool
  | settled, _ => true
  | opening, c => c != '=' && c != '>' && c != '/' && c != '*'
  | closing, c => c == 'i' || !isWordPart c && c != '.'
  | object, c => c == 'i' || !isWordPart c
  | point, c => isWordStart c

/-- That what may stand behind an edge may stand behind another. -/
def Within (e e' : Edge) : Prop := ∀ c, e.allows c = true → e'.allows c = true

theorem Within.refl (e : Edge) : e.Within e := fun _ h => h

theorem within_settled (e : Edge) : e.Within .settled := fun _ _ => rfl

theorem closing_within_object : closing.Within object := fun c hc => by
  simp only [allows, Bool.or_eq_true, Bool.and_eq_true] at hc ⊢
  exact hc.imp_right And.left

/-- That a piece has an edge. -/
structure Holds (e : Edge) (piece : List Char) : Prop extends IsPiece piece where
  splits : ∀ c, e.allows c = true →
    (∀ last ∈ piece.getLast?, Writer.needsSeparator last c = false) → Splits piece c

variable {e e' : Edge} {piece : List Char}

theorem Holds.within (h : e'.Holds piece) (hwithin : e.Within e') : e.Holds piece :=
  { h.toIsPiece with splits := fun c hc => h.splits c (hwithin c hc) }

/-- Blanks may stand behind all edges but points. -/
theorem allows_of_mem_blanks (he : e ≠ .point) {c : Char} (hc : c ∈ blanks) :
    e.allows c = true := by
  cases e with
  | point => exact absurd rfl he
  | _ => rcases mem_blanks_iff.1 hc with rfl | rfl <;> decide

theorem Holds.of_splits (he : e ≠ .point) (hne : piece ≠ []) (hlast : piece.getLast? ≠ some ' ')
    (hsplits : ∀ c, e.allows c = true →
      (∀ last ∈ piece.getLast?, Writer.needsSeparator last c = false) → Splits piece c) :
    e.Holds piece where
  ne := hne
  last := hlast
  blank := fun c hc => hsplits c (allows_of_mem_blanks he hc) fun last _ =>
    (Writer.needsSeparator_of_mem_blanks hc last).2
  splits := hsplits

end Edge

open Edge

/-! ### Pieces and their edges -/

theorem isWordPart_getLast? {word : List Char} (h : isWord word = true) :
    ∃ last, word.getLast? = some last ∧ isWordPart last = true := by
  cases word with
  | nil => cases h
  | cons c cs =>
    obtain ⟨hstart, hparts⟩ := Bool.and_eq_true_iff.1 h
    have hall : ∀ d ∈ c :: cs, isWordPart d = true :=
      List.forall_mem_cons.2 ⟨isWordPart_of_isWordStart hstart, List.all_eq_true.1 hparts⟩
    exact ⟨_, List.getLast?_eq_some_getLast (List.cons_ne_nil c cs), hall _ (List.getLast_mem _)⟩

/-- Behind a word there may be anything: a space is put before another word. -/
theorem settled_word {word : List Char} (h : isWord word = true) : settled.Holds word := by
  obtain ⟨last, hlast, hpart⟩ := isWordPart_getLast? h
  refine .of_splits (by decide) ?_ ?_ fun c _ hseparated => splits_word h ?_
  · rintro rfl
    cases h
  · rw [hlast]
    rintro ⟨rfl⟩
    revert hpart
    decide
  · have hno := hseparated last hlast
    simp only [Writer.needsSeparator, hpart, Bool.true_and, Bool.or_eq_false_iff] at hno
    exact hno.1.1

theorem settled_quoted {q : Char} (h : isQuote q = true) (value : List Char) :
    settled.Holds (Text.quoted q value) := by
  refine .of_splits (by decide) (by simp [Text.quoted]) ?_ fun c _ _ =>
    splits_quoted h value c
  rw [Text.quoted, List.getLast?_append]
  rcases isQuote_iff.1 h with rfl | rfl <;> simp

/-- Behind a number there may be what stands behind phrases, and if it has more than digits the point
of an access, too. -/
theorem holds_number {digits : List Char} (h : IsNumeral digits) :
    closing.Holds digits ∧ (digits.any (fun c => !c.isDigit) = true → object.Holds digits) := by
  obtain ⟨hstart, hread⟩ := @Lexeme.ofNumber_append_rest digits [] h (by simp)
  rw [List.append_nil] at hstart hread
  have hne : digits ≠ [] := by
    rintro rfl
    cases hstart
  have hlast : digits.getLast? ≠ some ' ' := by
    intro hspace
    have hmem : ' ' ∈ digits.take (Lexeme.ofNumber 0 digits).length := by
      rw [hread, List.take_length]
      exact List.mem_of_getLast? hspace
    exact absurd (Lexeme.isNumeralPart_of_mem_number hmem) (by decide)
  refine ⟨.of_splits (by decide) hne hlast fun c hc _ => splits_number h ?_, fun hmore =>
    .of_splits (by decide) hne hlast fun c hc _ => splits_number h ?_⟩
  · simp only [allows, Literal.endsBefore, Bool.and_eq_true, Bool.or_eq_true] at hc ⊢
    rcases hc with hc | hc
    · exact ⟨.inl hc, .inl (by rw [beq_iff_eq.1 hc]; decide)⟩
    · exact ⟨.inr hc.1, .inl hc.2⟩
  · simp only [allows, Literal.endsBefore, Bool.and_eq_true, Bool.or_eq_true] at hc ⊢
    exact ⟨hc, .inr hmore⟩

/-- Behind a mark there may be what a phrase begins with, but for the point, behind which there is a
word. -/
theorem opening_mark {k : TokenKind} (hk : k ∈ TokenKind.marks) (hpoint : k ≠ .dot) :
    opening.Holds k.spelling.toList := by
  have hall : ∀ k ∈ TokenKind.marks, k.spelling.toList ≠ [] ∧
      k.spelling.toList.getLast? ≠ some ' ' ∧
        (k ≠ .dot → k.extensions.all fun c => !opening.allows c ||
          k.spelling.toList.getLast?.any fun last => Writer.needsSeparator last c) := by
    decide
  obtain ⟨hne, hlast, hextensions⟩ := hall k hk
  refine .of_splits (by decide) hne hlast fun c hc hseparated =>
    splits_mark hk (fun hmem => ?_) (fun heq => absurd heq hpoint) fun _ => ?_
  · have hno := List.all_eq_true.1 (hextensions hpoint) c hmem
    rw [hc, Bool.not_true, Bool.false_or, Option.any_eq_true] at hno
    obtain ⟨last, hlast, hneeds⟩ := hno
    exact Bool.false_ne_true ((hseparated last hlast).symm.trans hneeds)
  · constructor <;> rintro rfl <;> cases hc

/-- Whether a fixed text is a word or a mark behind which there may be anything. -/
def isSettled (s : String) : Bool :=
  isWord s.toList || TokenKind.marks.any fun k =>
    k.spelling == s && k.extensions.isEmpty && k != .dot && k != .slash

theorem settled_of_isSettled {s : String} (h : isSettled s = true) : settled.Holds s.toList := by
  rcases Bool.or_eq_true_iff.1 h with hword | hmark
  · exact settled_word hword
  · obtain ⟨k, hk, hsettled⟩ := List.any_eq_true.1 hmark
    simp only [Bool.and_eq_true, beq_iff_eq, List.isEmpty_iff, bne_iff_ne] at hsettled
    obtain ⟨⟨⟨rfl, hextensions⟩, hpoint⟩, hslash⟩ := hsettled
    have hpiece := (opening_mark hk hpoint).toIsPiece
    exact { hpiece with
      splits := fun c _ _ => splits_mark hk (by simp [hextensions]) (fun heq => absurd heq hpoint)
        fun heq => absurd heq hslash }

theorem point_dot : point.Holds ['.'] where
  ne := by simp
  last := by simp
  blank := fun c hc => by
    have hblank : c ∉ TokenKind.dot.extensions ∧ c.isDigit = false := by
      rcases mem_blanks_iff.1 hc with rfl | rfl <;> decide
    exact splits_mark (k := .dot) (by decide) hblank.1 (fun _ => hblank.2) nofun
  splits := fun c hc _ => by
    have hextensions : TokenKind.dot.extensions.all (fun c => !isWordStart c) = true := by decide
    refine splits_mark (k := .dot) (by decide) (fun hmem => ?_)
      (fun _ => isDigit_of_isWordStart hc) nofun
    have hno := List.all_eq_true.1 hextensions c hmem
    rw [show isWordStart c = true from hc] at hno
    cases hno

/-- Two settled pieces in one. -/
theorem settled_append {first second : List Char}
    (hsecond : settled.Holds second) (hjoins : ∀ c ∈ second.head?, Splits first c) :
    settled.Holds (first ++ second) := by
  obtain ⟨c, cs, rfl⟩ := List.exists_cons_of_ne_nil hsecond.ne
  have hlast : (first ++ c :: cs).getLast? = (c :: cs).getLast? := by
    rw [List.getLast?_append, List.getLast?_cons, Option.some_or]
  refine .of_splits (by decide) (by simp) (hlast ▸ hsecond.last) fun d _ hseparated => ?_
  exact (hjoins c rfl).append (hsecond.splits d rfl (hlast ▸ hseparated))

theorem settled_append_space {first second : List Char} (hfirst : settled.Holds first)
    (hsecond : settled.Holds second) : settled.Holds (first ++ ' ' :: second) := by
  obtain ⟨c, cs, rfl⟩ := List.exists_cons_of_ne_nil hsecond.ne
  have hlast : (first ++ ' ' :: c :: cs).getLast? = (c :: cs).getLast? := by
    simp [List.getLast?_append, List.getLast?_cons]
  refine .of_splits (by decide) (by simp) (hlast ▸ hsecond.last) fun d _ hseparated => ?_
  exact (hfirst.blank ' ' (by decide)).append_space (hsecond.splits d rfl (hlast ▸ hseparated))

/-- Whether a text may stand behind the edge. -/
def Edge.allowsText (e : Edge) (s : String) : Bool := s.toList.head?.all e.allows

/-- Whether a fixed text may stand behind the edge, and anything behind the text. -/
def Edge.admits (e : Edge) (s : String) : Bool := isSettled s && e.allowsText s

/-! ### Pieces side by side -/

/-- That a piece keeps its tokens when another one stands right behind it, or needs a space there. -/
def Joins (piece next : List Char) : Prop :=
  ∀ last ∈ piece.getLast?, ∀ c ∈ next.head?, Writer.needsSeparator last c = false → Splits piece c

/-- The marks of a piece, or of the end of a line. -/
def marksOf : Option (List Char) → List Mark
  | none => [none]
  | some piece => (looks piece).map some

theorem Layout.marks_eq (l : Layout) : l.marks = l.items.flatMap marksOf := by
  induction l with
  | empty | space | newline => rfl
  | text s =>
    by_cases hs : s.toList = []
    · rw [marks, items, if_pos hs, hs]
      rfl
    · rw [marks, items, if_neg hs, List.flatMap_singleton]
      rfl
  | indented _ ih => exact ih
  | append _ _ ihfirst ihsecond => rw [marks, items, List.flatMap_append, ihfirst, ihsecond]

/-- That pieces can follow a first one up to a last one. -/
inductive Trail : List Char → List (List Char) → List Char → Prop
  | nil {piece : List Char} : Trail piece [] piece
  | cons {piece next last : List Char} {pieces : List (List Char)} : IsPiece next →
      Joins piece next → Trail next pieces last → Trail piece (next :: pieces) last

namespace Trail

variable {first middle last : List Char} {pieces pieces' : List (List Char)}

theorem append (h : Trail first pieces middle) (h' : Trail middle pieces' last) :
    Trail first (pieces ++ pieces') last := by
  induction h with
  | nil => exact h'
  | cons hnext hjoins _ ih => exact .cons hnext hjoins (ih h')

theorem isPiece (h : Trail first pieces last) : ∀ piece ∈ pieces, IsPiece piece := by
  induction h with
  | nil => exact List.forall_mem_nil _
  | cons hnext _ _ ih => exact List.forall_mem_cons.2 ⟨hnext, ih⟩

/-- The tokens of a text that is set out from pieces are those of the pieces, one after the other. -/
theorem composes {breaks : Bool} {items : List (Option (List Char))} {text : List Char}
    (h : Trail first (items.filterMap id) last) (hset : SetOut breaks items text) :
    Composes breaks text (items.flatMap marksOf) := by
  induction hset generalizing first with
  | nil => exact .nil breaks
  | space _ ih => exact (ih h).space
  | newline hbreaks _ ih =>
    subst hbreaks
    exact (ih h).newline
  | unbroken hbreaks _ ih =>
    subst hbreaks
    exact (ih h).unbroken
  | @piece items piece text hseparated hset ih =>
    cases h with
    | cons hpiece _ hrest =>
      have htakes : Scanner.Takes (piece ++ text) (looks piece) text := by
        cases text with
        | nil => exact hpiece.blank ' ' (by decide) [] nofun
        | cons c text =>
          have hne : ∀ p, some p ∈ items → p ≠ [] := fun p hp =>
            (hrest.isPiece p (List.mem_filterMap.2 ⟨_, hp, rfl⟩)).ne
          have hsplits : Splits piece c := by
            rcases hset.head_cases hne with hc | ⟨next, rest, hitems, hc⟩
            · exact hpiece.blank c hc
            · rw [hitems] at hrest
              cases hrest with
              | cons _ hjoins _ =>
                have hlast := List.getLast?_eq_some_getLast hpiece.ne
                exact hjoins _ hlast c hc (hseparated _ hlast c rfl)
          refine hsplits (c :: text) ?_
          rintro d ⟨rfl⟩
          rfl
      exact .takes htakes (ih hrest)

end Trail

/-! ### Layouts -/

/-- That a layout leads from one edge to another. -/
def Follows (e : Edge) (l : Layout) (e' : Edge) : Prop :=
  ∀ piece, e.Holds piece → ∃ last, e'.Holds last ∧ Trail piece l.pieces last

/-- What follows a settled piece has the tokens that its marks stand for. -/
theorem Follows.composes {l : Layout} {e : Edge} (h : Follows settled l e) (compact : Bool) :
    Composes (!compact) (l.render compact).toList l.marks := by
  obtain ⟨last, -, htrail⟩ := h ";".toList (settled_of_isSettled (by decide))
  have hset := @Layout.setOut_write l (.start compact) [] .nil fun piece hpiece =>
    (htrail.isPiece piece (Layout.mem_pieces_of_mem_items hpiece)).last
  rw [← l.filterMap_items] at htrail
  rw [Layout.render, Writer.contents, String.toList_ofList, l.marks_eq]
  exact htrail.composes hset

/-- What follows a settled piece is read as the same tokens, whether it is written compactly or not. -/
theorem Follows.readings_render {l : Layout} {e : Edge} (h : Follows settled l e)
    (compact compact' : Bool) :
    readings (l.render compact).toList = readings (l.render compact').toList :=
  (h.composes compact).readings_eq.trans (h.composes compact').readings_eq.symm

namespace Follows

variable {e e' e'' : Edge} {l l' : Layout}

theorem weaken (h : Follows e l e') (hwithin : e''.Within e') : Follows e l e'' := by
  intro piece hpiece
  obtain ⟨last, hlast, htrail⟩ := h piece hpiece
  exact ⟨last, hlast.within hwithin, htrail⟩

/-- A settled piece has all edges. -/
theorem of_settled (h : Follows e l e') : Follows settled l e' :=
  fun piece hpiece => h piece (hpiece.within e.within_settled)

theorem to_settled (h : Follows e l settled) (e' : Edge) : Follows e l e' :=
  h.weaken e'.within_settled

theorem append (h : Follows e l e') (h' : Follows e' l' e'') : Follows e (l ++ l') e'' := by
  intro piece hpiece
  obtain ⟨middle, hmiddle, htrail⟩ := h piece hpiece
  obtain ⟨last, hlast, htrail'⟩ := h' middle hmiddle
  exact ⟨last, hlast, htrail.append htrail'⟩

protected theorem empty (e : Edge) : Follows e empty e := fun piece hpiece => ⟨piece, hpiece, .nil⟩

protected theorem space (e : Edge) : Follows e space e := fun piece hpiece => ⟨piece, hpiece, .nil⟩

protected theorem newline (e : Edge) : Follows e newline e :=
  fun piece hpiece => ⟨piece, hpiece, .nil⟩

protected theorem indented (h : Follows e l e') : Follows e (indented l) e' := h

/-- A text that may stand behind an edge leads to its own one. -/
protected theorem text {s : String} (hs : e'.Holds s.toList) (hhead : e.allowsText s = true) :
    Follows e (text s) e' := by
  intro piece hpiece
  have hpieces : (text s).pieces = [s.toList] := by
    rw [Layout.pieces, if_neg hs.ne]
  rw [hpieces]
  refine ⟨s.toList, hs, .cons hs.toIsPiece (fun last hlast c hc hseparated => ?_) .nil⟩
  refine hpiece.splits c ((Option.all_eq_true _ _).1 hhead c hc) fun last' hlast' => ?_
  rw [Option.mem_unique hlast' hlast]
  exact hseparated

/-- A word, or a mark behind which there may be anything. -/
protected theorem fixed (s : String) (e' : Edge) (h : e.admits s = true) :
    Follows e (text s) e' := by
  obtain ⟨hs, hhead⟩ := Bool.and_eq_true_iff.1 h
  exact (Follows.text (settled_of_isSettled hs) hhead).to_settled e'

/-- Behind a mark a phrase begins. -/
protected theorem mark {k : TokenKind} (hk : k ∈ TokenKind.marks) (hpoint : k ≠ .dot)
    (h : e.allowsText k.spelling = true) : Follows e (text k.spelling) opening :=
  .text (opening_mark hk hpoint) h

/-! ### Parts of layouts -/

section

variable {print : NodeId → Layout} {shape? : NodeId → Option Shape} {parts : List NodeId}
  {part : Slot}

theorem wordIf (condition : Bool) (word : String) (h : e.admits word = true) :
    Follows e (Layout.wordIf condition word) e := by
  cases condition with
  | false => exact .empty e
  | true => exact (Follows.fixed word e h).append (.space e)

theorem markIf (condition : Bool) (mark : String) (h : e.admits mark = true) :
    Follows e (Layout.markIf condition mark) e := by
  cases condition with
  | false => exact .empty e
  | true => exact .fixed mark e h

/-- Behind the mark of a generator there is a name, something in brackets or an expression. -/
theorem star (condition : Bool) : Follows settled (Layout.markIf condition "*") opening := by
  cases condition with
  | false => exact (Follows.empty settled).to_settled opening
  | true => exact .mark (k := .star) (by decide) (by decide) (by decide)

theorem slot (h : ∀ p ∈ part.toList, Follows settled (print p) e') :
    Follows settled (Layout.slot print part) e' := by
  cases part with
  | none => exact (Follows.empty settled).to_settled e'
  | some p => exact h p (by simp)

theorem afterSpace (h : ∀ p ∈ part.toList, Follows settled (print p) e') :
    Follows settled (Layout.afterSpace print part) e' := by
  cases part with
  | none => exact (Follows.empty settled).to_settled e'
  | some p => exact (Follows.space settled).append (h p (by simp))

theorem initializer (h : ∀ p ∈ part.toList, Follows opening (print p) closing) :
    Follows closing (Layout.initializer print part) closing := by
  cases part with
  | none => exact .empty closing
  | some p =>
    have hsign : Follows closing (text "=") opening :=
      .mark (k := .assign) (by decide) (by decide) (by decide)
    exact (((Follows.space closing).append hsign).append (.space opening)).append (h p (by simp))

theorem separated (h : ∀ p ∈ parts, Follows settled (print p) closing) :
    Follows settled (Layout.separated (parts.map print)) closing := by
  induction parts with
  | nil => exact (Follows.empty settled).to_settled closing
  | cons p parts ih =>
    obtain ⟨hp, hparts⟩ := List.forall_mem_cons.1 h
    cases parts with
    | nil => exact hp
    | cons q parts =>
      have hcomma : Follows closing (text ",") settled := .fixed "," settled (by decide)
      exact ((hp.append hcomma).append (.space settled)).append (ih hparts)

theorem commaList (h : ∀ p ∈ parts, Follows settled (print p) closing) :
    Follows settled (Layout.commaList shape? print parts) closing :=
  (separated h).append (markIf _ "," (by decide))

theorem inParentheses (h : ∀ p ∈ parts, Follows settled (print p) closing) (he : e.admits "(" = true)
    (e' : Edge) : Follows e (Layout.inParentheses shape? print parts) e' :=
  ((Follows.fixed "(" settled he).append (commaList h)).append (.fixed ")" e' (by decide))

theorem inBrackets (h : ∀ p ∈ parts, Follows settled (print p) closing) (he : e.admits "[" = true)
    (e' : Edge) : Follows e (Layout.inBrackets shape? print parts) e' :=
  ((Follows.fixed "[" settled he).append (commaList h)).append (.fixed "]" e' (by decide))

/-- Braces with nothing in them are written in one piece. -/
theorem braces (he : e.admits "\x7b" = true) (e' : Edge) : Follows e (text "\x7b\x7d") e' := by
  have hopen : settled.Holds ['\x7b'] := settled_of_isSettled (s := "\x7b") (by decide)
  have hclose : settled.Holds ['\x7d'] := settled_of_isSettled (s := "\x7d") (by decide)
  have hbraces : settled.Holds ['\x7b', '\x7d'] :=
    @settled_append ['\x7b'] _ hclose fun c hc => hopen.splits c rfl fun last hlast => by
      obtain rfl := Option.some.inj hc
      obtain rfl := Option.some.inj hlast
      decide
  have hhead : e.allowsText "\x7b\x7d" = true := (Bool.and_eq_true_iff.1 he).2
  exact (Follows.text hbraces hhead).to_settled e'

theorem inBraces (h : ∀ p ∈ parts, Follows settled (print p) closing)
    (he : e.admits "\x7b" = true) (e' : Edge) : Follows e (Layout.inBraces shape? print parts) e' := by
  rw [Layout.inBraces]
  split
  · exact braces he e'
  · exact ((((Follows.fixed "\x7b" settled he).append (.space settled)).append
      (commaList h)).append (.space closing)).append (.fixed "\x7d" e' (by decide))

theorem lines (h : ∀ p ∈ parts, Follows settled (print p) settled) :
    Follows settled (Layout.lines print parts) settled := by
  induction parts with
  | nil => exact .empty settled
  | cons p parts ih =>
    obtain ⟨hp, hparts⟩ := List.forall_mem_cons.1 h
    exact (hp.append (.newline settled)).append (ih hparts)

theorem blockOf (h : ∀ p ∈ parts, Follows settled (print p) settled)
    (he : e.admits "\x7b" = true) (e' : Edge) : Follows e (Layout.blockOf print parts) e' := by
  rw [Layout.blockOf]
  split
  · exact braces he e'
  · exact (((Follows.fixed "\x7b" settled he).append (.newline settled)).append
      (lines h).indented).append (.fixed "\x7d" e' (by decide))

theorem keywordStatement (word : String) (hword : e.admits word = true)
    (h : ∀ p ∈ part.toList, Follows settled (print p) closing) (e' : Edge) :
    Follows e (Layout.keywordStatement print word part) e' :=
  ((Follows.fixed word settled hword).append (afterSpace h)).append (.fixed ";" e' (by decide))

theorem head (word : String) (hword : e.admits word = true)
    (h : ∀ p ∈ part.toList, Follows settled (print p) closing) :
    Follows e (Layout.head print word part) settled :=
  (((((Follows.fixed word settled hword).append (.space settled)).append
    (.fixed "(" settled (by decide))).append (slot h)).append
      (.fixed ")" settled (by decide))).append (.space settled)

end

end Follows

end FunctionNaming
