import FunctionNaming.Proofs.Token.Reading
import Mathlib.Data.Nat.Find
import Mathlib.Data.List.Chain
import Mathlib.Logic.Function.Iterate

/-!
How the tokens of a script lie in its text: one behind the other, from the first character to the
last, with nothing between two of them but white space, line breaks and comments. Whatever stands in
the text, the scanner comes to its end, and stays there.

A gap is described piece by piece. Which piece a text begins with is decided by its first characters,
and where a comment ends by what follows it, so the description follows the modes in which a gap is
read.
-/

namespace FunctionNaming

theorem Text.utf8ByteSize_ofList (cs : List Char) : (String.ofList cs).utf8ByteSize = width cs := by
  induction cs with
  | nil => rfl
  | cons c cs ih =>
    rw [← List.singleton_append, String.ofList_append, String.utf8ByteSize_append, ih, width_append]
    simp

theorem Text.width_toList (s : String) : width s.toList = s.utf8ByteSize := by
  rw [← utf8ByteSize_ofList, String.ofList_toList]

/-- That an offset lies between characters of a text, or at one of its ends. -/
def Text.IsBoundary (cs : List Char) (n : Nat) : Prop :=
  ∃ before after, cs = before ++ after ∧ n = width before

theorem Text.IsBoundary.le {cs : List Char} {n : Nat} (h : IsBoundary cs n) : n ≤ width cs := by
  obtain ⟨before, after, rfl, rfl⟩ := h
  rw [width_append]
  exact Nat.le_add_right _ _

/-- A piece of what may stand between two tokens. -/
inductive GapPiece where
  | lineBreak (c : Char)
  | space (c : Char)
  | lineComment (body : List Char)
  | blockComment (body : List Char)

namespace GapPiece

def text : GapPiece → List Char
  | lineBreak c | space c => [c]
  | lineComment body => '/' :: '/' :: body
  | blockComment body => '/' :: '*' :: (body ++ ['*', '/'])

/-- Whether a line ends in the piece. -/
def breaksLine : GapPiece → Bool
  | lineBreak _ => true
  | blockComment body => body.any isLineBreak
  | _ => false

/-- That the piece is what it is called, where `after` follows it: a comment to the end of the line
reaches that end, and a block comment is not closed before its own end. -/
def StandsBefore (after : List Char) : GapPiece → Prop
  | lineBreak c => isLineBreak c = true
  | space c => isSpace c = true ∧ isLineBreak c = false
  | lineComment body =>
    (∀ c ∈ body, isLineBreak c = false) ∧ ∀ c ∈ after.head?, isLineBreak c = true
  | blockComment body => ¬['*', '/'] <:+: body

end GapPiece

/-- What stands between two tokens: pieces and, behind the last token only, perhaps the inside of a
block comment that is never closed. -/
structure GapText where
  pieces : List GapPiece
  unclosed : Option (List Char)

namespace GapText

/-- The text of all pieces. -/
def closedText (t : GapText) : List Char := t.pieces.flatMap GapPiece.text

/-- The text of the comment that is not closed. -/
def unclosedText (t : GapText) : List Char :=
  match t.unclosed with
  | some body => '/' :: '*' :: body
  | none => []

def text (t : GapText) : List Char := t.closedText ++ t.unclosedText

/-- Whether a line ends in one of the pieces. -/
def breaksLine (t : GapText) : Bool := t.pieces.any GapPiece.breaksLine

/-- The gap with one more piece in front. -/
def cons (p : GapPiece) (t : GapText) : GapText := { t with pieces := p :: t.pieces }

@[simp] theorem closedText_cons (p : GapPiece) (t : GapText) :
    (t.cons p).closedText = p.text ++ t.closedText := by
  simp [cons, closedText]

@[simp] theorem unclosedText_cons (p : GapPiece) (t : GapText) :
    (t.cons p).unclosedText = t.unclosedText := rfl

@[simp] theorem text_cons (p : GapPiece) (t : GapText) : (t.cons p).text = p.text ++ t.text := by
  simp [text]

@[simp] theorem breaksLine_cons (p : GapPiece) (t : GapText) :
    (t.cons p).breaksLine = (p.breaksLine || t.breaksLine) := rfl

/-- That each of the pieces is what it is called, where `after` follows the last of them. -/
def PiecesStandBefore (after : List Char) : List GapPiece → Prop
  | [] => True
  | p :: ps => p.StandsBefore (ps.flatMap GapPiece.text ++ after) ∧ PiecesStandBefore after ps

/-- That all of the gap is what it is called, where `after` follows it: nothing follows a comment that
is not closed. -/
structure StandsBefore (t : GapText) (after : List Char) : Prop where
  pieces : PiecesStandBefore (t.unclosedText ++ after) t.pieces
  unclosed : ∀ body, t.unclosed = some body → ¬['*', '/'] <:+: body ∧ after = []

/-! ### Reading gaps -/

/-- That `t` is the text that was read with the result `gap`. -/
structure IsRead (t : GapText) (offset : Nat) (broken : Bool) (cs : List Char) (gap : Gap) :
    Prop where
  standsBefore : t.StandsBefore gap.rest
  text_eq : cs = t.text ++ gap.rest
  offset_eq : gap.offset = offset + Text.width t.text
  lineBreak_eq : gap.lineBreak = (broken || t.breaksLine)
  unclosed_eq : gap.unclosed = t.unclosed.map fun _ => offset + Text.width t.closedText

theorem isRead_nil (offset : Nat) (broken : Bool) (cs : List Char) :
    IsRead ⟨[], none⟩ offset broken cs ⟨cs, offset, broken, none⟩ where
  standsBefore := ⟨trivial, nofun⟩
  text_eq := rfl
  offset_eq := rfl
  lineBreak_eq := (Bool.or_false broken).symm
  unclosed_eq := rfl

/-- A comment that is not closed is read to the end. -/
theorem isRead_unclosed {body : List Char} (h : ¬['*', '/'] <:+: body) (offset : Nat)
    (broken : Bool) :
    IsRead ⟨[], some body⟩ offset broken ('/' :: '*' :: body)
      ⟨[], offset + 2 + Text.width body, broken, some offset⟩ where
  standsBefore := ⟨trivial, fun _ hbody => Option.some.inj hbody ▸ ⟨h, rfl⟩⟩
  text_eq := (List.append_nil _).symm
  offset_eq := by
    show offset + 2 + Text.width body = offset + (1 + (1 + Text.width body))
    omega
  lineBreak_eq := (Bool.or_false broken).symm
  unclosed_eq := rfl

theorem IsRead.cons {t : GapText} {p : GapPiece} {offset : Nat} {broken : Bool} {cs : List Char}
    {gap : Gap} (hp : p.StandsBefore cs)
    (h : t.IsRead (offset + Text.width p.text) (broken || p.breaksLine) cs gap) :
    (t.cons p).IsRead offset broken (p.text ++ cs) gap where
  standsBefore := by
    refine ⟨⟨?_, h.standsBefore.pieces⟩, h.standsBefore.unclosed⟩
    have hcs := h.text_eq
    rw [GapText.text, closedText, List.append_assoc] at hcs
    exact hcs ▸ hp
  text_eq := by
    rw [h.text_eq, text_cons, List.append_assoc]
  offset_eq := by
    rw [h.offset_eq, text_cons, Text.width_append, Nat.add_assoc]
  lineBreak_eq := by
    rw [h.lineBreak_eq, breaksLine_cons, Bool.or_assoc]
  unclosed_eq := by
    rw [h.unclosed_eq, closedText_cons, Text.width_append]
    simp only [Nat.add_assoc]
    rfl

end GapText

/-- What is read in each of the modes: outside comments a gap, and inside a comment its end first, if
it has one. -/
def GapMode.Reads (offset : Nat) (broken : Bool) (cs : List Char) (gap : Gap) : GapMode → Prop
  | .outside => ∃ t : GapText, t.IsRead offset broken cs gap
  | .lineComment => ∃ (body after : List Char) (t : GapText), cs = body ++ after ∧
      (GapPiece.lineComment body).StandsBefore after ∧
      t.IsRead (offset + Text.width body) broken after gap
  | .blockComment start broken' =>
    (∃ (body after : List Char) (t : GapText), cs = body ++ '*' :: '/' :: after ∧
      (GapPiece.blockComment body).StandsBefore after ∧
      t.IsRead (offset + (Text.width body + 2)) (broken || (broken' || body.any isLineBreak)) after
        gap) ∨
      ¬['*', '/'] <:+: cs ∧ gap = ⟨[], offset + Text.width cs, broken, some start⟩

/-- The end of a comment that a character does not begin is not in the text behind it either. -/
theorem not_infix_cons {c : Char} {cs : List Char} (hend : ∀ cs', c = '*' → cs = '/' :: cs' → False)
    (h : ¬['*', '/'] <:+: cs) : ¬['*', '/'] <:+: c :: cs := by
  intro hinfix
  rcases List.infix_cons_iff.1 hinfix with hprefix | hinfix
  · obtain ⟨hc, cs', hcs⟩ := List.cons_prefix_cons.1 hprefix
    exact hend cs' hc.symm hcs.symm
  · exact h hinfix

theorem Gap.reads_readFrom (offset : Nat) (broken : Bool) (mode : GapMode) (cs : List Char) :
    mode.Reads offset broken cs (readFrom offset broken mode cs) := by
  fun_induction readFrom offset broken mode cs with
  | case1 => exact .inr ⟨by simp, rfl⟩
  | case2 o b mode hmode =>
    cases mode with
    | outside => exact ⟨_, GapText.isRead_nil o b []⟩
    | lineComment =>
      exact ⟨[], [], _, rfl, by simp [GapPiece.StandsBefore], GapText.isRead_nil o b []⟩
    | blockComment start broken => exact absurd rfl (hmode start broken)
  | case3 o b c cs hbreak ih =>
    obtain ⟨t, ht⟩ := ih
    refine ⟨[], c :: cs, t.cons (.lineBreak c), rfl, by simpa [GapPiece.StandsBefore] using hbreak, ?_⟩
    refine GapText.IsRead.cons (p := .lineBreak c) hbreak ?_
    simpa [GapPiece.text, GapPiece.breaksLine] using ht
  | case4 o b c cs hbreak ih =>
    obtain ⟨body, after, t, rfl, ⟨hbody, hafter⟩, ht⟩ := ih
    refine ⟨c :: body, after, t, rfl, ⟨List.forall_mem_cons.2 ⟨?_, hbody⟩, hafter⟩, ?_⟩
    · exact Bool.eq_false_iff.2 hbreak
    · simpa [Nat.add_assoc] using ht
  | case5 o b start broken cs ih =>
    obtain ⟨t, ht⟩ := ih
    exact .inl ⟨[], cs, t, rfl, by simp [GapPiece.StandsBefore], by simpa using ht⟩
  | case6 o b start broken c cs hend ih =>
    rcases ih with ⟨body, after, t, rfl, hbody, ht⟩ | ⟨hcs, hgap⟩
    · refine .inl ⟨c :: body, after, t, rfl, ?_, ?_⟩
      · exact not_infix_cons (fun cs hc hcs => hend _ hc (by rw [hcs, List.cons_append])) hbody
      · simpa [Nat.add_assoc, Bool.or_assoc] using ht
    · refine .inr ⟨not_infix_cons hend hcs, ?_⟩
      rw [hgap, Text.width_cons, Nat.add_assoc]
  | case7 o b cs ih =>
    obtain ⟨body, after, t, rfl, hbody, ht⟩ := ih
    refine ⟨t.cons (.lineComment body), GapText.IsRead.cons (p := .lineComment body) hbody ?_⟩
    have hwidth : Text.width (GapPiece.lineComment body).text = 2 + Text.width body := by
      show 1 + (1 + Text.width body) = _
      omega
    rw [hwidth, ← Nat.add_assoc]
    simpa [GapPiece.breaksLine] using ht
  | case8 o b cs ih =>
    rcases ih with ⟨body, after, t, rfl, hbody, ht⟩ | ⟨hcs, hgap⟩
    · have hwidth : Text.width (GapPiece.blockComment body).text = 2 + (Text.width body + 2) := by
        rw [GapPiece.text, Text.width_cons, Text.width_cons, Text.width_append]
        show 1 + (1 + (Text.width body + 2)) = _
        omega
      have htext : '/' :: '*' :: (body ++ '*' :: '/' :: after) =
          (GapPiece.blockComment body).text ++ after := by
        simp [GapPiece.text]
      rw [htext]
      refine ⟨t.cons (.blockComment body), GapText.IsRead.cons (p := .blockComment body) hbody ?_⟩
      rw [hwidth, ← Nat.add_assoc]
      simpa [GapPiece.breaksLine] using ht
    · rw [hgap]
      exact ⟨_, GapText.isRead_unclosed hcs o b⟩
  | case9 o b c cs hline hblock hbreak ih =>
    obtain ⟨t, ht⟩ := ih
    refine ⟨t.cons (.lineBreak c), GapText.IsRead.cons (p := .lineBreak c) hbreak ?_⟩
    simpa [GapPiece.text, GapPiece.breaksLine] using ht
  | case10 o b c cs hline hblock hbreak hspace ih =>
    obtain ⟨t, ht⟩ := ih
    refine ⟨t.cons (.space c), GapText.IsRead.cons (p := .space c) ⟨hspace, ?_⟩ ?_⟩
    · exact Bool.eq_false_iff.2 hbreak
    · simpa [GapPiece.text, GapPiece.breaksLine] using ht
  | case11 o b c cs hline hblock hbreak hspace => exact ⟨_, GapText.isRead_nil o b _⟩

/-! ### Tokens behind one another -/

/-- That `token` lies in `source` behind `previous`, and nothing but a gap between them. Here `before`
is what of the source ends with `previous`, and `after` is what begins behind `token`. -/
structure Token.LiesBehind (source before : List Char) (gap : GapText) (after : List Char)
    (previous token : Token) : Prop where
  source_eq : source = before ++ gap.text ++ token.text.toList ++ after
  previous_stop : previous.stop = Text.width before
  start_eq : token.start = Text.width (before ++ gap.text)
  standsBefore : gap.StandsBefore (token.text.toList ++ after)
  afterLineBreak_eq : token.afterLineBreak = gap.breaksLine

namespace Scanner

/-- That a scanner stands in a text behind the token that it has read. -/
structure StandsIn (source : List Char) (s : Scanner) : Prop where
  exists_before : ∃ before, source = before ++ s.rest ∧ s.offset = Text.width before
  stop_eq : s.token.stop = s.offset

theorem standsIn_start (source : List Char) : (Scanner.start source).StandsIn source where
  exists_before := ⟨[], rfl, rfl⟩
  stop_eq := rfl

theorem kind_scan_eq_endOfFile_iff (s : Scanner) :
    s.scan.token.kind = .endOfFile ↔ (Gap.read s.offset s.rest).rest = [] := by
  show (Lexeme.read (Gap.read s.offset s.rest).offset (Gap.read s.offset s.rest).rest).kind =
    .endOfFile ↔ _
  cases (Gap.read s.offset s.rest).rest with
  | nil => exact iff_of_true rfl rfl
  | cons c cs => exact iff_of_false (Lexeme.read_cons _ c cs).1 (List.cons_ne_nil c cs)

/-- One call of the scanner: the token that it reads lies behind the token before, and the scanner
behind that token. -/
theorem StandsIn.scan {source : List Char} {s : Scanner} (h : s.StandsIn source) :
    s.scan.StandsIn source ∧ ∃ before gap after,
      Token.LiesBehind source before gap after s.token s.scan.token ∧
      ∀ body, gap.unclosed = some body → after = [] ∧
        ⟨Text.width (before ++ gap.closedText), Text.width gap.unclosedText, .unterminatedComment⟩ ∈
          s.scan.faults.toList := by
  obtain ⟨⟨before, hsource, hoffset⟩, hstop⟩ := h
  obtain ⟨t, ht⟩ : GapMode.outside.Reads s.offset false s.rest (Gap.read s.offset s.rest) :=
    Gap.reads_readFrom s.offset false .outside s.rest
  have htext : s.scan.token.text.toList ++ s.scan.rest = (Gap.read s.offset s.rest).rest := by
    show (String.ofList (List.take _ _)).toList ++ List.drop _ _ = _
    rw [String.toList_ofList, List.take_append_drop]
  have hstart : s.scan.token.start = Text.width (before ++ t.text) := by
    rw [Text.width_append, ← hoffset, ← ht.offset_eq]
    rfl
  have hsplit : source = before ++ t.text ++ s.scan.token.text.toList ++ s.scan.rest := by
    rw [hsource, List.append_assoc, List.append_assoc, htext, ← ht.text_eq]
  have hend : s.scan.token.stop = s.scan.offset := by
    show (Gap.read s.offset s.rest).offset + (String.ofList (List.take _ _)).utf8ByteSize = _
    rw [Text.utf8ByteSize_ofList]
    rfl
  constructor
  · refine ⟨⟨_, hsplit, ?_⟩, hend⟩
    rw [← hend, Token.stop, hstart, Text.width_append _ s.scan.token.text.toList,
      Text.width_toList]
  · refine ⟨before, t, s.scan.rest, ⟨hsplit, hstop.trans hoffset, hstart, ?_, ?_⟩, ?_⟩
    · rw [htext]
      exact ht.standsBefore
    · exact ht.lineBreak_eq.trans (Bool.false_or _)
    · intro body hbody
      have hnil := (ht.standsBefore.unclosed body hbody).2
      rw [hnil, List.append_eq_nil_iff] at htext
      refine ⟨htext.2, ?_⟩
      have hunclosed := ht.unclosed_eq
      rw [hbody, Option.map_some] at hunclosed
      have hlength : Text.width t.unclosedText = (Gap.read s.offset s.rest).offset -
          (s.offset + Text.width t.closedText) := by
        rw [ht.offset_eq, GapText.text, Text.width_append]
        omega
      rw [Text.width_append, ← hoffset, hlength]
      simp [Scanner.scan, gapFaults, hunclosed]

/-- Only the end has no text. -/
theorem start_lt_stop_of_kind_ne {s : Scanner} (h : s.scan.token.kind ≠ .endOfFile) :
    s.scan.token.start < s.scan.token.stop := by
  rw [ne_eq, kind_scan_eq_endOfFile_iff] at h
  show (Gap.read s.offset s.rest).offset < (Gap.read s.offset s.rest).offset +
    (String.ofList (List.take _ _)).utf8ByteSize
  rw [Text.utf8ByteSize_ofList]
  refine Nat.lt_add_of_pos_right (Text.width_pos ?_)
  obtain ⟨c, cs, hcs⟩ := List.exists_cons_of_ne_nil h
  rw [hcs, ne_eq, List.take_eq_nil_iff, not_or]
  exact ⟨Nat.ne_of_gt (Lexeme.read_cons _ c cs).2, List.cons_ne_nil c cs⟩

/-- The end is not left. -/
theorem scan_of_kind_eq_endOfFile {s : Scanner} (h : s.scan.token.kind = .endOfFile) :
    s.scan.token.text = "" ∧ s.scan.rest = [] ∧ s.scan.scan.token.kind = .endOfFile := by
  rw [kind_scan_eq_endOfFile_iff] at h
  have hrest : s.scan.rest = [] := by
    show List.drop _ (Gap.read s.offset s.rest).rest = []
    rw [h, List.drop_nil]
  refine ⟨?_, hrest, ?_⟩
  · show String.ofList (List.take _ (Gap.read s.offset s.rest).rest) = ""
    rw [h, List.take_nil]
  · rw [kind_scan_eq_endOfFile_iff, hrest]
    rfl

/-! ### Lists of tokens -/

/-- That tokens stand between characters of a text, one behind the other, and that the end has no
text but the others have one. -/
structure Spaces (source : List Char) (tokens : List Token) : Prop where
  chain : tokens.IsChain fun t u => t.start < t.stop ∧ t.stop ≤ u.start
  boundaries : ∀ t ∈ tokens, Text.IsBoundary source t.start ∧ Text.IsBoundary source t.stop
  stop_of_kind : ∀ t ∈ tokens, t.kind = .endOfFile → t.stop = t.start

theorem StandsIn.boundary {source : List Char} {s : Scanner} (h : s.StandsIn source) :
    Text.IsBoundary source s.token.stop := by
  obtain ⟨⟨before, hsource, hoffset⟩, hstop⟩ := h
  exact ⟨before, s.rest, hsource, hstop.trans hoffset⟩

/-- The next token stands between characters, and not before the last one ends. -/
theorem StandsIn.start_scan {source : List Char} {s : Scanner} (h : s.StandsIn source) :
    s.token.stop ≤ s.scan.token.start ∧ Text.IsBoundary source s.scan.token.start := by
  obtain ⟨-, before, gap, after, hlies, -⟩ := h.scan
  refine ⟨?_, before ++ gap.text, s.scan.token.text.toList ++ after, ?_, hlies.start_eq⟩
  · rw [hlies.previous_stop, hlies.start_eq, Text.width_append]
    exact Nat.le_add_right _ _
  · rw [hlies.source_eq, List.append_assoc]

theorem StandsIn.spaces_readTokens {source : List Char} (limit : Nat) {s : Scanner}
    (h : s.StandsIn source) :
    Spaces source (readTokens limit s).1 ∧
      ∀ t ∈ (readTokens limit s).1.head?, s.token.stop ≤ t.start := by
  induction limit generalizing s with
  | zero =>
    have hnone : ∀ t, t ∉ (readTokens 0 s).1 := fun _ => List.not_mem_nil
    exact ⟨⟨.nil, fun t ht => absurd ht (hnone t), fun t ht => absurd ht (hnone t)⟩,
      fun t ht => absurd ht (Option.not_mem_none t)⟩
  | succ limit ih =>
    obtain ⟨hle, hstart⟩ := h.start_scan
    have hstop := h.scan.1.boundary
    rw [readTokens]
    split
    · next hkind =>
      have hend : s.scan.token.stop = s.scan.token.start := by
        rw [Token.stop, (scan_of_kind_eq_endOfFile hkind).1]
        rfl
      refine ⟨⟨.singleton _, ?_, ?_⟩, ?_⟩
      · simpa using ⟨hstart, hstop⟩
      · simpa using fun _ => hend
      · simpa using hle
    · next hkind =>
      obtain ⟨⟨hchain, hboundaries, hends⟩, hnext⟩ := ih h.scan.1
      have hlt := start_lt_stop_of_kind_ne hkind
      refine ⟨⟨?_, ?_, ?_⟩, ?_⟩
      · exact List.isChain_cons.2 ⟨fun t ht => ⟨hlt, hnext t ht⟩, hchain⟩
      · exact List.forall_mem_cons.2 ⟨⟨hstart, hstop⟩, hboundaries⟩
      · exact List.forall_mem_cons.2 ⟨fun h => absurd h hkind, hends⟩
      · simpa using hle

/-! ### All tokens -/

/-- What the scanner makes of a text in `count` calls. -/
def afterCalls (source : String) (count : Nat) : Scanner := Scanner.scan^[count] (.start source.toList)

theorem afterCalls_succ (source : String) (count : Nat) :
    afterCalls source (count + 1) = (afterCalls source count).scan :=
  Function.iterate_succ_apply' Scanner.scan count _

theorem standsIn_afterCalls (source : String) (count : Nat) :
    (afterCalls source count).StandsIn source.toList := by
  induction count with
  | zero => exact standsIn_start _
  | succ count ih =>
    rw [afterCalls_succ]
    exact ih.scan.1

/-- The tokens of a script are those that one call of the scanner after the other gives. -/
theorem getElem?_readTokens (limit : Nat) (s : Scanner) (i : Nat) :
    ∀ token ∈ (readTokens limit s).1[i]?, token = (scan^[i + 1] s).token := by
  induction limit generalizing s i with
  | zero => simp [readTokens]
  | succ limit ih =>
    rw [readTokens]
    cases i with
    | zero => split <;> simp
    | succ i =>
      split
      · simp
      · exact ih s.scan i

/-- That the tokens which one call of the scanner after the other gives, the first `count` of which are
not the end, tile a text. -/
structure Tiles (source : String) (count : Nat) : Prop where
  /-- The end is reached after `count` tokens and never left. -/
  atEnd : ∀ i, (afterCalls source (i + 1)).token.kind = .endOfFile ↔ count ≤ i
  /-- The end has no text and stands behind the last character. -/
  stop : ∀ i, count ≤ i → (afterCalls source (i + 1)).token.start = source.utf8ByteSize ∧
    (afterCalls source (i + 1)).token.stop = source.utf8ByteSize
  /-- All other tokens have a text. -/
  nonempty : ∀ i, i < count →
    (afterCalls source (i + 1)).token.start < (afterCalls source (i + 1)).token.stop
  /-- A token lies behind the one before, or behind the beginning of the text, and nothing but a gap
  between them. A comment that is not closed leaves nothing behind it, and is reported. -/
  place : ∀ i, ∃ before gap after, Token.LiesBehind source.toList before gap after
      (afterCalls source i).token (afterCalls source (i + 1)).token ∧
    ∀ body, gap.unclosed = some body → after = [] ∧
      ⟨Text.width (before ++ gap.closedText), Text.width gap.unclosedText, .unterminatedComment⟩ ∈
        (afterCalls source (i + 1)).faults.toList

theorem exists_kind_afterCalls_eq_endOfFile (source : String) :
    ∃ i, (afterCalls source (i + 1)).token.kind = .endOfFile := by
  by_contra hnone
  have hnever : ∀ i, (afterCalls source (i + 1)).token.kind ≠ .endOfFile := not_exists.1 hnone
  have hlength : ∀ i, (afterCalls source i).rest.length + i ≤ source.toList.length := by
    intro i
    induction i with
    | zero => exact Nat.le_refl _
    | succ i ih =>
      have hlt := length_scan_lt (afterCalls_succ source i ▸ hnever i)
      rw [afterCalls_succ]
      omega
  have hlast := hlength (source.toList.length + 1)
  omega

/-- The tokens of a text tile it. -/
theorem exists_tiles (source : String) : ∃ count, Tiles source count := by
  classical
  have hexists := exists_kind_afterCalls_eq_endOfFile source
  have hend : ∀ i, Nat.find hexists ≤ i → (afterCalls source (i + 1)).token.kind = .endOfFile := by
    intro i hi
    induction i, hi using Nat.le_induction with
    | base => exact Nat.find_spec hexists
    | succ i _ ih =>
      rw [afterCalls_succ] at ih
      rw [afterCalls_succ, afterCalls_succ]
      exact (scan_of_kind_eq_endOfFile ih).2.2
  have hbefore : ∀ i, i < Nat.find hexists →
      (afterCalls source (i + 1)).token.kind ≠ .endOfFile := fun i hi => Nat.find_min hexists hi
  refine ⟨Nat.find hexists, ⟨fun i => ⟨fun hi => ?_, hend i⟩, fun i hi => ?_, fun i hi => ?_, ?_⟩⟩
  · exact Nat.le_of_not_lt fun hlt => hbefore i hlt hi
  · have hkind := hend i hi
    obtain ⟨⟨before, hsource, hoffset⟩, hstop⟩ := standsIn_afterCalls source (i + 1)
    rw [afterCalls_succ] at hkind hsource hoffset hstop ⊢
    obtain ⟨htext, hrest, -⟩ := scan_of_kind_eq_endOfFile hkind
    have hsize : (afterCalls source i).scan.token.stop = source.utf8ByteSize := by
      rw [hrest, List.append_nil] at hsource
      rw [hstop, hoffset, ← hsource, Text.width_toList]
    refine ⟨?_, hsize⟩
    rw [← hsize, Token.stop, htext]
    rfl
  · have hkind := hbefore i hi
    rw [afterCalls_succ] at hkind ⊢
    exact start_lt_stop_of_kind_ne hkind
  · intro i
    rw [afterCalls_succ]
    exact (standsIn_afterCalls source i).scan.2

end Scanner

end FunctionNaming
