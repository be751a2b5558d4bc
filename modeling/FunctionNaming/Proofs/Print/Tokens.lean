import FunctionNaming.Proofs.Print.Inserted

/-!
The tokens of output that is cut where functions have their names. A name is a token of its own there,
whatever it is: it stands between the word of a function, with which it cannot be read together, and a
parenthesis. So the tokens of two editions are the same but for the names.
-/

namespace FunctionNaming

/-- The kind and the value of a token. -/
abbrev Reading := TokenKind × String

namespace Reading

/-- The word of a function. -/
def function : Reading := (.functionKeyword, "function")

/-- The mark of a generator. -/
def star : Reading := (.star, "")

/-- The parenthesis before the parameters. -/
def parenthesis : Reading := (.openParen, "")

/-- The token of a name. -/
def ofName (name : String) : Reading := wordReading name.toList

end Reading

/-- That tokens are cut where the names of functions stand: behind the word of a function, perhaps
with the mark of a generator, and before a parenthesis. -/
structure CutAtNames (pieces : List (List Reading)) : Prop where
  ends : ∀ piece ∈ pieces.dropLast,
    [Reading.function] <:+ piece ∨ [Reading.function, Reading.star] <:+ piece
  begins : ∀ piece ∈ pieces.tail, piece.head? = some Reading.parenthesis

/-- The tokens of pieces, with the names of functions between them. -/
def withNames : List (List Reading) → List (Option String) → List Reading
  | piece :: pieces, name :: names =>
    piece ++ (name.map Reading.ofName).toList ++ withNames pieces names
  | pieces, _ => pieces.flatten

/-! ### Single pieces -/

theorem readings_parenthesis (rest : List Char) :
    readings ('(' :: rest) = Reading.parenthesis :: readings rest := by
  have hread : Lexeme.read 0 ('(' :: rest) = ⟨.openParen, 1, [], []⟩ := by
    have hnumber : Lexeme.startsNumber ('(' :: rest) = false := rfl
    have hmark : TokenKind.mark? ('(' :: rest) = some .openParen := by
      simp [TokenKind.mark?, TokenKind.marks, TokenKind.spelling, List.find?, List.isPrefixOf]
    rw [Lexeme.read, if_neg (by decide), if_neg (by simp [hnumber]), if_neg (by decide), hmark]
    rfl
  rw [readings_cons (by decide) (fun h => by cases h), hread]
  rfl

theorem head?_of_isWord {word : List Char} (h : isWord word = true) (rest : List Char) :
    ∃ c, (word ++ rest).head? = some c ∧ isWordStart c = true := by
  cases word with
  | nil => cases h
  | cons c cs => exact ⟨c, rfl, (Bool.and_eq_true_iff.1 h).1⟩

/-- A name and what follows it, behind the word of a function. -/
theorem readings_gap {piece gap rest : List Char} {name : Option String}
    (h : Spaced piece name gap) (hrest : rest.head? = some '(') :
    readings (gap ++ rest) = (name.map Reading.ofName).toList ++ readings rest ∧
      (gap ++ rest).head? ≠ some '=' ∧
      (piece.getLast? ≠ some '*' → ∀ c ∈ (gap ++ rest).head?, isWordPart c = false) := by
  have hparen : ∀ c ∈ rest.head?, isWordPart c = false := by
    rw [hrest]
    rintro c ⟨rfl⟩
    decide
  cases h with
  | none => exact ⟨rfl, by simp [hrest], fun _ => hparen⟩
  | space name hword =>
    refine ⟨?_, by simp, ?_⟩
    · rw [List.cons_append, readings_of_isGap (by decide), readings_word hword hparen]
      rfl
    · rintro - c ⟨rfl⟩
      decide
  | star name hword hstar =>
    refine ⟨readings_word hword hparen, ?_, fun hnot => absurd hstar hnot⟩
    obtain ⟨c, hc, hstart⟩ := head?_of_isWord hword rest
    rw [hc]
    rintro ⟨rfl⟩
    revert hstart
    decide

/-- The tokens of a piece end with those of the word of a function, and then comes the name. -/
theorem readings_piece {piece gap rest : List Char} {name : Option String}
    (hpiece : EndsInFunction piece) (h : Spaced piece name gap) (hrest : rest.head? = some '(') :
    readings (piece ++ (gap ++ rest)) =
        (readings piece).dropLast ++ (name.map Reading.ofName).toList ++ readings rest ∧
      ([Reading.function] <:+ (readings piece).dropLast ∨
        [Reading.function, Reading.star] <:+ (readings piece).dropLast) := by
  obtain ⟨hgap, hassign, hword⟩ := readings_gap h hrest
  obtain ⟨before, hcalm, hlast, rfl | rfl⟩ := hpiece
  · have hpart := hword (by simp)
    have hpiece : readings (before ++ "function".toList) =
        (readings before).dropLast ++ [Reading.function, (.endOfFile, "")] := by
      rw [readings_append hcalm hlast rfl, ← List.append_nil "function".toList,
        readings_function (by simp)]
      rfl
    have hdrop : (readings (before ++ "function".toList)).dropLast =
        (readings before).dropLast ++ [Reading.function] := by
      rw [hpiece, List.dropLast_append_of_ne_nil (by simp)]
      rfl
    refine ⟨?_, .inl ?_⟩
    · rw [List.append_assoc, readings_append hcalm hlast rfl, readings_function hpart, hgap, hdrop]
      simp [Reading.function]
    · rw [hdrop]
      exact List.suffix_append _ _
  · have hstar : ∀ rest : List Char, before ++ "function*".toList ++ rest =
        before ++ ("function".toList ++ '*' :: rest) := by simp
    have hpart : ∀ c ∈ ('*' :: (gap ++ rest)).head?, isWordPart c = false := by
      rintro c ⟨rfl⟩
      decide
    have hpart' : ∀ c ∈ ['*'].head?, isWordPart c = false := by
      rintro c ⟨rfl⟩
      decide
    have hpiece : readings (before ++ "function*".toList) =
        (readings before).dropLast ++ [Reading.function, Reading.star, (.endOfFile, "")] := by
      rw [← List.append_nil (before ++ _), hstar, readings_append hcalm hlast rfl,
        readings_function hpart', readings_star (by simp)]
      rfl
    have hdrop : (readings (before ++ "function*".toList)).dropLast =
        (readings before).dropLast ++ [Reading.function, Reading.star] := by
      rw [hpiece, List.dropLast_append_of_ne_nil (by simp)]
      rfl
    refine ⟨?_, .inr ?_⟩
    · rw [hstar, readings_append hcalm hlast rfl, readings_function hpart, readings_star hassign,
        hgap, hdrop]
      simp [Reading.function, Reading.star]
    · rw [hdrop]
      exact List.suffix_append _ _

/-! ### Whole outputs -/

theorem Filled.length_eq {pieces : List (List Char)} {names : List (Option String)}
    {text : List Char} (h : Filled pieces names text) : pieces.length = names.length := by
  induction h with
  | nil => rfl
  | snoc _ _ ih => simp [ih]

theorem withNames_append {pieces pieces' : List (List Reading)} {names names' : List (Option String)}
    (h : pieces.length = names.length) :
    withNames (pieces ++ pieces') (names ++ names') =
      withNames pieces names ++ withNames pieces' names' := by
  induction pieces generalizing names with
  | nil =>
    obtain rfl := List.length_eq_zero_iff.1 h.symm
    simp [withNames]
  | cons piece pieces ih =>
    cases names with
    | nil => cases h
    | cons name names => simp [withNames, ih (Nat.succ.inj h)]

/-- The tokens of a text without its end. -/
def pieceReadings (piece : List Char) : List Reading := (readings piece).dropLast

/-- The tokens of a text that consists of pieces: a name stands between two of them. -/
theorem readings_filled {pieces : List (List Char)} {names : List (Option String)}
    {text rest : List Char} (h : Filled pieces names text)
    (hends : ∀ piece ∈ pieces, EndsInFunction piece)
    (hbegins : ∀ piece ∈ (pieces ++ [rest]).tail, piece.head? = some '(') :
    readings (text ++ rest) = withNames (pieces.map pieceReadings) names ++ readings rest := by
  induction h generalizing rest with
  | nil => rfl
  | @snoc pieces names text piece gap name hfilled hspaced ih =>
    rw [List.forall_mem_append] at hends
    have hrest : rest.head? = some '(' := by
      apply hbegins
      cases pieces <;> simp
    have hpiece := (readings_piece (hends.2 piece List.mem_cons_self) hspaced hrest).1
    have hbegins' : ∀ p ∈ (pieces ++ [piece ++ (gap ++ rest)]).tail, p.head? = some '(' := by
      cases pieces with
      | nil => simp
      | cons first pieces =>
        intro p hp
        rw [List.cons_append, List.tail_cons, List.mem_append, List.mem_singleton] at hp
        rcases hp with hp | rfl
        · exact hbegins p (by simp [hp])
        · rw [List.head?_append, hbegins piece (by simp)]
          rfl
    rw [List.append_assoc, List.append_assoc, ih hends.1 hbegins', hpiece, List.map_append,
      withNames_append (by simpa using hfilled.length_eq)]
    simp [withNames, pieceReadings]

/-- The pieces of an output are cut where names stand. -/
theorem cutAtNames_of_filled {pieces : List (List Char)} {rest : List Char}
    (hends : ∀ piece ∈ pieces, EndsInFunction piece)
    (hbegins : ∀ piece ∈ (pieces ++ [rest]).tail, piece.head? = some '(') :
    CutAtNames (pieces.map pieceReadings ++ [readings rest]) where
  ends := by
    rw [List.dropLast_concat]
    have hrest : ['('].head? = some '(' := rfl
    exact List.forall_mem_map.2 fun piece hpiece => (readings_piece (hends piece hpiece) .none hrest).2
  begins := by
    have hparenthesis : ∀ piece : List Char, piece.head? = some '(' →
        (readings piece).head? = some Reading.parenthesis ∧
          (pieceReadings piece).head? = some Reading.parenthesis := by
      intro piece hpiece
      obtain ⟨tail, rfl⟩ := List.head?_eq_some_iff.1 hpiece
      rw [pieceReadings, readings_parenthesis,
        List.dropLast_cons_of_ne_nil (readings_ne_nil tail)]
      exact ⟨rfl, rfl⟩
    cases pieces with
    | nil => simp
    | cons first pieces =>
      simp only [List.cons_append, List.tail_cons, List.forall_mem_append, List.map_cons,
        List.forall_mem_singleton] at hbegins ⊢
      refine ⟨List.forall_mem_map.2 fun piece hpiece => ?_, (hparenthesis rest hbegins.2).1⟩
      exact (hparenthesis piece (hbegins.1 piece hpiece)).2

/-! ### Editions -/

theorem Forest.InsertsNames.size_le {f g : Forest} (h : f.InsertsNames g) : f.size ≤ g.size := by
  by_contra hlt
  have hshape : (f.shape? g.size).isSome := by
    rw [Option.isSome_iff_ne_none, ne_eq, Forest.shape?_eq_none_iff]
    omega
  obtain ⟨shape, hshape⟩ := Option.isSome_iff_exists.1 hshape
  have hnone : g.shape? g.size = none := Forest.shape?_eq_none_iff.2 (Nat.le_refl _)
  rcases h.shape?_cases hshape with hsame | ⟨_, _, _, _, _, hid, _⟩
  · rw [hnone] at hsame
    cases hsame
  · rw [hnone] at hid
    cases hid

/-- The first of the pieces of a stage begins wherever it likes, the others with a parenthesis. -/
theorem Stage.begins_append {pieces : List (List Char)} {w : Writer} (h : Stage pieces w) :
    ∀ piece ∈ (pieces ++ [w.written.reverse]).tail, piece.head? = some '(' := by
  cases pieces with
  | nil => simp
  | cons first pieces =>
    rw [List.cons_append, List.tail_cons, List.forall_mem_append, List.forall_mem_singleton,
      List.head?_reverse]
    exact ⟨h.begins, h.current (List.cons_ne_nil _ _)⟩

/-- Whatever names its functions have, a legible tree is printed with the same tokens but for the
names, and these stand behind the words of the functions. -/
theorem Forest.exists_cutAtNames {f : Forest} {root : NodeId} {tree : SyntaxTree}
    (htree : f.treeWithin f.size root = some tree) (hlegible : tree.Legible) (style : PrintStyle) :
    ∃ pieces : List (List Reading), CutAtNames pieces ∧
      pieces.length = (f.worded root).length + 1 ∧
      ∀ g, f.InsertsNames g →
        readings (g.print style root).toList = withNames pieces ((f.worded root).map g.nameText?) := by
  obtain ⟨pieces, w, hstage, -, hwrite⟩ := f.cutsNodes style.quotes f.size root tree htree hlegible
    false nofun [] (.start style.compact) (.start _) (.inr nofun)
  have hfilled : ∀ g, f.InsertsNames g → ∃ text,
      Filled pieces ((f.worded root).map g.nameText?) text ∧
        (g.print style root).toList = text ++ w.written.reverse := by
    intro g h
    have hlevels : f.size + (g.size - f.size) = g.size := Nat.add_sub_cancel' h.size_le
    obtain ⟨text, hfilled, heq⟩ := hwrite ⟨g, h, g.size - f.size⟩ [] [] .nil
    have hlayout : (g.layout style.quotes root).write (.start style.compact) = w.after text := by
      rw [layout, ← hlevels]
      exact heq
    refine ⟨text, hfilled, ?_⟩
    rw [print, Layout.render, hlayout, Writer.contents, String.toList_ofList, Writer.after,
      List.reverse_append, List.reverse_reverse]
  refine ⟨pieces.map pieceReadings ++ [readings w.written.reverse],
    cutAtNames_of_filled hstage.ends hstage.begins_append, ?_, fun g h => ?_⟩
  · obtain ⟨text, horiginal, -⟩ := hfilled f (.refl f)
    rw [List.length_append, List.length_map, horiginal.length_eq, List.length_map]
    rfl
  · obtain ⟨text, hnamed, htext⟩ := hfilled g h
    rw [htext, readings_filled hnamed hstage.ends hstage.begins_append,
      ← List.append_nil ((f.worded root).map g.nameText?), withNames_append]
    · simp [withNames]
    · simpa using hnamed.length_eq

end FunctionNaming
