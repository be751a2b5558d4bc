import FunctionNaming.Proofs.Token.Literal
import FunctionNaming.Proofs.Token.Tiling

/-!
What a string literal denotes. Scanning undoes quoting: a text written in quotes is one token with
that text as its value, whatever follows. A text that is written by escapes of its UTF-16 units is
one token as well, but each unit is decoded by itself, so only a text whose characters have one unit
each is its value.
-/

namespace FunctionNaming

open Literal

theorem Gap.read_of_isQuote {q : Char} (hq : isQuote q = true) (o : Nat) (cs : List Char) :
    Gap.read o (q :: cs) = ⟨q :: cs, o, false, none⟩ := by
  rcases isQuote_iff.1 hq with rfl | rfl <;> rfl

/-- A scanner that stands before a string reads all of it, up to and including the closing quote,
and finds no fault. -/
theorem Scanner.scan_of_spells {q : Char} (hq : isQuote q = true) {w v : List Char}
    (h : Spells q w v) (s : Scanner) {rest : List Char} (hs : s.rest = q :: w ++ [q] ++ rest) :
    s.scan =
      { rest
        offset := s.offset + Text.width (q :: w ++ [q])
        token := ⟨.string, s.offset, String.ofList (q :: w ++ [q]), String.ofList v, false⟩
        faults := s.faults } := by
  have hlexeme : Lexeme.read s.offset (q :: (w ++ q :: rest)) =
      ⟨.string, (q :: w ++ [q]).length, v, []⟩ := by
    rw [Lexeme.read, if_pos (isQuote_iff.1 hq), Lexeme.ofString_of_spells hq h]
    simp
  have hjoin : q :: w ++ [q] ++ rest = q :: (w ++ q :: rest) := by simp
  simp only [scan, hs, hjoin, Gap.read_of_isQuote hq, hlexeme, gapFaults]
  rw [← hjoin, List.take_left, List.drop_left]
  simp

/-! ### Quoting -/

/-- Scanning undoes quoting: a text in quotes is read as one token that denotes the text and ends
where the quotes end, without a fault and whatever follows it. -/
theorem Scanner.scan_quoted {q : Char} (hq : q = '\'' ∨ q = '"') (value : String)
    (rest : List Char) (s : Scanner) (hs : s.rest = Text.quoted q value.toList ++ rest) :
    s.scan =
        { rest
          offset := s.offset + Text.width (Text.quoted q value.toList)
          token :=
            ⟨.string, s.offset, String.ofList (Text.quoted q value.toList), value, false⟩
          faults := s.faults } ∧
      s.scan.token.stop = s.offset + Text.width (Text.quoted q value.toList) := by
  have hquote : isQuote q = true := isQuote_iff.2 hq.symm
  have hscan := scan_of_spells hquote (spells_flatMap_escape hquote value.toList) s hs
  rw [String.ofList_toList] at hscan
  refine ⟨hscan, ?_⟩
  rw [hscan, Token.stop, Text.utf8ByteSize_ofList]
  rfl

/-- A quote behind a backslash, a zero character before a digit and a line separator, in a scanner
that has already read something. -/
theorem Scanner.scan_quoted_hard :
    let value := "\\'\u00001\u2028"
    let s : Scanner := ⟨"'\\\\\\'\\x001\\u2028'1;".toList, 7, .beforeAll, #[]⟩
    s.rest = Text.quoted '\'' value.toList ++ "1;".toList ∧ s.scan.token.value = value ∧
      s.scan.rest = "1;".toList ∧ s.scan.faults = #[] ∧ s.scan.token.stop = 24 := by
  intro value s
  have hs : s.rest = Text.quoted '\'' value.toList ++ "1;".toList := by decide
  obtain ⟨hscan, hstop⟩ := Scanner.scan_quoted (.inl rfl) value "1;".toList s hs
  exact ⟨hs, by rw [hscan], by rw [hscan], by rw [hscan], by rw [hstop]; decide⟩

/-! ### Escaped units -/

/-- The units of sixteen bits in which UTF-16 writes a character: its code point, or a pair of
surrogates when the code point is too large. -/
def Text.units (c : Char) : List Nat :=
  if c.toNat < 0x10000 then [c.toNat]
  else [0xd800 + (c.toNat - 0x10000) / 0x400, 0xdc00 + (c.toNat - 0x10000) % 0x400]

/-- The ways to write units by one escape of four digits each, with capital or small letters. -/
inductive Literal.SpellsUnits : List Nat → List Char → Prop
  | nil : SpellsUnits [] []
  | cons (ds : List Char) {w : List Char} {ns : List Nat} : ds.length = 4 →
      ds.all isHexDigit = true → SpellsUnits ns w → SpellsUnits (hexValue ds :: ns) ('\\' :: 'u' :: ds ++ w)

theorem Literal.readFixedEscape_of_all {ds : List Char} (h : ds.all isHexDigit = true)
    (rest : List Char) :
    readFixedEscape ds.length (ds ++ rest) = ⟨[charOfCode (hexValue ds)], 1 + ds.length, true⟩ := by
  have hdigits : ds.takeWhile isHexDigit = ds := by
    simpa using h
  rw [readFixedEscape, List.take_left, hdigits, if_pos rfl]

/-- An escaped unit stands for the character with that code point. -/
theorem Literal.SpellsUnits.spells {q : Char} {ns : List Nat} {w : List Char}
    (h : SpellsUnits ns w) : Spells q w (ns.map charOfCode) := by
  induction h with
  | nil => exact .nil
  | cons ds hlength hdigits _ ih =>
    refine .escape (e := 'u' :: ds) (u := [charOfCode (hexValue ds)]) (fun rest => ?_) ih
    have hbrace : (ds ++ rest).head? ≠ some '{' := by
      cases ds with
      | nil => cases hlength
      | cons d ds =>
        intro heq
        obtain rfl : d = '{' := by simpa using heq
        rw [List.all_cons, Bool.and_eq_true] at hdigits
        exact absurd hdigits.1 (by decide)
    rw [List.cons_append, readEscape_u hbrace, ← hlength, readFixedEscape_of_all hdigits]
    simp [Nat.add_comm]

/-- What the escapes of the units of a text denote: a character that has two units is lost, and the
replacement character stands for each of them. -/
def Text.unitwise (cs : List Char) : List Char :=
  cs.flatMap fun c => if c.toNat < 0x10000 then [c] else ['\ufffd', '\ufffd']

theorem Literal.charOfCode_toNat (c : Char) : charOfCode c.toNat = c := by
  have hvalid : c.toNat.isValidChar := c.valid
  rw [charOfCode, if_pos hvalid, Char.ofNat_toNat]

theorem Literal.charOfCode_surrogate {n : Nat} (hlow : 0xd800 ≤ n) (hhigh : n < 0xe000) :
    charOfCode n = '\ufffd' := by
  rw [charOfCode, if_neg]
  simp only [Nat.isValidChar]
  omega

theorem Text.map_charOfCode_units (cs : List Char) :
    (cs.flatMap units).map charOfCode = unitwise cs := by
  rw [unitwise, List.map_flatMap]
  congr 1
  funext c
  rw [units]
  split
  · rw [List.map_singleton, charOfCode_toNat]
  · have hmax : c.toNat < 0x110000 := by
      have hvalid : c.toNat.isValidChar := c.valid
      simp only [Nat.isValidChar] at hvalid
      omega
    rw [List.map_cons, List.map_singleton, charOfCode_surrogate, charOfCode_surrogate] <;> omega

theorem Text.length_le_unitwise (cs : List Char) : cs.length ≤ (unitwise cs).length := by
  induction cs with
  | nil => exact Nat.le_refl _
  | cons c cs ih =>
    have hone : 1 ≤ (if c.toNat < 0x10000 then [c] else ['\ufffd', '\ufffd']).length := by
      split <;> simp
    rw [unitwise, List.flatMap_cons, List.length_append, List.length_cons, Nat.add_comm]
    exact Nat.add_le_add hone ih

/-- A text whose characters all have one unit is kept. Any other becomes longer. -/
theorem Text.unitwise_eq_self_iff (cs : List Char) :
    unitwise cs = cs ↔ ∀ c ∈ cs, c.toNat < 0x10000 := by
  induction cs with
  | nil => simp [unitwise]
  | cons c cs ih =>
    have hlength := length_le_unitwise cs
    have hcons : unitwise (c :: cs) =
        (if c.toNat < 0x10000 then [c] else ['\ufffd', '\ufffd']) ++ unitwise cs := rfl
    rw [hcons, List.forall_mem_cons, ← ih]
    split
    · next hc => simp [hc]
    · next hc =>
      refine iff_of_false (fun heq => ?_) (fun h => hc h.1)
      have hlonger := congrArg List.length heq
      simp at hlonger
      omega

/-- The literal that spells a text by escapes of four digits, one for each UTF-16 unit, is one token
without a fault. It denotes the text exactly when all its characters have one unit. -/
theorem Scanner.scan_escaped_units {q : Char} (hq : q = '\'' ∨ q = '"') (value : String)
    {w : List Char} (hw : SpellsUnits (value.toList.flatMap Text.units) w) (rest : List Char)
    (s : Scanner) (hs : s.rest = q :: w ++ [q] ++ rest) :
    s.scan =
        { rest
          offset := s.offset + Text.width (q :: w ++ [q])
          token :=
            ⟨.string, s.offset, String.ofList (q :: w ++ [q]),
              String.ofList (Text.unitwise value.toList), false⟩
          faults := s.faults } ∧
      (s.scan.token.value = value ↔ ∀ c ∈ value.toList, c.toNat < 0x10000) := by
  have hscan := scan_of_spells (isQuote_iff.2 hq.symm) hw.spells s hs
  rw [Text.map_charOfCode_units] at hscan
  refine ⟨hscan, ?_⟩
  rw [hscan, ← Text.unitwise_eq_self_iff, ← String.toList_inj, String.toList_ofList]

/-- A face of two units is lost, and the letter in front of it is not. -/
theorem Scanner.scan_escaped_units_face :
    let w := "\\u0041\\ud83D\\uDe00".toList
    let s : Scanner := ⟨'"' :: w ++ ['"'] ++ ";".toList, 0, .beforeAll, #[]⟩
    SpellsUnits ("A😀".toList.flatMap Text.units) w ∧ s.scan.token.value = "A\ufffd\ufffd" ∧
      s.scan.token.value ≠ "A😀" := by
  intro w s
  have hw : SpellsUnits ("A😀".toList.flatMap Text.units) w :=
    .cons "0041".toList rfl (by decide)
      (.cons "d83D".toList rfl (by decide) (.cons "De00".toList rfl (by decide) .nil))
  obtain ⟨hscan, hvalue⟩ := Scanner.scan_escaped_units (.inr rfl) "A😀" hw ";".toList s rfl
  exact ⟨hw, by rw [hscan]; decide, fun heq => by simpa using hvalue.1 heq⟩

end FunctionNaming
