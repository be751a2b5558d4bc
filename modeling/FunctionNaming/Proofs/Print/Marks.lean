import FunctionNaming.Print.Node
import FunctionNaming.Proofs.Token.Takes

/-!
The marks of a layout: how its tokens look, and between which of them it ends a line. They are what a
grammar can know of a text, whether it is written compactly or not: compact output has the same
tokens, with no line ended between them.
-/

namespace FunctionNaming

theorem looks_spelling {k : TokenKind} (hk : k ∈ TokenKind.marks ++ TokenKind.keywords) :
    looks k.spelling.toList = [.fixed k] := by
  have hall : ∀ k ∈ TokenKind.marks ++ TokenKind.keywords,
      looks k.spelling.toList = [.fixed k] := by
    decide +kernel
  exact hall k hk

/-- A token of a layout, or the end of a line, which is `none`. -/
abbrev Mark := Option Look

/-- The tokens that a layout writes, and the ends of lines. -/
def Layout.marks : Layout → List Mark
  | empty | space => []
  | newline => [none]
  | text s => (looks s.toList).map some
  | indented inner => inner.marks
  | append first second => first.marks ++ second.marks

@[simp] theorem Layout.marks_append (l l' : Layout) : (l ++ l').marks = l.marks ++ l'.marks := rfl

@[simp] theorem Layout.marks_space : space.marks = [] := rfl

@[simp] theorem Layout.marks_empty : empty.marks = [] := rfl

@[simp] theorem Layout.marks_newline : newline.marks = [none] := rfl

@[simp] theorem Layout.marks_indented (l : Layout) : (indented l).marks = l.marks := rfl

/-- The layout of a mark or a keyword. -/
theorem Layout.marks_spelling {k : TokenKind} (hk : k ∈ TokenKind.marks ++ TokenKind.keywords) :
    (text k.spelling).marks = [some (.fixed k)] := by
  rw [marks, looks_spelling hk, List.map_singleton]

/-! ### Typesetting -/

/-- A way to make tokens of marks. A token knows how many marks are behind it, which stands for its
place. -/
structure Typeset where
  /-- Whether lines are ended at all. -/
  breaks : Bool
  token : Nat → Look → Bool → Token
  look_token : ∀ n l b, (token n l b).look = l
  afterLineBreak_token : ∀ n l b, (token n l b).afterLineBreak = b

namespace Typeset

variable (p : Typeset)

@[simp] theorem kind_token (n : Nat) (l : Look) (b : Bool) : (p.token n l b).kind = l.kind :=
  congrArg Look.kind (p.look_token n l b)

@[simp] theorem value_token (n : Nat) (l : Look) (b : Bool) : (p.token n l b).value = l.value :=
  congrArg Look.value (p.look_token n l b)

@[simp] theorem text_token (n : Nat) (l : Look) (b : Bool) : (p.token n l b).text = l.text :=
  congrArg Look.text (p.look_token n l b)

attribute [simp] afterLineBreak_token

/-- The tokens of marks, in front of which a line ends if `b` holds. -/
def tokens : Bool → List Mark → List Token
  | _, [] => []
  | b, none :: ms => tokens (b || p.breaks) ms
  | b, some l :: ms => p.token ms.length l b :: tokens false ms

/-- Whether a line ends behind marks, in front of which one ends if `b` holds. -/
def after : Bool → List Mark → Bool
  | b, [] => b
  | b, none :: ms => after (b || p.breaks) ms
  | _, some _ :: ms => after false ms

@[simp] theorem tokens_cons (b : Bool) (l : Look) (ms : List Mark) :
    p.tokens b (some l :: ms) = p.token ms.length l b :: p.tokens false ms := rfl

@[simp] theorem tokens_none (b : Bool) (ms : List Mark) :
    p.tokens b (none :: ms) = p.tokens (b || p.breaks) ms := rfl

@[simp] theorem after_nil (b : Bool) : p.after b [] = b := rfl

@[simp] theorem after_cons (b : Bool) (l : Look) (ms : List Mark) :
    p.after b (some l :: ms) = p.after false ms := rfl

@[simp] theorem after_none (b : Bool) (ms : List Mark) :
    p.after b (none :: ms) = p.after (b || p.breaks) ms := rfl

@[simp] theorem after_append (b : Bool) (ms ms' : List Mark) :
    p.after b (ms ++ ms') = p.after (p.after b ms) ms' := by
  induction ms generalizing b with
  | nil => rfl
  | cons m ms ih => cases m <;> exact ih _

end Typeset

/-! ### Tokens that are set from marks -/

/-- That tokens stand for marks, in front of which a line ends if `b` holds. -/
inductive SetFrom (breaks : Bool) : Bool → List Mark → List Token → Prop
  | nil {b : Bool} : SetFrom breaks b [] []
  | line {b : Bool} {ms : List Mark} {T : List Token} : SetFrom breaks (b || breaks) ms T →
      SetFrom breaks b (none :: ms) T
  | token {b : Bool} {t : Token} {ms : List Mark} {T : List Token} : t.afterLineBreak = b →
      SetFrom breaks false ms T → SetFrom breaks b (some t.look :: ms) (t :: T)

namespace Typeset

/-- Two ways to make tokens that make the same ones of a few marks. -/
theorem tokens_congr {p p' : Typeset} {ms : List Mark} (hbreaks : p.breaks = p'.breaks)
    (h : ∀ n < ms.length, p.token n = p'.token n) (b : Bool) : p.tokens b ms = p'.tokens b ms := by
  induction ms generalizing b with
  | nil => rfl
  | cons m ms ih =>
    have hms := fun b => ih (fun n hn => h n (Nat.lt_succ_of_lt hn)) b
    cases m with
    | none => rw [tokens_none, tokens_none, hbreaks, hms]
    | some l => rw [tokens_cons, tokens_cons, hms, h ms.length (Nat.lt_succ_self _)]

/-- The way to make tokens that knows nothing of their place. -/
def plain (breaks : Bool) : Typeset where
  breaks := breaks
  token _ l b := ⟨l.kind, 0, l.text, l.value, b⟩
  look_token _ _ _ := rfl
  afterLineBreak_token _ _ _ := rfl

/-- The same way to make tokens, but for one token. -/
def withToken (p : Typeset) (n : Nat) (t : Token) : Typeset where
  breaks := p.breaks
  token n' l b := if n' = n ∧ l = t.look ∧ b = t.afterLineBreak then t else p.token n' l b
  look_token n' l b := by
    split
    · next h => exact h.2.1.symm
    · exact p.look_token n' l b
  afterLineBreak_token n' l b := by
    split
    · next h => exact h.2.2.symm
    · exact p.afterLineBreak_token n' l b

end Typeset

namespace SetFrom

variable {breaks b : Bool} {ms : List Mark} {T : List Token}

/-- Tokens that stand for marks are made of them in some way. -/
theorem exists_typeset (h : SetFrom breaks b ms T) :
    ∃ p : Typeset, p.breaks = breaks ∧ p.tokens b ms = T := by
  induction h with
  | nil => exact ⟨.plain breaks, rfl, rfl⟩
  | line _ ih =>
    obtain ⟨p, rfl, hT⟩ := ih
    exact ⟨p, rfl, hT⟩
  | @token b t ms T hline _ ih =>
    obtain ⟨p, rfl, hT⟩ := ih
    refine ⟨p.withToken ms.length t, rfl, ?_⟩
    have hbreaks : (p.withToken ms.length t).breaks = p.breaks := rfl
    have hrest : (p.withToken ms.length t).tokens false ms = p.tokens false ms := by
      refine Typeset.tokens_congr hbreaks (fun n hn => ?_) false
      funext l b
      exact if_neg fun heq => Nat.ne_of_lt hn heq.1
    rw [Typeset.tokens_cons, hrest, hT]
    exact congrArg (· :: T) (if_pos ⟨rfl, rfl, hline.symm⟩)

theorem map_look (h : SetFrom breaks b ms T) : T.map Token.look = ms.filterMap id := by
  induction h with
  | nil => rfl
  | line _ ih => exact ih
  | token _ _ ih => rw [List.map_cons, ih, List.filterMap_cons, id_eq]

theorem append_looks {T' : List Token} (hline : ∀ t ∈ T, t.afterLineBreak = false)
    (h : SetFrom breaks false ms T') :
    SetFrom breaks false ((T.map Token.look).map some ++ ms) (T ++ T') := by
  induction T with
  | nil => exact h
  | cons t T ih =>
    obtain ⟨ht, hT⟩ := List.forall_mem_cons.1 hline
    exact .token ht (ih hT)

/-- Where a line ends in front of tokens, it does so in front of the first one. -/
theorem of_line {t : Token} (h : SetFrom true b ms (t :: T)) :
    SetFrom true true ms ({ t with afterLineBreak := true } :: T) := by
  generalize hT : t :: T = T' at h
  induction h with
  | nil => cases hT
  | @line b ms T' _ ih => exact .line (ih hT)
  | token _ htail =>
    obtain ⟨rfl, rfl⟩ := List.cons.inj hT
    exact @token true true { t with afterLineBreak := true } _ _ rfl htail

end SetFrom

/-! ### Texts with given marks -/

/-- That a text has the tokens that stand for marks, and no fault. -/
def Composes (breaks : Bool) (text : List Char) (ms : List Mark) : Prop :=
  ∀ s : Scanner, s.rest = text → s.tokensAhead.2 = s.faults ∧
    SetFrom breaks false (ms ++ [some .atEnd]) s.tokensAhead.1

namespace Composes

open Scanner (Takes takes_space exists_tokensAhead_of_nil exists_tokensAhead_of_newline)

variable {breaks : Bool} {text : List Char} {ms : List Mark}

theorem nil (breaks : Bool) : Composes breaks [] [] := by
  intro s hs
  obtain ⟨last, hahead, hlook, hline⟩ := exists_tokensAhead_of_nil hs
  rw [hahead, ← hlook]
  exact ⟨rfl, .token hline .nil⟩

theorem takes {cs : List Char} {ls : List Look} (h : Takes cs ls text)
    (htext : Composes breaks text ms) : Composes breaks cs (ls.map some ++ ms) := by
  intro s hs
  obtain ⟨T, s', rfl, hline, hrest, hfaults, hahead⟩ := h s hs
  obtain ⟨hnone, hT⟩ := htext s' hrest
  rw [hahead, List.append_assoc]
  exact ⟨hnone.trans hfaults, .append_looks hline hT⟩

theorem space (h : Composes breaks text ms) : Composes breaks (' ' :: text) ms :=
  takes (takes_space text) h

theorem newline (h : Composes true text ms) : Composes true ('\n' :: text) (none :: ms) := by
  intro s hs
  obtain ⟨s', t, T, hrest, hfaults, hT, hahead⟩ := exists_tokensAhead_of_newline hs
  obtain ⟨hnone, hset⟩ := h s' hrest
  rw [hT] at hset
  rw [hahead]
  exact ⟨hnone.trans hfaults, .line hset.of_line⟩

theorem unbroken (h : Composes false text ms) : Composes false text (none :: ms) := by
  intro s hs
  obtain ⟨hnone, hset⟩ := h s hs
  exact ⟨hnone, .line hset⟩

/-- The tokens of a whole text. -/
theorem ofSource (h : Composes breaks text ms) :
    (TokenStream.ofSource text).faults = #[] ∧
      SetFrom breaks false (ms ++ [some .atEnd]) (TokenStream.ofSource text).tokens.toList :=
  h (.start text) rfl

/-- The readings of a text do not tell where its lines end. -/
theorem readings_eq (h : Composes breaks text ms) :
    readings text = ((ms ++ [some Look.atEnd]).filterMap id).map Look.reading := by
  rw [← h.ofSource.2.map_look, List.map_map]
  rfl

end Composes

end FunctionNaming
