import FunctionNaming.Path.Resolve
import FunctionNaming.Proofs.Token.Passes

/-!
Paths of chains of accesses: a name or `this`, and then names of members and strings that name them.
The text of such a path is put together from words, marks and strings, so it is scanned piece by
piece, whatever characters the strings contain.
-/

namespace FunctionNaming

/-! ### Segments -/

namespace Segment

/-- Whether the segment names a member: by a word or by any string. -/
def isMember : Segment → Bool
  | name text => isWord text.toList
  | key _ => true
  | computed .. => false

/-- The segment in which a string that has the shape of a word is a name. -/
def plain : Segment → Segment
  | key value => if isWord value.toList then name value else key value
  | s => s

@[simp] theorem plain_name (text : String) : (name text).plain = name text := rfl

theorem isMember_plain {s : Segment} (h : s.isMember = true) : s.plain.isMember = true := by
  cases s with
  | key value => by_cases hword : isWord value.toList = true <;> simp [plain, isMember, hword]
  | _ => exact h

theorem isMember_map_plain {ss : List Segment} (h : ∀ s ∈ ss, s.isMember = true) :
    ∀ s ∈ ss.map plain, s.isMember = true := by
  simpa using fun s hs => isMember_plain (h s hs)

@[simp] theorem first_plain (s : Segment) : s.plain.first = s.first := by
  cases s with
  | key value => by_cases hword : isWord value.toList = true <;> simp [plain, first, hword]
  | _ => rfl

@[simp] theorem next_plain (s : Segment) : s.plain.next = s.next := by
  cases s with
  | key value => by_cases hword : isWord value.toList = true <;> simp [plain, next, hword]
  | _ => rfl

end Segment

/-- The text of a path does not tell names from strings that have their shape. -/
theorem Path.ofSegments?_map_plain (segments : List Segment) :
    ofSegments? (segments.map Segment.plain) = ofSegments? segments := by
  cases segments with
  | nil => rfl
  | cons s ss => simp [ofSegments?, Function.comp_def]

/-- The segments of a chain of accesses: a name that is no keyword, or `this` before other segments,
and then fewer members than a chain may have segments. -/
inductive IsMemberChain : List Segment → Prop
  | name {text : String} {members : List Segment} : isWord text.toList = true →
      TokenKind.keyword? text = none → (∀ s ∈ members, s.isMember = true) →
      members.length < Forest.maxPathLength → IsMemberChain (.name text :: members)
  | this {members : List Segment} : members ≠ [] → (∀ s ∈ members, s.isMember = true) →
      members.length < Forest.maxPathLength → IsMemberChain (.name "this" :: members)

namespace IsMemberChain

variable {s : Segment} {ss segments : List Segment}

theorem isMember (h : IsMemberChain (s :: ss)) : ∀ s ∈ ss, s.isMember = true := by
  cases h <;> assumption

theorem length_le (h : IsMemberChain segments) : segments.length ≤ Forest.maxPathLength := by
  cases h <;> assumption

theorem map_plain (h : IsMemberChain segments) : IsMemberChain (segments.map Segment.plain) := by
  cases h with
  | name hword hkeyword hmembers hlength =>
    exact .name hword hkeyword (Segment.isMember_map_plain hmembers) (by simpa using hlength)
  | this hne hmembers hlength =>
    exact .this (by simpa using hne) (Segment.isMember_map_plain hmembers) (by simpa using hlength)

end IsMemberChain

/-! ### Tokens -/

namespace Segment

/-- The kinds and values of the tokens of a segment after others. -/
def readings : Segment → List (TokenKind × String)
  | name text => [(.dot, ""), wordReading text.toList]
  | key value => [(.openBracket, ""), (.string, value), (.closeBracket, "")]
  | computed .. => []

open Scanner (Passes passes_mark passes_mark_alone passes_word passes_quoted)

variable {rest : List Char}

theorem isWordStart_of_mem_head? {word : List Char} (hword : isWord word = true) {c : Char}
    (hc : c ∈ (word ++ rest).head?) : isWordStart c = true := by
  match word with
  | [] => cases hword
  | d :: ds =>
    cases hc
    exact (Bool.and_eq_true_iff.1 hword).1

theorem passes_name {text : String} (hword : isWord text.toList = true)
    (hrest : ∀ c ∈ rest.head?, isWordPart c = false) :
    Passes ((name text).next.toList ++ rest) (name text).readings rest := by
  have hdot : Passes (TokenKind.dot.spelling.toList ++ (text.toList ++ rest)) [(.dot, "")]
      (text.toList ++ rest) := by
    refine passes_mark (by decide) (fun c hc => ?_) (fun _ => ?_) (fun h => absurd h (by decide))
    · -- The only mark that goes on behind a point has another one.
      have hpoint : TokenKind.dot.extensions = ['.'] := by decide
      rw [hpoint, List.mem_singleton]
      rintro rfl
      exact absurd (isWordStart_of_mem_head? hword hc) (by decide)
    · cases h : text.toList ++ rest with
      | nil => rfl
      | cons c cs => exact isDigit_of_isWordStart (isWordStart_of_mem_head? hword (by rw [h]; rfl))
  simpa [next, readings, TokenKind.spelling] using hdot.trans (passes_word hword hrest)

theorem passes_key {value : String} (hvalue : isWord value.toList = false) :
    Passes ((key value).next.toList ++ rest) (key value).readings rest := by
  have hopen := passes_mark_alone (by decide : TokenKind.openBracket ∈ _) (by decide)
    (Text.quoted '\'' value.toList ++ (TokenKind.closeBracket.spelling.toList ++ rest))
  have hclose := passes_mark_alone (by decide : TokenKind.closeBracket ∈ _) (by decide) rest
  have hall := (hopen.trans (passes_quoted (.inl rfl) value _)).trans hclose
  simpa [next, readings, hvalue, literal, TokenKind.spelling] using hall

/-- The text of a member after others, before what does not go on with a word, is passed. -/
theorem passes_next {s : Segment} (hs : s.isMember = true)
    (hrest : ∀ c ∈ rest.head?, isWordPart c = false) :
    Passes (s.next.toList ++ rest) s.plain.readings rest := by
  rw [← next_plain]
  cases s with
  | name text => exact passes_name hs hrest
  | key value =>
    simp only [plain]
    split
    · next hword => exact passes_name hword hrest
    · next hword => exact passes_key (Bool.eq_false_iff.2 hword)
  | computed => cases hs

/-- No word goes on with a segment after others. -/
theorem head?_next {s : Segment} (hs : s.isMember = true) (rest : List Char) :
    ∀ c ∈ (s.next.toList ++ rest).head?, isWordPart c = false := by
  have hpoint : isWordPart '.' = false := by decide
  have hbracket : isWordPart '[' = false := by decide
  cases s with
  | name text => simpa [next] using hpoint
  | key value =>
    simp only [next]
    split
    · simpa using hpoint
    · simpa using hbracket
  | computed => cases hs

theorem passes_join {ss : List Segment} (hss : ∀ s ∈ ss, s.isMember = true)
    (hrest : ∀ c ∈ rest.head?, isWordPart c = false) :
    Passes ((String.join (ss.map next)).toList ++ rest) ((ss.map plain).flatMap readings) rest ∧
      ∀ c ∈ ((String.join (ss.map next)).toList ++ rest).head?, isWordPart c = false := by
  induction ss with
  | nil => exact ⟨.refl rest, hrest⟩
  | cons s ss ih =>
    obtain ⟨hs, hss⟩ := List.forall_mem_cons.1 hss
    obtain ⟨hpasses, hhead⟩ := ih hss
    have hjoin : (String.join ((s :: ss).map next)).toList ++ rest =
        s.next.toList ++ ((String.join (ss.map next)).toList ++ rest) := by
      simp [String.join_cons]
    rw [hjoin]
    exact ⟨(passes_next hs hhead).trans hpasses, head?_next hs _⟩

end Segment

/-- The kinds and values of the tokens of a function behind its name, if it has no parameters and no
statements. -/
def signatureReadings : List (TokenKind × String) :=
  [(.openParen, ""), (.closeParen, ""), (.openBrace, ""), (.closeBrace, "")]

/-- The kinds and values of the tokens of a function without a name, parameters and statements. -/
def functionReadings : List (TokenKind × String) :=
  (.functionKeyword, "function") :: signatureReadings

/-- The tokens behind the target of a statement that assigns such a function. -/
def assignedReadings : List (TokenKind × String) :=
  (.assign, "") :: functionReadings ++ [(.semicolon, "")]

open Scanner in
theorem passes_signature (rest : List Char) :
    Passes ("()\x7b\x7d".toList ++ rest) signatureReadings rest :=
  (passes_mark_alone (k := .openParen) (by decide) (by decide) _).trans <|
    (passes_mark_alone (k := .closeParen) (by decide) (by decide) _).trans <|
    (passes_mark_alone (k := .openBrace) (by decide) (by decide) _).trans
      (passes_mark_alone (k := .closeBrace) (by decide) (by decide) _)

open Scanner in
theorem passes_assign (rest : List Char) : Passes (" = ".toList ++ rest) [(.assign, "")] rest := by
  have hassign : Passes (TokenKind.assign.spelling.toList ++ ' ' :: rest) [(.assign, "")]
      (' ' :: rest) :=
    passes_mark (by decide) (fun c hc => by cases hc; decide) (fun h => absurd h (by decide))
      (fun h => absurd h (by decide))
  exact (passes_space _).trans (hassign.trans (passes_space _))

open Scanner in
theorem passes_assigned : Passes " = function()\x7b\x7d;".toList assignedReadings [] := by
  have hword : Passes ("function".toList ++ ("()\x7b\x7d".toList ++ [';']))
      [(.functionKeyword, "function")] ("()\x7b\x7d".toList ++ [';']) :=
    passes_word (by decide) (fun c hc => by cases hc; decide)
  exact (passes_assign _).trans <| hword.trans <| (passes_signature _).trans
    (passes_mark_alone (k := .semicolon) (by decide) (by decide) _)

/-- The text that assigns such a function to a chain of accesses is scanned without a fault. -/
theorem IsMemberChain.passes {s : Segment} {ss : List Segment} (h : IsMemberChain (s :: ss)) :
    Scanner.Passes ((s.first ++ String.join (ss.map Segment.next)) ++ " = function()\x7b\x7d;").toList
      (wordReading s.first.toList :: (ss.map Segment.plain).flatMap Segment.readings ++
        assignedReadings) [] := by
  have hword : isWord s.first.toList = true := by
    cases h with
    | name hword => exact hword
    | this => decide
  have hspace : " = function()\x7b\x7d;".toList.head? = some ' ' := by decide
  obtain ⟨hpasses, hhead⟩ := Segment.passes_join h.isMember fun c hc => by
    obtain rfl := Option.some.inj (hspace.symm.trans hc)
    decide
  have hall := ((Scanner.passes_word hword hhead).trans hpasses).trans passes_assigned
  simpa using hall

end FunctionNaming
