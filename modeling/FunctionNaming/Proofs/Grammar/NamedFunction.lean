import FunctionNaming.Proofs.Grammar.Assigned
import FunctionNaming.Proofs.Grammar.Decided

/-!
Words as the names of functions. What has the shape of a word is what the scanner reads as one token
that is a word, and every word that is not reserved names a function expression, whether the function
is asynchronous or a generator and whether the expression stands in a generator or not
(`Script.words_name_functions`).

The keywords that are not reserved are those that are keywords in some places only, so no place where
a function can have a name treats them differently from other words.
-/

namespace FunctionNaming

open SyntaxTree (node)

/-! ### Words as tokens -/

/-- A text that has the shape of a word is one token. -/
theorem TokenStream.ofSource_word {word : String} (hword : isWord word.toList = true) :
    ∃ last, TokenStream.ofSource word.toList =
      ⟨#[⟨(wordReading word.toList).1, 0, word, word, false⟩, last], #[]⟩ ∧
        last.kind = .endOfFile := by
  have hscan : (Scanner.start word.toList).scan =
      ⟨[], 0 + Text.width word.toList, ⟨(wordReading word.toList).1, 0, word, word, false⟩, #[]⟩ := by
    have hread := Scanner.scan_of_read (Gap.read_word hword []) (Lexeme.read_word hword nofun)
      (s := .start word.toList) (List.append_nil _).symm
    rwa [String.ofList_toList] at hread
  have hword : (Scanner.start word.toList).scan.token.kind ≠ .endOfFile := by
    rw [hscan]
    exact Lexeme.keyword?_ne_endOfFile _
  have hsource : TokenStream.ofSource word.toList =
      ⟨(Scanner.start word.toList).tokensAhead.1.toArray,
        (Scanner.start word.toList).tokensAhead.2⟩ := rfl
  refine ⟨.atEnd (0 + Text.width word.toList), ?_, rfl⟩
  rw [hsource, Scanner.tokensAhead_of_ne hword, hscan, Scanner.tokensAhead_of_eq rfl]
  rfl

/-- The value of a token that is a word has the shape of a word. -/
theorem TokenStream.isWord_of_mem {source : List Char} {t : Token}
    (ht : t ∈ (TokenStream.ofSource source).tokens) (hkind : t.kind.isWord = true) :
    isWord t.value.toList = true :=
  (TokenStream.isSound_ofSource source t (Array.mem_toList_iff.2 ht)).word hkind

/-- A word that is not reserved can be bound everywhere. -/
theorem Grammar.Context.binds_wordReading (Γ : Grammar.Context) {word : String}
    (h : isReservedWord word = false) : Γ.binds (wordReading word.toList).1 = true := by
  have hkeywords : ∀ k ∈ TokenKind.keywords, isReservedWord k.spelling = false →
      k.isContextual = true ∧ k ≠ .yieldKeyword := by decide +kernel
  rw [wordReading, String.ofList_toList]
  cases hkeyword : TokenKind.keyword? word with
  | none => rfl
  | some k =>
    obtain ⟨hcontextual, hyield⟩ := hkeywords k (List.mem_of_find?_eq_some hkeyword)
      (by rw [TokenKind.spelling_of_keyword? hkeyword, h])
    cases k <;> first | rfl | exact absurd rfl hyield | cases hcontextual

/-! ### Named functions as texts -/

/-- The text of a function expression without parameters and statements. -/
def functionText (isAsync isGenerator : Bool) (name : String) : String :=
  (if isAsync then "async " else "") ++ "function" ++ (if isGenerator then "*" else "") ++ " " ++
    name ++ "()\x7b\x7d"

/-- The kinds and values of its tokens. -/
def namedReadings (isAsync isGenerator : Bool) (name : String) : List (TokenKind × String) :=
  (if isAsync then [(.asyncKeyword, "async")] else []) ++ (.functionKeyword, "function") ::
    ((if isGenerator then [(.star, "")] else []) ++ wordReading name.toList :: signatureReadings)

/-- The text of a statement that assigns a function to `x`. -/
def assignmentText (isAsync isGenerator : Bool) (name : String) : String :=
  "x = " ++ functionText isAsync isGenerator name ++ ";"

def assignmentReadings (isAsync isGenerator : Bool) (name : String) : List (TokenKind × String) :=
  (.identifier, "x") :: (.assign, "") :: (namedReadings isAsync isGenerator name ++ [(.semicolon, "")])

/-- The text of a generator with one statement in its body. -/
def generatorText (statement : String) : String := "function* g()\x7b " ++ statement ++ " \x7d"

def generatorReadings (statement : List (TokenKind × String)) : List (TokenKind × String) :=
  (.functionKeyword, "function") :: (.star, "") :: (.identifier, "g") :: (.openParen, "") ::
    (.closeParen, "") :: (.openBrace, "") :: (statement ++ [(.closeBrace, "")])

section Passes

open Scanner

variable {word : String} {rest : List Char}

/-- A space keeps a word from what follows. -/
theorem passes_word_space (word : String) (hword : isWord word.toList = true) (rest : List Char) :
    Passes (word.toList ++ ' ' :: rest) [wordReading word.toList] rest :=
  (passes_word hword (fun c hc => by cases hc; decide)).trans (passes_space rest)

/-- The beginning of a generator. -/
theorem passes_star (rest : List Char) :
    Passes ("function* ".toList ++ rest) [(.functionKeyword, "function"), (.star, "")] rest := by
  have hmark : Passes (TokenKind.star.spelling.toList ++ ' ' :: rest) [(.star, "")] (' ' :: rest) :=
    passes_mark (by decide) (fun c hc => by cases hc; decide) (fun h => absurd h (by decide))
      (fun h => absurd h (by decide))
  have hfunction : Passes ("function".toList ++ ('*' :: ' ' :: rest))
      [(.functionKeyword, "function")] ('*' :: ' ' :: rest) :=
    passes_word (by decide) (fun c hc => by cases hc; decide)
  exact hfunction.trans (hmark.trans (passes_space rest))

theorem passes_functionText (isAsync isGenerator : Bool) (hword : isWord word.toList = true)
    (rest : List Char) :
    Passes ((functionText isAsync isGenerator word).toList ++ rest)
      (namedReadings isAsync isGenerator word) rest := by
  have hname : Passes (word.toList ++ ("()\x7b\x7d".toList ++ rest))
      (wordReading word.toList :: signatureReadings) rest :=
    (passes_word hword (fun c hc => by cases hc; decide)).trans (passes_signature rest)
  have hasync : ∀ cs, Passes ("async".toList ++ ' ' :: cs) [(.asyncKeyword, "async")] cs :=
    fun cs => passes_word_space "async" (by decide) cs
  have hplain : ∀ cs, Passes ("function".toList ++ ' ' :: cs) [(.functionKeyword, "function")] cs :=
    fun cs => passes_word_space "function" (by decide) cs
  cases isAsync <;> cases isGenerator
  · simpa [functionText, namedReadings] using (hplain _).trans hname
  · simpa [functionText, namedReadings] using (passes_star _).trans hname
  · simpa [functionText, namedReadings] using (hasync _).trans ((hplain _).trans hname)
  · simpa [functionText, namedReadings] using (hasync _).trans ((passes_star _).trans hname)

theorem passes_assignmentText (isAsync isGenerator : Bool) (hword : isWord word.toList = true)
    (rest : List Char) :
    Passes ((assignmentText isAsync isGenerator word).toList ++ rest)
      (assignmentReadings isAsync isGenerator word) rest := by
  have hx : Passes ("x".toList ++ (" = ".toList ++
      ((functionText isAsync isGenerator word).toList ++ ';' :: rest))) [(.identifier, "x")]
      (" = ".toList ++ ((functionText isAsync isGenerator word).toList ++ ';' :: rest)) :=
    passes_word (by decide) (fun c hc => by cases hc; decide)
  have hvalue := (passes_functionText isAsync isGenerator hword (';' :: rest)).trans
    (passes_mark_alone (k := .semicolon) (by decide) (by decide) rest)
  simpa [assignmentText, assignmentReadings] using hx.trans ((passes_assign _).trans hvalue)

theorem passes_generatorText {statement : String} {rs : List (TokenKind × String)}
    (h : ∀ rest, Passes (statement.toList ++ rest) rs rest) :
    Passes (generatorText statement).toList (generatorReadings rs) [] := by
  have hbody : Passes ("()\x7b ".toList ++ (statement.toList ++ " \x7d".toList))
      ([(.openParen, ""), (.closeParen, ""), (.openBrace, "")] ++ (rs ++ [(.closeBrace, "")])) [] :=
    ((passes_mark_alone (k := .openParen) (by decide) (by decide) _).trans <|
      (passes_mark_alone (k := .closeParen) (by decide) (by decide) _).trans <|
      (passes_mark_alone (k := .openBrace) (by decide) (by decide) _).trans
        (passes_space _)).trans <|
    (h _).trans <| (passes_space _).trans
      (passes_mark_alone (k := .closeBrace) (by decide) (by decide) [])
  have hname : Passes ("g".toList ++ ("()\x7b ".toList ++ (statement.toList ++ " \x7d".toList)))
      [(.identifier, "g")] ("()\x7b ".toList ++ (statement.toList ++ " \x7d".toList)) :=
    passes_word (by decide) (fun c hc => by cases hc; decide)
  have htext : (generatorText statement).toList =
      "function* g()\x7b ".toList ++ (statement.toList ++ " \x7d".toList) := by
    change ("function* g()\x7b " ++ statement ++ " \x7d").toList = _
    simp only [String.toList_append, List.append_assoc]
  rw [htext]
  exact (passes_star _).trans (hname.trans hbody)

end Passes

/-! ### Named functions as trees -/

/-- The function expression of this name, without parameters and statements. -/
def SyntaxTree.namedFunction (isAsync isGenerator : Bool) (name : String) : SyntaxTree :=
  node (.function .expression
    ⟨isAsync, isGenerator, some (node (.identifier name)), [], some (node (.block []))⟩)

/-- The declaration of a generator `g` with one statement in its body. -/
def SyntaxTree.generator (statement : SyntaxTree) : SyntaxTree :=
  node (.function .declaration
    ⟨false, true, some (node (.identifier "g")), [], some (node (.block [statement]))⟩)

namespace Grammar

variable {Γ : Context} {d : Nat} {T rest : List Token} {word : String} {isAsync isGenerator : Bool}

/-- A token that may be there is passed if it is. -/
theorem accepts_of_map_reading {k : TokenKind} {v : String} {present : Bool} {A : List Token}
    (hA : A.map Token.reading = if present then [(k, v)] else []) (hT : kindOf T ≠ k) :
    Accepts k present (A ++ T) T := by
  cases present with
  | false =>
    obtain rfl := List.map_eq_nil_iff.1 hA
    exact ⟨hT, rfl⟩
  | true =>
    obtain ⟨t, A', rfl, ht, -, hA'⟩ := exists_cons_of_map_reading hA
    obtain rfl := List.map_eq_nil_iff.1 hA'
    exact ⟨t, ht, rfl⟩

/-- The tokens of a named function: perhaps the word `async`, the word `function`, perhaps a star,
the name, and the rest. -/
theorem exists_of_map_namedReadings
    (hT : T.map Token.reading = namedReadings isAsync isGenerator word) :
    ∃ (A S P : List Token) (f n : Token), T = A ++ f :: (S ++ n :: P) ∧
      A.map Token.reading = (if isAsync then [(.asyncKeyword, "async")] else []) ∧
      f.kind = .functionKeyword ∧
      S.map Token.reading = (if isGenerator then [(.star, "")] else []) ∧
      n.reading = wordReading word.toList ∧ P.map Token.reading = signatureReadings := by
  obtain ⟨A, T₁, rfl, hA, hT₁⟩ := List.map_eq_append_iff.1 hT
  obtain ⟨f, T₂, rfl, hf, -, hT₂⟩ := exists_cons_of_map_reading hT₁
  obtain ⟨S, T₃, rfl, hS, hT₃⟩ := List.map_eq_append_iff.1 hT₂
  obtain ⟨n, P, rfl, hn, hP⟩ := List.map_eq_cons_iff.1 hT₃
  exact ⟨A, S, P, f, n, rfl, hA, hf, hS, hn, hP⟩

/-- A function expression has the name that its text gives it, if this can be bound everywhere. -/
theorem derives_namedFunction (hd : d < maxNesting) (hword : isReservedWord word = false)
    (hT : T.map Token.reading = namedReadings isAsync isGenerator word) :
    Derives (.function .expression false) Γ d (T ++ rest)
      [.namedFunction isAsync isGenerator word] rest := by
  obtain ⟨A, S, P, f, n, rfl, hA, hf, hS, hn, hP⟩ := exists_of_map_namedReadings hT
  have hkind : n.kind = (wordReading word.toList).1 := congrArg Prod.fst hn
  have hvalue : n.value = word := (congrArg Prod.snd hn).trans String.ofList_toList
  have hsplit : A ++ f :: (S ++ n :: P) ++ rest = A ++ f :: (S ++ n :: (P ++ rest)) := by simp
  have hasync : Accepts .asyncKeyword isAsync (A ++ f :: (S ++ n :: (P ++ rest)))
      (f :: (S ++ n :: (P ++ rest))) :=
    accepts_of_map_reading hA (by rw [kindOf_cons, hf]; decide)
  have hstar : Accepts .star isGenerator (S ++ n :: (P ++ rest)) (n :: (P ++ rest)) := by
    refine accepts_of_map_reading hS fun hk => ?_
    have hisWord := isWord_wordReading word.toList
    rw [← hkind, show n.kind = .star from hk] at hisWord
    cases hisWord
  have hname : Derives (.declaredName false) (nameContext Γ isGenerator .expression) d
      (n :: (P ++ rest)) [node (.identifier n.value)] (P ++ rest) :=
    .declaredName (.name (by rw [hkind]; exact Context.binds_wordReading _ hword))
  rw [hvalue] at hname
  rw [hsplit]
  exact .function hasync hf hstar hname (derives_signature isAsync isGenerator hd hP)

/-- A function expression begins with `function`, or with `async` and `function` on one line, so it
begins no arrow function. -/
theorem starts_namedFunction (Γ : Context) (rest : List Token)
    (hT : T.map Token.reading = namedReadings isAsync isGenerator word)
    (hline : ∀ t ∈ T, t.afterLineBreak = false) :
    startsFunction (T ++ rest) = true ∧ startsArrow Γ (T ++ rest) = false := by
  obtain ⟨A, S, P, f, n, rfl, hA, hf, -⟩ := exists_of_map_namedReadings hT
  cases isAsync with
  | false =>
    obtain rfl := List.map_eq_nil_iff.1 hA
    exact ⟨by simp [startsFunction, hf],
      by simp [startsArrow, hf, Context.binds, TokenKind.isContextual]⟩
  | true =>
    obtain ⟨t, A', rfl, ht, -, hA'⟩ := exists_cons_of_map_reading hA
    obtain rfl := List.map_eq_nil_iff.1 hA'
    have hf' : f.afterLineBreak = false := hline f (by simp)
    exact ⟨by simp [startsFunction, isAsyncFunction, ht, hf, hf'],
      by simp [startsArrow, ht, hf, hf', Context.binds, TokenKind.isContextual]⟩

/-- The statement that assigns a named function to `x`. -/
theorem derives_assignment_named (hd : d + 3 < maxNesting) (hword : isReservedWord word = false)
    (hT : T.map Token.reading = assignmentReadings isAsync isGenerator word)
    (hline : ∀ t ∈ T, t.afterLineBreak = false) :
    Derives .statement Γ d (T ++ rest)
      [(node (.identifier "x")).assigns (.namedFunction isAsync isGenerator word)] rest := by
  obtain ⟨x, T₁, rfl, hx, hvalue, hT₁⟩ := exists_cons_of_map_reading hT
  obtain ⟨a, T₂, rfl, ha, -, hT₂⟩ := exists_cons_of_map_reading hT₁
  obtain ⟨T₃, T₄, rfl, hT₃, hT₄⟩ := List.map_eq_append_iff.1 hT₂
  obtain ⟨semi, T₅, rfl, hsemi, -, hT₅⟩ := exists_cons_of_map_reading hT₄
  obtain rfl := List.map_eq_nil_iff.1 hT₅
  have hsplit : x :: a :: (T₃ ++ [semi]) ++ rest = x :: a :: (T₃ ++ semi :: rest) := by simp
  have hbinds : Γ.binds x.kind = true := by rw [hx]; rfl
  have htarget : Derives (.chain true) Γ (d + 2) (x :: a :: (T₃ ++ semi :: rest))
      [node (.identifier x.value)] (a :: (T₃ ++ semi :: rest)) :=
    .chainFirst (.primaryName (by simp [startsFunction, hx]) (.name hbinds))
  obtain ⟨hstarts, harrow⟩ := starts_namedFunction Γ (semi :: rest) hT₃
    fun t ht => hline t (by simp [ht])
  have hassigned : Derives .assignment Γ (d + 2) (T₃ ++ semi :: rest)
      [.namedFunction isAsync isGenerator word] (semi :: rest) :=
    derives_assigned (Nat.lt_of_succ_lt hd) hstarts harrow
      (derives_namedFunction hd hword hT₃) hsemi
  rw [hvalue] at htarget
  rw [hsplit]
  exact derives_assigns (by omega) (by simp [startsExpressionStatement, hx])
    (by simp [startsArrow, hx, isArrowAt, ha]) htarget ha hassigned hsemi

/-- The declaration of a generator around a statement. -/
theorem derives_generator {rs : List (TokenKind × String)} {statement : SyntaxTree}
    (hd : d + 1 < maxNesting) (hT : T.map Token.reading = generatorReadings rs)
    (hline : ∀ t ∈ T, t.afterLineBreak = false)
    (h : ∀ T₁ rest₁, T₁.map Token.reading = rs → (∀ t ∈ T₁, t.afterLineBreak = false) →
      Derives .statement (.ofFunction false true) (d + 2) (T₁ ++ rest₁) [statement] rest₁) :
    Derives .statement Γ d (T ++ rest) [statement.generator] rest := by
  obtain ⟨f, T₁, rfl, hf, -, hT₁⟩ := exists_cons_of_map_reading hT
  obtain ⟨s, T₂, rfl, hs, -, hT₂⟩ := exists_cons_of_map_reading hT₁
  obtain ⟨g, T₃, rfl, hg, hvalue, hT₃⟩ := exists_cons_of_map_reading hT₂
  obtain ⟨o, T₄, rfl, ho, -, hT₄⟩ := exists_cons_of_map_reading hT₃
  obtain ⟨c, T₅, rfl, hc, -, hT₅⟩ := exists_cons_of_map_reading hT₄
  obtain ⟨b, T₆, rfl, hb, -, hT₆⟩ := exists_cons_of_map_reading hT₅
  obtain ⟨T₇, T₈, rfl, hT₇, hT₈⟩ := List.map_eq_append_iff.1 hT₆
  obtain ⟨e, T₉, rfl, he, -, hT₉⟩ := exists_cons_of_map_reading hT₈
  obtain rfl := List.map_eq_nil_iff.1 hT₉
  have hsplit : f :: s :: g :: o :: c :: b :: (T₇ ++ [e]) ++ rest =
      f :: s :: g :: o :: c :: b :: (T₇ ++ e :: rest) := by simp
  have hbody := h T₇ (e :: rest) hT₇ fun t ht => hline t (by simp [ht])
  have hblock : Derives .block (.ofFunction false true) (d + 1) (b :: (T₇ ++ e :: rest))
      [node (.block [statement])] rest :=
    .block hd hb (.statementsMore hbody (.statementsEnd (.inl he))) he
  have hsignature : Derives (.signature false true) Γ (d + 1)
      (o :: c :: b :: (T₇ ++ e :: rest)) ([] ++ [node (.block [statement])]) rest :=
    .signature ho (.listEnd (.inl hc)) hc hblock
  have hname : Derives (.declaredName true) (nameContext Γ true .declaration) (d + 1)
      (g :: o :: c :: b :: (T₇ ++ e :: rest)) [node (.identifier g.value)]
      (o :: c :: b :: (T₇ ++ e :: rest)) :=
    .declaredName (.name (by rw [hg]; rfl))
  have hasync : ∀ T, Accepts .asyncKeyword false (f :: T) (f :: T) :=
    fun T => ⟨by rw [kindOf_cons, hf]; decide, rfl⟩
  have hstar : ∀ T, Accepts .star true (s :: T) T := fun T => ⟨s, hs, rfl⟩
  rw [hvalue] at hname
  rw [hsplit]
  have hfunction := Derives.function (hasync _) hf (hstar _) hname hsignature
  exact .statement (Nat.lt_of_succ_lt hd)
    (.functionStatement (by simp [startsFunction, hf]) hfunction)

end Grammar

/-! ### Scripts -/

namespace Script

open Grammar Scanner

variable {word : String}

/-- A text that is passed to its end and is a statement wherever its tokens stand is a script of that
statement. -/
theorem readsAs_of_passes {source : String} {rs : List (TokenKind × String)} {statement : SyntaxTree}
    (file : String) (hpasses : Passes source.toList rs [])
    (h : ∀ T rest, T.map Token.reading = rs → (∀ t ∈ T, t.afterLineBreak = false) →
      Derives .statement .outermost 0 (T ++ rest) [statement] rest) :
    ReadsAs file source [statement] := by
  obtain ⟨hfaults, T, last, htokens, hT, hline, hlast⟩ := hpasses.exists_tokens
  refine readsAs_iff.2 ⟨hfaults, last, ?_⟩
  rw [tokens, htokens]
  exact .statementsMore (h T [last] hT hline) (.statementsEnd (.inr hlast))

/-- A text has the shape of a word exactly when it is one token by itself, a word, that has the text
for its value. A word that is not reserved is the name of every function expression that is written
with it, asynchronous or not, a generator or not, in a script and in the body of a generator. -/
theorem words_name_functions (word : String) :
    (isWord word.toList = true ↔
      ∃ t last, TokenStream.ofSource word.toList = ⟨#[t, last], #[]⟩ ∧
        t.kind.isWord = true ∧ t.start = 0 ∧ t.text = word ∧ t.value = word ∧
        last.kind = .endOfFile) ∧
    (isWord word.toList = true → isReservedWord word = false →
      ∀ (file : String) (isAsync isGenerator : Bool),
        ReadsAs file (assignmentText isAsync isGenerator word)
          [(node (.identifier "x")).assigns (.namedFunction isAsync isGenerator word)] ∧
        ReadsAs file (generatorText (assignmentText isAsync isGenerator word))
          [((node (.identifier "x")).assigns
            (.namedFunction isAsync isGenerator word)).generator]) := by
  refine ⟨⟨fun hword => ?_, ?_⟩, fun hword hreserved file isAsync isGenerator => ⟨?_, ?_⟩⟩
  · obtain ⟨last, hsource, hlast⟩ := TokenStream.ofSource_word hword
    exact ⟨_, last, hsource, isWord_wordReading _, rfl, rfl, rfl, hlast⟩
  · rintro ⟨t, last, hsource, hkind, -, -, rfl, -⟩
    have hmem : t ∈ (TokenStream.ofSource t.value.toList).tokens := by simp [hsource]
    exact TokenStream.isWord_of_mem hmem hkind
  · have hpasses := passes_assignmentText isAsync isGenerator hword []
    rw [List.append_nil] at hpasses
    exact readsAs_of_passes file hpasses fun T rest hT hline =>
      derives_assignment_named (by decide) hreserved hT hline
  · refine readsAs_of_passes file (passes_generatorText
      (passes_assignmentText isAsync isGenerator hword)) fun T rest hT hline => ?_
    exact derives_generator (by decide) hT hline fun T₁ rest₁ hT₁ hline₁ =>
      derives_assignment_named (by decide) hreserved hT₁ hline₁

/-- A word that is a keyword in front of functions, in a generator, and a word with a letter outside
ASCII and a joiner of no width. -/
theorem words_name_functions_async :
    (isWord "async".toList = true ∧ isReservedWord "async" = false ∧
      ReadsAs "" "function* g()\x7b x = async function async()\x7b\x7d; \x7d"
        [((node (.identifier "x")).assigns (.namedFunction true false "async")).generator]) ∧
    (isWord "π\u200d9".toList = true ∧ isReservedWord "π\u200d9" = false ∧
      ReadsAs "" "x = function* π\u200d9()\x7b\x7d;"
        [(node (.identifier "x")).assigns (.namedFunction false true "π\u200d9")]) := by
  have hasync : isWord "async".toList = true ∧ isReservedWord "async" = false := by decide +kernel
  have hletter : isWord "π\u200d9".toList = true ∧ isReservedWord "π\u200d9" = false := by
    decide +kernel
  have htext : generatorText (assignmentText true false "async") =
      "function* g()\x7b x = async function async()\x7b\x7d; \x7d" := by decide +kernel
  have htext' : assignmentText false true "π\u200d9" = "x = function* π\u200d9()\x7b\x7d;" := by
    decide +kernel
  refine ⟨⟨hasync.1, hasync.2, ?_⟩, hletter.1, hletter.2, ?_⟩
  · rw [← htext]
    exact ((words_name_functions "async").2 hasync.1 hasync.2 "" true false).2
  · rw [← htext']
    exact ((words_name_functions "π\u200d9").2 hletter.1 hletter.2 "" false true).1

end Script

end FunctionNaming
