import FunctionNaming.Json.Layout
import FunctionNaming.Json.Value

/-!
What is written in JSON is read again. The escape of a character is undone whatever follows it, so a
string is read up to its own closing quote. Around the signs of a value there may be blanks, and the
readers that look for a sign drop them.
-/

namespace FunctionNaming.Json

/-! ### Strings -/

theorem codeUnit_hexDigit {n : Nat} (h : n < 0x20) :
    codeUnit '0' '0' (hexDigit (n / 16)) (hexDigit (n % 16)) = some n := by
  have hall : ∀ n < 0x20, codeUnit '0' '0' (hexDigit (n / 16)) (hexDigit (n % 16)) = some n := by
    decide
  exact hall n h

/-- A code below the first half of any pair stands for a character by itself. -/
theorem readQuoted_code {a b c d : Char} {n : Nat} (h : codeUnit a b c d = some n)
    (hn : n < 0xd800) (cs : List Char) :
    readQuoted ('\\' :: 'u' :: a :: b :: c :: d :: cs) =
      consChar (Char.ofNat n) (readQuoted cs) := by
  have htrailing : isTrailing n = false := by
    have hlt : ¬0xdc00 ≤ n := by omega
    simp [isTrailing, hlt]
  have hleading : isLeading n = false := by
    have hlt : ¬0xd800 ≤ n := by omega
    simp [isLeading, hlt]
  rw [readQuoted, h]
  simp [htrailing, hleading]

theorem readQuoted_escape (c : Char) (cs : List Char) :
    readQuoted (escape c ++ cs) = consChar c (readQuoted cs) := by
  unfold escape
  split
  · rfl
  · rfl
  · rfl
  · rfl
  · rfl
  · rfl
  · rfl
  · next hquote hbackslash _ _ _ _ _ =>
    split
    · next hcontrol =>
      have hcode := readQuoted_code (codeUnit_hexDigit hcontrol) (by omega) cs
      simpa [Char.ofNat_toNat] using hcode
    · next hplain =>
      have hread : readQuoted (c :: cs) = consChar c (readQuoted cs) := by
        rw [readQuoted, if_neg hplain]
        · exact hquote
        · exact fun h => absurd h hbackslash
        · exact fun _ _ _ _ _ h => absurd h hbackslash
        · exact fun _ h => absurd h hbackslash
        · exact fun _ _ h => absurd h hbackslash
      exact hread

theorem readQuoted_flatMap_escape (text rest : List Char) :
    readQuoted (text.flatMap escape ++ '"' :: rest) = .ok (text, rest) := by
  induction text with
  | nil => rfl
  | cons c cs ih =>
    rw [List.flatMap_cons, List.append_assoc, readQuoted_escape, ih]
    rfl

namespace Reader

/-- What follows a reader that succeeds goes on with what that reader leaves. -/
theorem run_bind_of_ok {α β : Type} {r : Reader α} {k : α → Reader β} {cs rest : List Char} {a : α}
    (h : r.run cs = .ok (a, rest)) : (r >>= k).run cs = (k a).run rest := by
  rw [StateT.run_bind, h]
  rfl

/-! ### Signs among blanks -/

/-- That `cs` is nothing but blanks. -/
def Blanks (cs : List Char) : Prop := ∀ c ∈ cs, isBlank c = true

theorem blanks_nil : Blanks [] := by simp [Blanks]

section

variable {blanks : List Char} {c : Char} {cs : List Char}

theorem run_look_of_blanks (hblanks : Blanks blanks) :
    look.run blanks = .ok (none, []) := by
  have happend : (blanks ++ []).dropWhile isBlank = [].dropWhile isBlank :=
    List.dropWhile_append_of_pos hblanks
  have hdrop : blanks.dropWhile isBlank = [] := by simpa using happend
  have hrun : look.run blanks =
      .ok ((blanks.dropWhile isBlank).head?, blanks.dropWhile isBlank) := rfl
  rw [hrun, hdrop]
  rfl

theorem run_require (hblanks : Blanks blanks) (hc : isBlank c = false) :
    require.run (blanks ++ c :: cs) = .ok (c, c :: cs) := by
  have hdrop : (blanks ++ c :: cs).dropWhile isBlank = c :: cs := by
    rw [List.dropWhile_append_of_pos hblanks, List.dropWhile_cons_of_neg]
    simp [hc]
  have hlook : look.run (blanks ++ c :: cs) = .ok (some c, c :: cs) := by
    have hrun : look.run (blanks ++ c :: cs) =
        .ok (((blanks ++ c :: cs).dropWhile isBlank).head?,
          (blanks ++ c :: cs).dropWhile isBlank) := rfl
    rw [hrun, hdrop]
    rfl
  rw [require, run_bind_of_ok hlook]
  rfl

theorem run_expect (hblanks : Blanks blanks) (hc : isBlank c = false) :
    (expect c).run (blanks ++ c :: cs) = .ok ((), cs) := by
  rw [expect, run_bind_of_ok (run_require hblanks hc), if_pos rfl]
  rfl

theorem run_opened (hblanks : Blanks blanks) (hc : isBlank c = false) :
    (opened c).run (blanks ++ c :: cs) = .ok ((), cs) := by
  rw [opened, run_bind_of_ok (run_require hblanks hc), if_pos rfl]
  rfl

theorem run_finish (hblanks : Blanks blanks) : finish.run blanks = .ok ((), []) := by
  rw [finish, run_bind_of_ok (run_look_of_blanks hblanks)]
  rfl

end

/-! ### Quoted texts -/

theorem run_quotedText (text : String) (rest : List Char) :
    quotedText.run (text.toList.flatMap escape ++ '"' :: rest) = .ok (text, rest) := by
  obtain ⟨cs, hcs⟩ : ∃ cs, cs = text.toList.flatMap escape ++ '"' :: rest := ⟨_, rfl⟩
  have hget : (get : Reader (List Char)).run cs = .ok (cs, cs) := rfl
  have hread : readQuoted cs = .ok (text.toList, rest) := by
    rw [hcs]
    exact readQuoted_flatMap_escape text.toList rest
  have hlift : (liftM (Except.ok (text.toList, rest) : Except Fault _) : Reader _).run cs =
      .ok ((text.toList, rest), cs) := rfl
  have htext : String.ofList text.toList = text := String.ofList_toList
  rw [← hcs, quotedText, run_bind_of_ok hget, hread, run_bind_of_ok hlift]
  exact congrArg (fun read => Except.ok (read, rest)) htext

theorem quoted_append (text : String) (rest : List Char) :
    quoted text ++ rest = '"' :: (text.toList.flatMap escape ++ '"' :: rest) := by
  simp [quoted]

theorem run_key (text : String) (rest : List Char) :
    key.run (quoted text ++ rest) = .ok (text, rest) := by
  have hquote : (expect '"').run (quoted text ++ rest) =
      .ok ((), text.toList.flatMap escape ++ '"' :: rest) := by
    rw [quoted_append]
    exact run_expect blanks_nil (by decide)
  rw [key, run_bind_of_ok hquote]
  exact run_quotedText text rest

theorem run_string {blanks : List Char} (hblanks : Blanks blanks) (text : String)
    (rest : List Char) : string.run (blanks ++ (quoted text ++ rest)) = .ok (text, rest) := by
  have hquote : (opened '"').run (blanks ++ (quoted text ++ rest)) =
      .ok ((), text.toList.flatMap escape ++ '"' :: rest) := by
    rw [quoted_append]
    exact run_opened hblanks (by decide)
  rw [string, run_bind_of_ok hquote]
  exact run_quotedText text rest

/-! ### Items -/

section

variable {close : Char} {blanks blanks' : List Char} {c : Char} {cs : List Char}

theorem run_nextItem_close (first : Bool) (hblanks : Blanks blanks) (hclose : isBlank close = false) :
    (nextItem close first).run (blanks ++ close :: cs) = .ok (false, cs) := by
  rw [nextItem, run_bind_of_ok (run_require hblanks hclose), if_pos rfl]
  rfl

theorem run_nextItem_first (hblanks : Blanks blanks) (hc : isBlank c = false) (hne : c ≠ close) :
    (nextItem close true).run (blanks ++ c :: cs) = .ok (true, c :: cs) := by
  rw [nextItem, run_bind_of_ok (run_require hblanks hc), if_neg hne]
  rfl

theorem run_nextItem_comma (hblanks : Blanks blanks) (hcomma : ',' ≠ close)
    (hc : isBlank c = false) (hne : c ≠ close) :
    (nextItem close false).run (',' :: (blanks ++ c :: cs)) = .ok (true, c :: cs) := by
  have hfirst : require.run (',' :: (blanks ++ c :: cs)) =
      .ok (',', ',' :: (blanks ++ c :: cs)) := run_require blanks_nil (by decide)
  have hskip : skip.run (',' :: (blanks ++ c :: cs)) = .ok ((), blanks ++ c :: cs) := rfl
  have hsecond : require.run (blanks ++ c :: cs) = .ok (c, c :: cs) := run_require hblanks hc
  rw [nextItem, run_bind_of_ok hfirst, if_neg hcomma]
  simp only [Bool.false_eq_true, if_false, if_true]
  rw [run_bind_of_ok hskip, run_bind_of_ok hsecond, if_neg hne]
  rfl

end

end Reader

end FunctionNaming.Json
