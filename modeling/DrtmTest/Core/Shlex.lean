/-
Command lines as Python's `shlex` splits and joins them, in its POSIX mode with only blanks between words and no comments.

`splitFrom` is the lexer's automaton: between words, in a word, inside a quote, behind a backslash. A backslash inside double
quotes escapes only the quote and itself. A word that a quote opened is one even if it is empty.

- `splitFrom_quote`: a quoted text reads back as itself, whatever is in it, and leaves the lexer in the word.
- `split_join`: so does a joined list of words.
-/
import Mathlib.Data.List.Basic
import Mathlib.Tactic

namespace DrtmTest.Shlex

inductive ShlexError where
  | noClosingQuotation
  | noEscapedCharacter
  deriving DecidableEq

/-- where the lexer is -/
inductive State where
  | blank
  | word
  | quote (c : Char)
  /-- behind a backslash, in a word or in a quote -/
  | escape (inside : Option Char)

def isBlank (c : Char) : Bool := c = ' ' ∨ c = '\t' ∨ c = '\r' ∨ c = '\n'

def isQuote (c : Char) : Bool := c = '\'' ∨ c = '"'

/-- a word, if it is one -/
def emit (token : List Char) (quoted : Bool) : List (List Char) := if token = [] ∧ ¬ quoted then [] else [token]

/-- `quoted` says that a quote was opened in this word -/
def splitFrom : State → List Char → Bool → List Char → Except ShlexError (List (List Char))
  | .blank, _, _, [] => .ok []
  | .blank, token, quoted, c :: cs =>
    if isBlank c then splitFrom .blank token quoted cs
    else if c = '\\' then splitFrom (.escape none) token quoted cs
    else if isQuote c then splitFrom (.quote c) token true cs
    else splitFrom .word (token ++ [c]) quoted cs
  | .word, token, quoted, [] => .ok (emit token quoted)
  | .word, token, quoted, c :: cs =>
    if isBlank c then (splitFrom .blank [] false cs).map (emit token quoted ++ ·)
    else if isQuote c then splitFrom (.quote c) token true cs
    else if c = '\\' then splitFrom (.escape none) token quoted cs
    else splitFrom .word (token ++ [c]) quoted cs
  | .quote _, _, _, [] => .error .noClosingQuotation
  | .quote q, token, quoted, c :: cs =>
    if c = q then splitFrom .word token quoted cs
    else if c = '\\' ∧ q = '"' then splitFrom (.escape (some q)) token quoted cs
    else splitFrom (.quote q) (token ++ [c]) quoted cs
  | .escape _, _, _, [] => .error .noEscapedCharacter
  | .escape none, token, quoted, c :: cs => splitFrom .word (token ++ [c]) quoted cs
  | .escape (some q), token, quoted, c :: cs =>
    splitFrom (.quote q) (token ++ (if c ≠ '\\' ∧ c ≠ q then ['\\', c] else [c])) quoted cs

/-- `shlex.split` -/
def split (text : List Char) : Except ShlexError (List (List Char)) := splitFrom .blank [] false text

/-- a character that needs no quotes -/
def isSafe (c : Char) : Bool :=
  ('a' ≤ c ∧ c ≤ 'z') ∨ ('A' ≤ c ∧ c ≤ 'Z') ∨ ('0' ≤ c ∧ c ≤ '9') ∨ c ∈ ['_', '@', '%', '+', '=', ':', ',', '.', '/', '-']

/-- a single quote cannot stand in single quotes -/
def quoteChar (c : Char) : List Char := if c = '\'' then ['\'', '"', '\'', '"', '\''] else [c]

/-- `shlex.quote` -/
def quote (text : List Char) : List Char :=
  if text = [] then ['\'', '\'']
  else if text.all isSafe then text
  else '\'' :: text.flatMap quoteChar ++ ['\'']

/-- `shlex.join` -/
def join (words : List (List Char)) : List Char := [' '].intercalate (words.map quote)

/-! ## Quoted texts -/

theorem isSafe_plain {c : Char} (h : isSafe c = true) : isBlank c = false ∧ isQuote c = false ∧ c ≠ '\\' := by
  have hne : ∀ d : Char, isSafe d = false → c ≠ d := by
    rintro d hd rfl
    rw [hd] at h
    cases h
  have hblank := hne ' ' (by decide)
  have htab := hne '\t' (by decide)
  have hreturn := hne '\r' (by decide)
  have hnewline := hne '\n' (by decide)
  have hsingle := hne '\'' (by decide)
  have hdouble := hne '"' (by decide)
  exact ⟨by simp [isBlank, hblank, htab, hreturn, hnewline], by simp [isQuote, hsingle, hdouble], hne '\\' (by decide)⟩

/-- safe characters go on with a word -/
theorem splitFrom_safe {cs : List Char} (h : ∀ c ∈ cs, isSafe c = true) (token : List Char) (quoted : Bool)
    (rest : List Char) : splitFrom .word token quoted (cs ++ rest) = splitFrom .word (token ++ cs) quoted rest := by
  induction cs generalizing token with
  | nil => rw [List.nil_append, List.append_nil]
  | cons c cs ih =>
    obtain ⟨hblank, hquote, hescape⟩ := isSafe_plain (h c List.mem_cons_self)
    rw [List.cons_append, splitFrom, if_neg (by simp [hblank]), if_neg (by simp [hquote]), if_neg hescape,
      ih (fun d hd => h d (List.mem_cons_of_mem _ hd)), List.append_assoc, List.singleton_append]

/-- one character inside single quotes -/
theorem splitFrom_quoteChar (c : Char) (token rest : List Char) :
    splitFrom (.quote '\'') token true (quoteChar c ++ rest) = splitFrom (.quote '\'') (token ++ [c]) true rest := by
  by_cases hc : c = '\''
  · subst hc
    simp [quoteChar, splitFrom, isBlank, isQuote]
  · simp [quoteChar, splitFrom, hc]

theorem splitFrom_body (cs token rest : List Char) :
    splitFrom (.quote '\'') token true (cs.flatMap quoteChar ++ rest) = splitFrom (.quote '\'') (token ++ cs) true rest := by
  induction cs generalizing token with
  | nil => rw [List.flatMap_nil, List.nil_append, List.append_nil]
  | cons c cs ih =>
    rw [List.flatMap_cons, List.append_assoc, splitFrom_quoteChar, ih, List.append_assoc, List.singleton_append]

/-- A quoted text is read as itself, and as a word. -/
theorem splitFrom_quote (text rest : List Char) :
    ∃ quoted, emit text quoted = [text] ∧
      splitFrom .blank [] false (quote text ++ rest) = splitFrom .word text quoted rest := by
  unfold quote
  split_ifs with hnil hsafe
  · subst hnil
    exact ⟨true, rfl, by simp [splitFrom, isBlank, isQuote]⟩
  · refine ⟨false, by simp [emit, hnil], ?_⟩
    obtain ⟨c, cs, rfl⟩ := List.exists_cons_of_ne_nil hnil
    have hall := List.all_eq_true.1 hsafe
    obtain ⟨hblank, hquote, hescape⟩ := isSafe_plain (hall c List.mem_cons_self)
    rw [List.cons_append, splitFrom, if_neg (by simp [hblank]), if_neg hescape, if_neg (by simp [hquote]),
      splitFrom_safe fun d hd => hall d (List.mem_cons_of_mem _ hd)]
    rfl
  · refine ⟨true, by simp [emit], ?_⟩
    have hbody := splitFrom_body text [] ('\'' :: rest)
    rw [List.nil_append] at hbody
    calc splitFrom .blank [] false ('\'' :: text.flatMap quoteChar ++ ['\''] ++ rest)
      _ = splitFrom (.quote '\'') [] true (text.flatMap quoteChar ++ '\'' :: rest) := by
        simp [splitFrom, isBlank, isQuote]
      _ = splitFrom (.quote '\'') text true ('\'' :: rest) := hbody
      _ = splitFrom .word text true rest := by simp [splitFrom]

/-- **A joined list of words splits into them**, whatever is in them. -/
theorem split_joined (words : List (List Char)) : split (join words) = .ok words := by
  induction words with
  | nil => rfl
  | cons text words ih =>
    cases words with
    | nil =>
      obtain ⟨quoted, hemit, hread⟩ := splitFrom_quote text []
      rw [List.append_nil] at hread
      have hjoin : join [text] = quote text := by simp [join]
      rw [hjoin, split, hread, splitFrom, hemit]
    | cons next words =>
      obtain ⟨quoted, hemit, hread⟩ := splitFrom_quote text (' ' :: join (next :: words))
      have hjoin : join (text :: next :: words) = quote text ++ ' ' :: join (next :: words) := by
        simp [join, List.intercalate]
      rw [hjoin, split, hread, splitFrom, if_pos (by decide), hemit]
      change (split (join (next :: words))).map _ = _
      rw [ih]
      rfl

example : split "-m 6G 'a \"b'\\'' c' -cpu\\ x \"y\\\"z\\w\"".toList =
    .ok ["-m".toList, "6G".toList, "a \"b' c".toList, "-cpu x".toList, "y\"z\\w".toList] := by decide

end DrtmTest.Shlex
