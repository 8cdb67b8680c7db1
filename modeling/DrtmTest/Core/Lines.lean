/-
Patterns anchored at the beginnings of lines: `re.search` and `re.split` of a pattern that opens with `^`, under
`re.MULTILINE`.

- `search_line`, `search_lines`: the lines of a text are tried one after the other.
- `split_blocks`: a text of lines with a marker before some of them splits into the blocks behind the markers.
-/
import Mathlib.Data.List.Infix

namespace DrtmTest.Lines

/-- the text of a list of lines -/
def unlines (ls : List (List Char)) : List Char := ls.flatMap (· ++ ['\n'])

theorem unlines_cons (l : List Char) (ls : List (List Char)) : unlines (l :: ls) = l ++ '\n' :: unlines ls := by
  rw [unlines, List.flatMap_cons, List.append_assoc]
  rfl

theorem unlines_append (ls ms : List (List Char)) : unlines (ls ++ ms) = unlines ls ++ unlines ms := List.flatMap_append

/-- a text without a line end that begins a line begins in the line itself -/
theorem prefix_line {mark line rest : List Char} (hmark : '\n' ∉ mark) (h : mark <+: line ++ '\n' :: rest) : mark <+: line := by
  have hline : line ++ ['\n'] <+: line ++ '\n' :: rest := ⟨rest, by rw [List.append_assoc]; rfl⟩
  rcases List.prefix_or_prefix_of_prefix h hline with hle | hge
  · exact ((List.prefix_concat_iff.1 hle).resolve_left fun heq =>
      hmark (heq ▸ List.mem_append_right line (List.mem_singleton_self '\n')))
  · exact absurd (hge.subset (List.mem_append_right line (List.mem_singleton_self '\n'))) hmark

/-! ## Search -/

section Search

variable {α : Type} (pattern : List Char → Option α)

/-- from here on, `start` at the beginning of a line: what the first line gives that the pattern matches at -/
def searchFrom : Bool → List Char → Option α
  | start, [] => if start then pattern [] else none
  | start, c :: cs => if start then (pattern (c :: cs)).or (searchFrom (c = '\n') cs) else searchFrom (c = '\n') cs

/-- `re.search` -/
def search (cs : List Char) : Option α := searchFrom pattern true cs

theorem searchFrom_inside {line : List Char} (h : '\n' ∉ line) (rest : List Char) :
    searchFrom pattern false (line ++ '\n' :: rest) = search pattern rest := by
  induction line with
  | nil => rfl
  | cons c line ih =>
    have hc : c ≠ '\n' := fun heq => h (heq ▸ List.mem_cons_self)
    rw [List.cons_append, searchFrom, if_neg Bool.false_ne_true, decide_eq_false hc]
    exact ih fun hmem => h (List.mem_cons_of_mem c hmem)

/-- One line is tried, then what is behind it. -/
theorem search_line {line : List Char} (h : '\n' ∉ line) (rest : List Char) :
    search pattern (line ++ '\n' :: rest) = (pattern (line ++ '\n' :: rest)).or (search pattern rest) := by
  cases line with
  | nil => rfl
  | cons c line =>
    have hc : c ≠ '\n' := fun heq => h (heq ▸ List.mem_cons_self)
    rw [search, List.cons_append, searchFrom, if_pos rfl, decide_eq_false hc,
      searchFrom_inside pattern (fun hmem => h (List.mem_cons_of_mem c hmem))]

/-- lines that do not match are passed -/
theorem search_lines {ls : List (List Char)} (rest : List Char)
    (h : ∀ l ∈ ls, '\n' ∉ l ∧ ∀ more, pattern (l ++ '\n' :: more) = none) :
    search pattern (unlines ls ++ rest) = search pattern rest := by
  induction ls with
  | nil => rfl
  | cons l ls ih =>
    obtain ⟨hl, hpattern⟩ := h l List.mem_cons_self
    rw [unlines_cons, List.append_assoc, List.cons_append, search_line pattern hl, hpattern, Option.none_or,
      ih fun l hl => h l (List.mem_cons_of_mem _ hl)]

end Search

/-! ## Split -/

section Split

variable (mark : List Char)

/-- from here on, `skip` characters of a marker to go, `start` at the beginning of a line: the text up to the first marker,
and the texts behind the markers -/
def splitFrom : ℕ → Bool → List Char → List Char × List (List Char)
  | _, _, [] => ([], [])
  | skip + 1, _, _ :: cs => splitFrom skip false cs
  | 0, start, c :: cs =>
    if start ∧ mark <+: c :: cs then
      let found := splitFrom (mark.length - 1) false cs
      ([], found.1 :: found.2)
    else
      let found := splitFrom 0 (c = '\n') cs
      (c :: found.1, found.2)

/-- `re.split` -/
def split (cs : List Char) : List (List Char) :=
  let found := splitFrom mark 0 true cs
  found.1 :: found.2

variable {mark}

theorem splitFrom_skip (u cs : List Char) : splitFrom mark u.length false (u ++ cs) = splitFrom mark 0 false cs := by
  induction u with
  | nil => rfl
  | cons c u ih => exact ih

theorem splitFrom_mark (hne : mark ≠ []) (cs : List Char) : splitFrom mark 0 true (mark ++ cs) =
    ([], (splitFrom mark 0 false cs).1 :: (splitFrom mark 0 false cs).2) := by
  obtain ⟨m, ms, rfl⟩ := List.exists_cons_of_ne_nil hne
  rw [List.cons_append, splitFrom, if_pos ⟨rfl, ⟨cs, rfl⟩⟩, List.length_cons, Nat.add_sub_cancel, splitFrom_skip]

theorem splitFrom_inside {line : List Char} (h : '\n' ∉ line) (rest : List Char) :
    splitFrom mark 0 false (line ++ '\n' :: rest) =
      (line ++ '\n' :: (splitFrom mark 0 true rest).1, (splitFrom mark 0 true rest).2) := by
  induction line with
  | nil => rfl
  | cons c line ih =>
    have hc : c ≠ '\n' := fun heq => h (heq ▸ List.mem_cons_self)
    rw [List.cons_append, splitFrom, if_neg (fun hstart => Bool.false_ne_true hstart.1), decide_eq_false hc,
      ih fun hmem => h (List.mem_cons_of_mem c hmem)]
    rfl

/-- a line that does not begin with the marker -/
structure Other (mark line : List Char) : Prop where
  newline : '\n' ∉ line
  mark : ¬ mark <+: line

theorem splitFrom_line (hmark : '\n' ∉ mark) {line : List Char} (h : Other mark line) (rest : List Char) :
    splitFrom mark 0 true (line ++ '\n' :: rest) =
      (line ++ '\n' :: (splitFrom mark 0 true rest).1, (splitFrom mark 0 true rest).2) := by
  have hno : ¬ mark <+: line ++ '\n' :: rest := fun hprefix => h.mark (prefix_line hmark hprefix)
  cases line with
  | nil =>
    rw [List.nil_append] at hno
    rw [List.nil_append, splitFrom, if_neg fun hstart => hno hstart.2]
    rfl
  | cons c line =>
    have hc : c ≠ '\n' := fun heq => h.newline (heq ▸ List.mem_cons_self)
    have hline : '\n' ∉ line := fun hmem => h.newline (List.mem_cons_of_mem c hmem)
    rw [List.cons_append] at hno
    rw [List.cons_append, splitFrom, if_neg fun hstart => hno hstart.2, decide_eq_false hc, splitFrom_inside hline]
    rfl

theorem splitFrom_lines (hmark : '\n' ∉ mark) {ls : List (List Char)} (h : ∀ l ∈ ls, Other mark l) (rest : List Char) :
    splitFrom mark 0 true (unlines ls ++ rest) =
      (unlines ls ++ (splitFrom mark 0 true rest).1, (splitFrom mark 0 true rest).2) := by
  induction ls with
  | nil => rfl
  | cons l ls ih =>
    rw [unlines_cons, List.append_assoc, List.cons_append, splitFrom_line hmark (h l List.mem_cons_self),
      ih fun l hl => h l (List.mem_cons_of_mem _ hl)]
    simp only [List.append_assoc, List.cons_append]

/-- a marker, what stands behind it in its line, and the lines up to the next one -/
structure Block (mark : List Char) where
  head : List Char
  body : List (List Char)
  head_line : '\n' ∉ head
  body_other : ∀ l ∈ body, Other mark l

theorem splitFrom_blocks (hne : mark ≠ []) (hmark : '\n' ∉ mark) (blocks : List (Block mark)) :
    splitFrom mark 0 true (blocks.flatMap fun b => mark ++ unlines (b.head :: b.body)) =
      ([], blocks.map fun b => unlines (b.head :: b.body)) := by
  induction blocks with
  | nil => rfl
  | cons b blocks ih =>
    rw [List.flatMap_cons, List.append_assoc, splitFrom_mark hne, unlines_cons, List.append_assoc, List.cons_append,
      splitFrom_inside b.head_line, splitFrom_lines hmark b.body_other, ih, List.append_nil, List.map_cons, unlines_cons]

/-- A text of lines splits into what is before the first marker and the blocks behind the markers. -/
theorem split_blocks (hne : mark ≠ []) (hmark : '\n' ∉ mark) {ls : List (List Char)} (h : ∀ l ∈ ls, Other mark l)
    (blocks : List (Block mark)) :
    split mark (unlines ls ++ blocks.flatMap fun b => mark ++ unlines (b.head :: b.body)) =
      unlines ls :: blocks.map fun b => unlines (b.head :: b.body) := by
  rw [split, splitFrom_lines hmark h, splitFrom_blocks hne hmark, List.append_nil]

end Split

end DrtmTest.Lines
