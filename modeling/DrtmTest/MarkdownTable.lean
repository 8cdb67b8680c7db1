/-
The Markdown tables of the report (`_table` of `drtmtest/report.py`), read back.

- `widths_isGreatest`: the width of a column is the length of its widest cell.
- `tableLine_framed`, `tableRule_framed`: a line and the rule are groups of the same lengths between bars.
- `table_reads_back`: so the lines of a table are of one length, and stripping the outer bars of a line, splitting it at the
  bars and stripping the parts gives its cells.

What the reader strips off the parts is a parameter: `strip()` takes every blank, `strip(" ")` only the space.
-/
import Mathlib.Order.Bounds.Basic
import DrtmTest.Report

namespace DrtmTest.MarkdownTable

open DrtmTest.Text DrtmTest.Report

/-! ## Reading a table -/

/-- `[cell.strip() for cell in line.strip("|").split("|")]` -/
def readRow (blank : Char → Bool) (line : String) : List String :=
  ((stripOf (· = '|') line.toList).splitOn '|').map fun part => String.ofList (stripOf blank part)

/-- a cell without a bar that neither begins nor ends with a blank -/
structure Bare (blank : Char → Bool) (cell : String) : Prop where
  bar : '|' ∉ cell.toList
  head : ∀ c ∈ cell.toList.head?, blank c = false
  last : ∀ c ∈ cell.toList.getLast?, blank c = false

theorem bare_iff {blank : Char → Bool} {cell : String} : Bare blank cell ↔ '|' ∉ cell.toList ∧
    cell.toList.head?.all (fun c => !blank c) = true ∧ cell.toList.getLast?.all (fun c => !blank c) = true := by
  simp only [Option.all_eq_true, Bool.not_eq_true']
  exact ⟨fun h => ⟨h.bar, h.head, h.last⟩, fun h => ⟨h.1, h.2.1, h.2.2⟩⟩

instance (blank : Char → Bool) (cell : String) : Decidable (Bare blank cell) := decidable_of_iff' _ bare_iff

/-- groups of characters, with a bar before each and one behind the last -/
def framed (groups : List (List Char)) : String := String.ofList ('|' :: (['|'].intercalate groups ++ ['|']))

/-- the groups of a line: each cell at its width, a space on either side -/
def groups (cells : List String) (ws : List ℕ) : List (List Char) :=
  List.zipWith (fun cell w => ' ' :: ((ljust cell w).toList ++ [' '])) cells ws

/-- the lengths of the cells of a column -/
def columnLengths (rows : List (List String)) (j : ℕ) : Set ℕ :=
  {n | ∃ row ∈ rows, ∃ cell, row[j]? = some cell ∧ cell.length = n}

/-- each cell fits in its column -/
def Fits (cells : List String) (ws : List ℕ) : Prop := List.Forall₂ (fun cell w => cell.length ≤ w) cells ws

/-- the characters of a line: a cell, two spaces and a bar for each column, and the last bar -/
def lineLength (ws : List ℕ) : ℕ := (ws.map (· + 3)).sum + 1

/-! ## The widths -/

theorem columnLengths_append (rows rows' : List (List String)) (j : ℕ) :
    columnLengths (rows ++ rows') j = columnLengths rows j ∪ columnLengths rows' j := by
  ext n
  simp only [columnLengths, Set.mem_union, Set.mem_ofPred_eq, List.mem_append, or_and_right, exists_or]

theorem columnLengths_singleton {row : List String} {j : ℕ} {cell : String} (h : row[j]? = some cell) :
    columnLengths [row] j = {cell.length} := by
  ext n
  simp [columnLengths, h, eq_comm]

theorem widths_snoc (header row : List String) (rows : List (List String)) :
    widths header (rows ++ [row]) = List.zipWith max (widths header rows) (row.map String.length) :=
  List.foldl_append

theorem widths_length {header : List String} {rows : List (List String)} (h : ∀ row ∈ rows, row.length = header.length) :
    (widths header rows).length = header.length := by
  induction rows using List.reverseRecOn with
  | nil => exact List.length_map ..
  | append_singleton rows row ih =>
    have hrow : row.length = header.length := h row (List.mem_append_right _ (List.mem_singleton_self row))
    rw [widths_snoc, List.length_zipWith, ih fun row hr => h row (List.mem_append_left _ hr), List.length_map, hrow,
      min_self]

/-- The width of a column is the length of its widest cell. -/
theorem widths_isGreatest {header : List String} {rows : List (List String)} {j n : ℕ}
    (h : (widths header rows)[j]? = some n) : IsGreatest (columnLengths (header :: rows) j) n := by
  induction rows using List.reverseRecOn generalizing n with
  | nil =>
    rw [widths, List.foldl_nil, List.getElem?_map, Option.map_eq_some_iff] at h
    obtain ⟨cell, hcell, rfl⟩ := h
    rw [columnLengths_singleton hcell]
    exact isGreatest_singleton
  | append_singleton rows row ih =>
    rw [widths_snoc, List.getElem?_zipWith_eq_some] at h
    obtain ⟨w, k, hw, hk, rfl⟩ := h
    rw [List.getElem?_map, Option.map_eq_some_iff] at hk
    obtain ⟨cell, hcell, rfl⟩ := hk
    rw [← List.cons_append, columnLengths_append, columnLengths_singleton hcell]
    exact (ih hw).union isGreatest_singleton

theorem widths_fits {header row : List String} {rows : List (List String)} (h : ∀ row ∈ rows, row.length = header.length)
    (hrow : row ∈ header :: rows) : Fits row (widths header rows) := by
  have hlength : row.length = header.length := (List.mem_cons.1 hrow).elim (fun heq => heq ▸ rfl) (h row)
  refine List.forall₂_iff_get.2 ⟨by rw [hlength, widths_length h], fun j hj hw => ?_⟩
  exact (widths_isGreatest (List.getElem?_eq_getElem hw)).2 ⟨row, hrow, _, List.getElem?_eq_getElem hj, rfl⟩

/-- a line has a cell for each column, so what it makes of them is not empty -/
theorem Fits.zipWith_ne_nil {β : Type} {cells : List String} {ws : List ℕ} (h : Fits cells ws) (hne : cells ≠ [])
    (f : String → ℕ → β) : List.zipWith f cells ws ≠ [] := by
  cases h with
  | nil => exact absurd rfl hne
  | cons => exact List.cons_ne_nil _ _

/-! ## Lines -/

/-- Bars with a space on either side between texts are bars between the texts with their spaces. -/
theorem blank_bars {parts : List (List Char)} (h : parts ≠ []) : ' ' :: ([' ', '|', ' '].intercalate parts ++ [' ']) =
    ['|'].intercalate (parts.map fun part => ' ' :: (part ++ [' '])) := by
  induction parts with
  | nil => exact absurd rfl h
  | cons part parts ih =>
    cases parts with
    | nil => simp
    | cons next parts =>
      have hrest := ih (List.cons_ne_nil next parts)
      rw [List.map_cons] at hrest
      rw [List.map_cons, List.map_cons, List.intercalate_cons_cons, List.intercalate_cons_cons, ← hrest]
      simp only [List.cons_append, List.append_assoc, List.nil_append]

/-- the groups of a line between bars are what `tableLine` writes between its outer bars -/
theorem groups_bars {cells : List String} {ws : List ℕ} (h : cells ≠ []) (hfits : Fits cells ws) :
    ['|'].intercalate (groups cells ws) =
      ' ' :: ([' ', '|', ' '].intercalate ((List.zipWith ljust cells ws).map String.toList) ++ [' ']) := by
  have hgroups : groups cells ws =
      ((List.zipWith ljust cells ws).map String.toList).map fun part => ' ' :: (part ++ [' ']) := by
    rw [groups, List.map_map, List.map_zipWith]
    rfl
  rw [hgroups, blank_bars (mt List.map_eq_nil_iff.1 (hfits.zipWith_ne_nil h ljust))]

theorem tableLine_framed {cells : List String} {ws : List ℕ} (h : cells ≠ []) (hfits : Fits cells ws) :
    tableLine ws cells = framed (groups cells ws) := by
  apply String.toList_injective
  rw [framed, String.toList_ofList, groups_bars h hfits]
  simp [tableLine, String.toList_intercalate]

theorem tableRule_framed (ws : List ℕ) : tableRule ws = framed (ws.map fun w => List.replicate (w + 2) '-') := by
  apply String.toList_injective
  simp [tableRule, framed, String.toList_intercalate, Function.comp_def]

theorem framed_length {gs : List (List Char)} (h : gs ≠ []) :
    (framed gs).length = ((gs.map List.length).map (· + 1)).sum + 1 := by
  have hbars : (['|'].intercalate gs).length + 1 = ((gs.map List.length).map (· + 1)).sum := by
    induction gs with
    | nil => exact absurd rfl h
    | cons g gs ih =>
      cases gs with
      | nil => simp
      | cons g' gs =>
        rw [List.intercalate_cons_cons, List.map_cons, List.map_cons, List.sum_cons, ← ih (List.cons_ne_nil g' gs)]
        simp only [List.length_append, List.length_singleton]
        omega
  rw [framed, String.length_ofList, List.length_cons, List.length_append, List.length_singleton, hbars]

/-! ## Reading back -/

section Reading

variable {blank : Char → Bool} {cells : List String} {ws : List ℕ}

theorem ljust_length {cell : String} {w : ℕ} (h : cell.length ≤ w) : (ljust cell w).toList.length = w := by
  rw [ljust, String.toList_append, String.toList_ofList, List.length_append, List.length_replicate, String.length_toList]
  exact Nat.add_sub_cancel' h

theorem groups_length (h : Fits cells ws) : (groups cells ws).map List.length = ws.map (· + 2) := by
  induction h with
  | nil => rfl
  | cons hcell _ ih =>
    rw [groups, List.zipWith_cons_cons, List.map_cons, List.map_cons, List.length_cons, List.length_append,
      ljust_length hcell, List.length_singleton, ← groups, ih]

/-- a line is as long as the widths say, whatever its cells -/
theorem tableLine_length (hne : cells ≠ []) (h : Fits cells ws) : (tableLine ws cells).length = lineLength ws := by
  calc (tableLine ws cells).length = (((groups cells ws).map List.length).map (· + 1)).sum + 1 := by
        rw [tableLine_framed hne h]
        exact framed_length (h.zipWith_ne_nil hne _)
    _ = ((ws.map (· + 2)).map (· + 1)).sum + 1 := by rw [groups_length h]
    _ = lineLength ws := by rw [List.map_map]; rfl

theorem tableRule_length (hne : ws ≠ []) : (tableRule ws).length = lineLength ws := by
  have hdashes : (ws.map fun w => List.replicate (w + 2) '-').map List.length = ws.map (· + 2) := by
    rw [List.map_map]
    exact List.map_congr_left fun w _ => List.length_replicate
  calc (tableRule ws).length = ((ws.map (· + 2)).map (· + 1)).sum + 1 := by
        rw [tableRule_framed, framed_length (mt List.map_eq_nil_iff.1 hne), hdashes]
    _ = lineLength ws := by rw [List.map_map]; rfl

/-- a padded cell is the cell with blanks around it -/
theorem strip_group (hblank : blank ' ' = true) {cell : String} (h : Bare blank cell) (w : ℕ) :
    String.ofList (stripOf blank (' ' :: ((ljust cell w).toList ++ [' ']))) = cell := by
  have hpadding : ∀ c ∈ List.replicate (w - cell.length) ' ' ++ [' '], blank c = true := by
    intro c hc
    rcases List.mem_append.1 hc with hc | hc
    · exact List.eq_of_mem_replicate hc ▸ hblank
    · exact List.mem_singleton.1 hc ▸ hblank
  have hfront : ∀ c ∈ [' '], blank c = true := fun c hc => List.mem_singleton.1 hc ▸ hblank
  have hstrip := stripOf_around hfront hpadding h.head h.last
  rw [ljust, String.toList_append, String.toList_ofList, List.append_assoc, ← List.singleton_append, hstrip,
    String.ofList_toList]

theorem groups_strip (hblank : blank ' ' = true) (h : Fits cells ws) (hcells : ∀ cell ∈ cells, Bare blank cell) :
    ((groups cells ws).map fun g => String.ofList (stripOf blank g)) = cells := by
  induction h with
  | nil => rfl
  | cons _ _ ih =>
    rw [groups, List.zipWith_cons_cons, List.map_cons, strip_group hblank (hcells _ List.mem_cons_self), ← groups,
      ih fun cell hc => hcells cell (List.mem_cons_of_mem _ hc)]

theorem groups_bar (h : Fits cells ws) (hcells : ∀ cell ∈ cells, Bare blank cell) : ∀ g ∈ groups cells ws, '|' ∉ g := by
  induction h with
  | nil => exact List.forall_mem_nil _
  | cons _ _ ih =>
    refine List.forall_mem_cons.2 ⟨?_, ih fun cell hc => hcells cell (List.mem_cons_of_mem _ hc)⟩
    simp [ljust, (hcells _ List.mem_cons_self).bar]

/-- the outer bars go: behind the first and before the last stands a space -/
theorem strip_framed (hne : cells ≠ []) (h : Fits cells ws) :
    stripOf (· = '|') (framed (groups cells ws)).toList = ['|'].intercalate (groups cells ws) := by
  have hbar : ∀ c ∈ ['|'], decide (c = '|') = true := List.forall_mem_singleton.2 (decide_eq_true rfl)
  have hcore := groups_bars hne h
  rw [framed, String.toList_ofList, ← List.singleton_append]
  refine stripOf_around hbar hbar ?_ ?_
  · rw [hcore]
    rintro c ⟨⟩
    rfl
  · rw [hcore, ← List.cons_append, List.getLast?_concat]
    rintro c ⟨⟩
    rfl

/-- A line reads back as its cells. -/
theorem readRow_tableLine (hblank : blank ' ' = true) (hne : cells ≠ []) (h : Fits cells ws)
    (hcells : ∀ cell ∈ cells, Bare blank cell) : readRow blank (tableLine ws cells) = cells := by
  have hsplit := List.splitOn_intercalate '|' (groups_bar h hcells) (h.zipWith_ne_nil hne _)
  rw [readRow, tableLine_framed hne h, strip_framed hne h, hsplit, groups_strip hblank h hcells]

end Reading

/-- **A table reads back.** For a header of at least one cell and rows of its length, with cells that have no bar in them and
no blank at either end: the table has a line for each row and two more, all of one length; the second is one group of dashes
for each column between bars; and every other line reads back as its cells, the header first and the rows in order. -/
theorem table_reads_back (blank : Char → Bool) (hblank : blank ' ' = true) (header : List String)
    (rows : List (List String)) (hheader : header ≠ []) (hrows : ∀ row ∈ rows, row.length = header.length)
    (hcells : ∀ row ∈ header :: rows, ∀ cell ∈ row, Bare blank cell) :
    (table header rows).length = rows.length + 2 ∧
      (∀ line ∈ table header rows, line.length = lineLength (widths header rows)) ∧
      (∃ dashes, (table header rows)[1]? = some (framed dashes) ∧ dashes.length = header.length ∧
        ∀ g ∈ dashes, g ≠ [] ∧ ∀ c ∈ g, c = '-') ∧
      ((table header rows).eraseIdx 1).map (readRow blank) = header :: rows := by
  have hne : ∀ row ∈ header :: rows, row ≠ [] := by
    refine List.forall_mem_cons.2 ⟨hheader, fun row hr hnil => hheader (List.eq_nil_of_length_eq_zero ?_)⟩
    rw [← hrows row hr, hnil, List.length_nil]
  have hfits : ∀ row ∈ header :: rows, Fits row (widths header rows) := fun row hr => widths_fits hrows hr
  have hwidths : widths header rows ≠ [] := by
    intro hnil
    have hlength := widths_length hrows
    rw [hnil] at hlength
    exact hheader (List.eq_nil_of_length_eq_zero hlength.symm)
  have hline : ∀ row ∈ header :: rows, (tableLine (widths header rows) row).length = lineLength (widths header rows) :=
    fun row hr => tableLine_length (hne row hr) (hfits row hr)
  have hread : ∀ row ∈ header :: rows, readRow blank (tableLine (widths header rows) row) = row :=
    fun row hr => readRow_tableLine hblank (hne row hr) (hfits row hr) (hcells row hr)
  refine ⟨?_, ?_, ⟨(widths header rows).map fun w => List.replicate (w + 2) '-', ?_, ?_, ?_⟩, ?_⟩
  · rw [table, List.length_cons, List.length_cons, List.length_map]
  · refine List.forall_mem_cons.2 ⟨hline header List.mem_cons_self, List.forall_mem_cons.2 ⟨tableRule_length hwidths, ?_⟩⟩
    exact List.forall_mem_map.2 fun row hr => hline row (List.mem_cons_of_mem _ hr)
  · rw [← tableRule_framed]
    rfl
  · rw [List.length_map, widths_length hrows]
  · refine List.forall_mem_map.2 fun w _ => ⟨List.cons_ne_nil _ _, fun c hc => List.eq_of_mem_replicate hc⟩
  · calc ((table header rows).eraseIdx 1).map (readRow blank)
        = (header :: rows).map fun row => readRow blank (tableLine (widths header rows) row) := by
          rw [table, List.eraseIdx_cons_succ, List.eraseIdx_cons_zero, List.map_cons, List.map_cons, List.map_map]
          rfl
      _ = header :: rows := List.map_congr_left hread |>.trans (List.map_id _)

/-- One column has no cell with anything in it, one line no cell but the first. -/
theorem table_reads_back_empty_cells :
    table ["Test", "", "v1"] [["`boot`", "", "passed"], ["é", "", ""]] =
        ["| Test   |  | v1     |", "|--------|--|--------|", "| `boot` |  | passed |", "| é      |  |        |"] ∧
      ((table ["Test", "", "v1"] [["`boot`", "", "passed"], ["é", "", ""]]).eraseIdx 1).map (readRow isSpace) =
        [["Test", "", "v1"], ["`boot`", "", "passed"], ["é", "", ""]] :=
  ⟨by decide +kernel, (table_reads_back isSpace (by decide) ["Test", "", "v1"] [["`boot`", "", "passed"], ["é", "", ""]]
    (by decide) (by decide) (by decide +kernel)).2.2.2⟩

end DrtmTest.MarkdownTable
