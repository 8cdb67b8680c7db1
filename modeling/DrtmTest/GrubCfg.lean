/-
Lean model of reading menu entries out of GRUB's configuration (`entries` and `with_parameter` of `drtmtest/grubcfg.py`).

An `Item` is what a configuration is built of: a line that is no header, or a whole entry. Its lines are those
`str.splitlines` makes of the file.

- `header_iff`: the expression finds a header exactly where there is one, and its title whatever quotes and braces are in it.
- `entries_items`: `entries` returns the entries of a configuration, in order, each with its commands.
- `withParameter_entry`: what `with_parameter` makes of the commands of an entry.
-/
import DrtmTest.Core.Dict
import DrtmTest.Core.Text
import Mathlib.Data.List.TakeWhile

namespace DrtmTest.GrubCfg

open DrtmTest.Text

/-! ## Model -/

def menuentry : List Char := "menuentry".toList

/-- `\s*\{$` -/
def opens (cs : List Char) : Bool := cs.dropWhile isSpace = ['{'] ∨ cs.dropWhile isSpace = ['{', '\n']

/-- `(.*?)\1\s*\{$` behind the opening quote: the shortest title -/
def titleFrom (quote : Char) : List Char → List Char → Option (List Char)
  | _, [] => none
  | title, c :: cs =>
    if c = quote ∧ opens cs then some title
    else if c = '\n' then none
    else titleFrom quote (title ++ [c]) cs

/-- `_MENUENTRY_RE`: the title -/
def header (line : List Char) : Option (List Char) :=
  let rest := line.drop menuentry.length
  if menuentry <+: line ∧ rest.takeWhile isSpace ≠ [] then
    match rest.dropWhile isSpace with
    | [] => none
    | quote :: cs => if quote = '\'' ∨ quote = '"' then titleFrom quote [] cs else none
  else none

/-- what is neither blank nor a comment, of a stripped line -/
def isCommand (line : List Char) : Bool := line ≠ [] ∧ line.head? ≠ some '#'

/-- the entries found and the title of the entry a line is in -/
abbrev Found := Dict String (List String) × Option String

/-- the loop's body -/
def readLine (s : Found) (line : List Char) : Found :=
  let line := strip line
  match s.2 with
  | none =>
    match header line with
    | some title => (s.1.set (String.ofList title) [], some (String.ofList title))
    | none => s
  | some title =>
    if line = ['}'] then (s.1, none)
    else if isCommand line then (s.1.set title ((s.1.get? title).getD [] ++ [String.ofList line]), some title)
    else s

/-- each entry's commands by title -/
def entries (config : List Char) : Dict String (List String) := ((splitlines config).foldl readLine (∅, none)).1

inductive ParameterError where
  | lookupError (commands : List String)
  /-- the first word of a blank command -/
  | indexError

/-- `command.split(maxsplit=1)[0]` -/
def firstWord (command : String) : Option String :=
  match command.toList.dropWhile isSpace with
  | [] => none
  | c :: cs => some (String.ofList ((c :: cs).takeWhile fun c => !isSpace c))

/-- the commands with `parameter` at the end of the kernel's line -/
def withParameter (commands : List String) (parameter : String) : Except ParameterError (List String) :=
  if commands.any fun command => firstWord command = none then .error .indexError
  else if commands.any fun command => firstWord command = some "linux" then
    .ok (commands.map fun command => if firstWord command = some "linux" then command ++ " " ++ parameter else command)
  else .error (.lookupError commands)

/-! ## A configuration -/

/-- `menuentry`, a blank, a title in quotes and an opening brace, with any blanks around them -/
structure Header where
  before : List Char
  gap : List Char
  quote : Char
  title : List Char
  space : List Char
  after : List Char
  isQuote : quote = '\'' ∨ quote = '"'
  gap_ne : gap ≠ []
  blank_before : ∀ c ∈ before, isSpace c = true
  blank_gap : ∀ c ∈ gap, isSpace c = true
  blank_space : ∀ c ∈ space, isSpace c = true
  blank_after : ∀ c ∈ after, isSpace c = true

/-- the header without its indentation -/
def Header.text (h : Header) : List Char := menuentry ++ (h.gap ++ h.quote :: (h.title ++ h.quote :: (h.space ++ ['{'])))

def Header.line (h : Header) : List Char := h.before ++ (h.text ++ h.after)

/-- a header, commands between blank lines and comments, and a lone brace -/
structure Entry where
  header : Header
  body : List (List Char)
  close : List Char
  notClosed : ∀ line ∈ body, strip line ≠ ['}']
  closes : strip close = ['}']

def Entry.title (e : Entry) : String := String.ofList e.header.title

def Entry.commands (e : Entry) : List String := ((e.body.map strip).filter isCommand).map String.ofList

def Entry.lines (e : Entry) : List (List Char) := e.header.line :: (e.body ++ [e.close])

inductive Item where
  | other (line : List Char) (h : ∀ h : Header, h.line ≠ line)
  | entry (e : Entry)

def Item.lines : Item → List (List Char)
  | .other line _ => [line]
  | .entry e => e.lines

def Item.entry? : Item → Option Entry
  | .other _ _ => none
  | .entry e => some e

/-! ## Headers -/

theorem opens_iff {cs : List Char} (h : '\n' ∉ cs) :
    opens cs = true ↔ ∃ space, (∀ c ∈ space, isSpace c = true) ∧ cs = space ++ ['{'] := by
  have hsplit := List.takeWhile_append_dropWhile (p := isSpace) (l := cs)
  rw [opens, decide_eq_true_eq]
  constructor
  · rintro (hdrop | hdrop)
    · exact ⟨cs.takeWhile isSpace, fun c hc => List.mem_takeWhile_imp hc, by rw [← hdrop, hsplit]⟩
    · rw [hdrop] at hsplit
      exact absurd (hsplit ▸ List.mem_append_right _ (List.mem_cons_of_mem _ List.mem_cons_self)) h
  · rintro ⟨space, hspace, rfl⟩
    exact Or.inl (dropWhile_run hspace (by decide) [])

theorem titleFrom_sound {quote : Char} {acc cs title : List Char} (h : titleFrom quote acc cs = some title) :
    ∃ more rest, title = acc ++ more ∧ cs = more ++ quote :: rest ∧ opens rest = true := by
  induction cs generalizing acc with
  | nil => cases h
  | cons c cs ih =>
    rw [titleFrom] at h
    split_ifs at h with hclose hbreak
    · cases h
      exact ⟨[], cs, (List.append_nil _).symm, by rw [hclose.1]; rfl, hclose.2⟩
    · obtain ⟨more, rest, htitle, hcs, hopens⟩ := ih h
      exact ⟨c :: more, rest, by rw [htitle, List.append_assoc]; rfl, by rw [hcs]; rfl, hopens⟩

theorem not_space_of_quote {c : Char} (h : c = '\'' ∨ c = '"') : ¬ isSpace c = true := by
  rcases h with rfl | rfl <;> decide

/-- a quote before the closing one does not end the title: the closing one is behind it -/
theorem opens_quote {quote : Char} (hq : quote = '\'' ∨ quote = '"') (title rest : List Char) :
    opens (title ++ quote :: rest) = false := by
  have hmem : quote ∈ (title ++ quote :: rest).dropWhile isSpace := by
    have hall : quote ∈ title ++ quote :: rest := List.mem_append_right _ List.mem_cons_self
    rw [← List.takeWhile_append_dropWhile (p := isSpace) (l := title ++ quote :: rest)] at hall
    rcases List.mem_append.1 hall with h | h
    · exact absurd (List.mem_takeWhile_imp h) (not_space_of_quote hq)
    · exact h
  rw [opens, decide_eq_false_iff_not]
  rintro (h | h) <;> rw [h] at hmem <;> rcases hq with rfl | rfl <;> exact absurd hmem (by decide)

theorem titleFrom_complete {quote : Char} (hq : quote = '\'' ∨ quote = '"') {title rest : List Char} (hline : '\n' ∉ title)
    (hrest : opens rest = true) (acc : List Char) : titleFrom quote acc (title ++ quote :: rest) = some (acc ++ title) := by
  induction title generalizing acc with
  | nil => rw [List.nil_append, titleFrom, if_pos ⟨rfl, hrest⟩, List.append_nil]
  | cons c title ih =>
    rw [List.mem_cons, not_or] at hline
    have hopen : ¬ (c = quote ∧ opens (title ++ quote :: rest) = true) := fun h => by
      rw [opens_quote hq] at h
      cases h.2
    rw [List.cons_append, titleFrom, if_neg hopen, if_neg (Ne.symm hline.1), ih hline.2, List.append_assoc]
    rfl

theorem drop_menuentry (rest : List Char) : (menuentry ++ rest).drop menuentry.length = rest := List.drop_left

theorem header_sound {line title : List Char} (hline : '\n' ∉ line) (h : header line = some title) :
    ∃ h : Header, h.text = line ∧ h.title = title := by
  rw [header] at h
  split_ifs at h with hhead
  obtain ⟨⟨rest, rfl⟩, hgap⟩ := hhead
  rw [drop_menuentry] at h hgap
  have hsplit := List.takeWhile_append_dropWhile (p := isSpace) (l := rest)
  split at h
  · cases h
  · rename_i quote cs hdrop
    split_ifs at h with hq
    obtain ⟨_, behind, rfl, rfl, hopens⟩ := titleFrom_sound h
    rw [hdrop] at hsplit
    have hbehind : '\n' ∉ behind := fun hmem => hline (List.mem_append_right _ (hsplit ▸
      List.mem_append_right _ (List.mem_cons_of_mem _ (List.mem_append_right _ (List.mem_cons_of_mem _ hmem)))))
    obtain ⟨space, hspace, rfl⟩ := (opens_iff hbehind).1 hopens
    refine ⟨⟨[], rest.takeWhile isSpace, quote, title, space, [], hq, hgap, List.forall_mem_nil _,
      fun _ h => List.mem_takeWhile_imp h, hspace, List.forall_mem_nil _⟩, ?_, rfl⟩
    rw [Header.text, hsplit]

theorem header_complete {h : Header} (hline : '\n' ∉ h.text) : header h.text = some h.title := by
  have hopens : opens (h.space ++ ['{']) = true := by
    rw [opens, decide_eq_true_eq]
    exact Or.inl (dropWhile_run h.blank_space (by decide) [])
  have htitle : '\n' ∉ h.title := fun hmem => hline (List.mem_append_right _ (List.mem_append_right _
    (List.mem_cons_of_mem _ (List.mem_append_left _ hmem))))
  have hquote : isSpace h.quote = false := Bool.eq_false_iff.2 (not_space_of_quote h.isQuote)
  have htake : (h.gap ++ h.quote :: (h.title ++ h.quote :: (h.space ++ ['{']))).takeWhile isSpace = h.gap :=
    takeWhile_run h.blank_gap hquote _
  have hdrop : (h.gap ++ h.quote :: (h.title ++ h.quote :: (h.space ++ ['{']))).dropWhile isSpace =
      h.quote :: (h.title ++ h.quote :: (h.space ++ ['{'])) := dropWhile_run h.blank_gap hquote _
  rw [header, Header.text]
  simp only [drop_menuentry, htake, hdrop]
  rw [if_pos ⟨List.prefix_append _ _, h.gap_ne⟩, if_pos h.isQuote, titleFrom_complete h.isQuote htitle hopens]
  rfl

/-- **A header is found** exactly where there is one, with its title. -/
theorem header_iff {line title : List Char} (hline : '\n' ∉ line) :
    header line = some title ↔ ∃ h : Header, h.text = line ∧ h.title = title := by
  refine ⟨header_sound hline, ?_⟩
  rintro ⟨h, rfl, rfl⟩
  exact header_complete hline

/-! ## The lines -/

theorem Header.strip_line (h : Header) : strip h.line = h.text := by
  have hlast : h.text.getLast? = some '{' := by
    have hconcat : h.text = (menuentry ++ (h.gap ++ h.quote :: (h.title ++ h.quote :: h.space))) ++ ['{'] := by
      simp only [Header.text, List.append_assoc, List.cons_append]
    rw [hconcat, List.getLast?_concat]
  refine strip_blanks h.blank_before h.blank_after (fun c hc => ?_) fun c hc => ?_
  · have hhead : h.text.head? = some 'm' := rfl
    rw [hhead] at hc
    rw [← Option.some.inj hc]
    decide
  · rw [hlast] at hc
    rw [← Option.some.inj hc]
    decide

theorem Header.text_oneLine {h : Header} (hline : '\n' ∉ h.line) : '\n' ∉ h.text := fun hmem =>
  hline (List.mem_append_right _ (List.mem_append_left _ hmem))

/-- a line opens no entry exactly where it is no header -/
theorem header_none_iff {line : List Char} (hline : '\n' ∉ line) :
    header (strip line) = none ↔ ∀ h : Header, h.line ≠ line := by
  constructor
  · rintro hnone h rfl
    have hsome := (header_iff (Header.text_oneLine hline)).2 ⟨h, rfl, rfl⟩
    rw [Header.strip_line, hsome] at hnone
    cases hnone
  · intro h
    obtain ⟨u, v, hsplit, hu, hv⟩ := strip_split line
    rw [Option.eq_none_iff_forall_ne_some]
    intro title htitle
    have hstrip : '\n' ∉ strip line := fun hmem =>
      hline (hsplit ▸ List.mem_append_right _ (List.mem_append_left _ hmem))
    obtain ⟨header, htext, -⟩ := (header_iff hstrip).1 htitle
    refine h { header with before := u, after := v, blank_before := hu, blank_after := hv } ?_
    rw [hsplit, ← htext]
    rfl

/-- the body of an entry adds its commands -/
theorem foldl_body (found : Dict String (List String)) (title : String) (commands : List String)
    (body : List (List Char)) (h : ∀ line ∈ body, strip line ≠ ['}']) :
    body.foldl readLine (found.set title commands, some title) =
      (found.set title (commands ++ ((body.map strip).filter isCommand).map String.ofList), some title) := by
  induction body generalizing commands with
  | nil => rw [List.map_nil, List.filter_nil, List.map_nil, List.append_nil]; rfl
  | cons line body ih =>
    have hrest := fun l hl => h l (List.mem_cons_of_mem line hl)
    have hopen := h line List.mem_cons_self
    rw [List.foldl_cons, List.map_cons, List.filter_cons]
    by_cases hcommand : isCommand (strip line) = true
    · have hstep : readLine (found.set title commands, some title) line =
          (found.set title (commands ++ [String.ofList (strip line)]), some title) := by
        simp only [readLine, if_neg hopen, if_pos hcommand, Dict.get?_set, if_true, Option.getD_some, Dict.set_set]
      rw [hstep, ih _ hrest, if_pos hcommand, List.map_cons, List.append_assoc, List.singleton_append]
    · have hstep : readLine (found.set title commands, some title) line = (found.set title commands, some title) := by
        simp only [readLine, if_neg hopen, if_neg hcommand]
      rw [hstep, ih _ hrest, if_neg hcommand]

/-- an entry is read into its title and commands -/
theorem foldl_entry (found : Dict String (List String)) (e : Entry) (hline : '\n' ∉ e.header.line) :
    e.lines.foldl readLine (found, none) = (found.set e.title e.commands, none) := by
  have hheader : header (strip e.header.line) = some e.header.title := by
    rw [e.header.strip_line]
    exact (header_iff (Header.text_oneLine hline)).2 ⟨e.header, rfl, rfl⟩
  have hopen : readLine (found, none) e.header.line = (found.set e.title [], some e.title) := by
    simp only [readLine, hheader]
    rfl
  have hclose : readLine (found.set e.title e.commands, some e.title) e.close = (found.set e.title e.commands, none) := by
    simp only [readLine, e.closes, if_true]
  rw [Entry.lines, List.foldl_cons, hopen, List.foldl_append, foldl_body found e.title [] e.body e.notClosed,
    List.nil_append, ← Entry.commands, List.foldl_cons, hclose]
  rfl

/-- one item after the other, the entries in their order -/
theorem foldl_items (found : Dict String (List String)) (items : List Item)
    (hline : ∀ line ∈ items.flatMap Item.lines, '\n' ∉ line)
    (htitles : (found.keys ++ (items.filterMap Item.entry?).map Entry.title).Nodup) :
    ((items.flatMap Item.lines).foldl readLine (found, none)).1.entries =
      found.entries ++ (items.filterMap Item.entry?).map fun e => (e.title, e.commands) := by
  induction items generalizing found with
  | nil => exact (List.append_nil _).symm
  | cons item items ih =>
    have hrest : ∀ line ∈ items.flatMap Item.lines, '\n' ∉ line := fun line hl =>
      hline line (List.flatMap_cons ▸ List.mem_append_right _ hl)
    rw [List.flatMap_cons, List.foldl_append]
    cases item with
    | other line h =>
      have hnone := (header_none_iff (hline line List.mem_cons_self)).2 h
      have hstep : (Item.other line h).lines.foldl readLine (found, none) = (found, none) := by
        simp only [Item.lines, List.foldl_cons, List.foldl_nil, readLine, hnone]
      rw [hstep]
      exact ih found hrest htitles
    | entry e =>
      have hopen : '\n' ∉ e.header.line := hline _ List.mem_cons_self
      have hcons : (Item.entry e :: items).filterMap Item.entry? = e :: items.filterMap Item.entry? := rfl
      rw [hcons, List.map_cons] at htitles ⊢
      have hnew : e.title ∉ found.keys := fun h => List.disjoint_of_nodup_append htitles h List.mem_cons_self
      have hkeys : (found.set e.title e.commands).keys = found.keys ++ [e.title] := by rw [Dict.keys_set, if_neg hnew]
      have hnodup : ((found.set e.title e.commands).keys ++ (items.filterMap Item.entry?).map Entry.title).Nodup := by
        rw [hkeys, List.append_assoc, List.singleton_append]
        exact htitles
      rw [Item.lines, foldl_entry found e hopen, ih _ hrest hnodup, Dict.set_new found _ hnew, List.append_assoc,
        List.singleton_append]

/-! ## The kernel's line -/

/-- a command has a first word -/
theorem firstWord_command {line : List Char} (h : strip line ≠ []) : firstWord (String.ofList (strip line)) ≠ none := by
  intro hnone
  rw [firstWord, String.toList_ofList] at hnone
  cases hdrop : (strip line).dropWhile isSpace with
  | cons c cs =>
    rw [hdrop] at hnone
    cases hnone
  | nil =>
    -- blanks alone would have been stripped
    obtain ⟨u, v, hsplit, hu, hv⟩ := strip_split line
    have hblank : ∀ c ∈ line, isSpace c = true := by
      intro c hc
      rw [hsplit, List.mem_append, List.mem_append] at hc
      rcases hc with hc | hc | hc
      · exact hu c hc
      · exact List.dropWhile_eq_nil_iff.1 hdrop c hc
      · exact hv c hc
    apply h
    rw [strip, List.dropWhile_eq_nil_iff.2 hblank]
    rfl

/-- the parameter is added to each command whose first word is `linux` and to no other, and refused where there is none -/
def AddsParameter (commands : List String) (parameter : String) : Prop :=
  ((¬ ∃ c ∈ commands, firstWord c = some "linux") → withParameter commands parameter = .error (.lookupError commands)) ∧
    ((∃ c ∈ commands, firstWord c = some "linux") → ∃ out, withParameter commands parameter = .ok out ∧
      out.length = commands.length ∧ ∀ (i : ℕ) (c : String), commands[i]? = some c →
        out[i]? = some (if firstWord c = some "linux" then c ++ " " ++ parameter else c))

theorem withParameter_entry {commands : List String} (h : ∀ c ∈ commands, firstWord c ≠ none) (parameter : String) :
    AddsParameter commands parameter := by
  have hwords : ¬ (commands.any fun command => firstWord command = none) = true := by
    rw [List.any_eq_true]
    rintro ⟨c, hc, hnone⟩
    exact h c hc (of_decide_eq_true hnone)
  have hlinux : (commands.any fun command => firstWord command = some "linux") = true ↔
      ∃ c ∈ commands, firstWord c = some "linux" := by simp only [List.any_eq_true, decide_eq_true_eq]
  rw [AddsParameter, withParameter, if_neg hwords]
  constructor
  · intro hno
    rw [if_neg (mt hlinux.1 hno)]
  · intro hsome
    rw [if_pos (hlinux.2 hsome)]
    refine ⟨_, rfl, List.length_map _, fun i c hc => ?_⟩
    rw [List.getElem?_map, hc]
    rfl

/-! ## The configuration read -/

/-- **Every menu entry comes back.** For every configuration of lines that are no headers and of entries with distinct
titles, `entries` returns the titles in the order of the file, each with its commands, stripped and in order. To these
commands `with_parameter` adds the parameter where the first word is `linux`, and there alone; where none is it refuses. -/
theorem entries_items (config : List Char) (items : List Item) (hlines : splitlines config = items.flatMap Item.lines)
    (htitles : ((items.filterMap Item.entry?).map Entry.title).Nodup) :
    (entries config).entries = (items.filterMap Item.entry?).map (fun e => (e.title, e.commands)) ∧
      ∀ x ∈ (entries config).entries, ∀ parameter, AddsParameter x.2 parameter := by
  have hplain : ∀ line ∈ items.flatMap Item.lines, '\n' ∉ line := by
    intro line hl hmem
    exact absurd (splitlines_plain (hlines ▸ hl) '\n' hmem) (by decide)
  have hentries : (entries config).entries = (items.filterMap Item.entry?).map (fun e => (e.title, e.commands)) := by
    rw [entries, hlines, foldl_items ∅ items hplain htitles]
    rfl
  refine ⟨hentries, fun x hx parameter => withParameter_entry (fun c hc => ?_) parameter⟩
  rw [hentries] at hx
  obtain ⟨e, -, rfl⟩ := List.mem_map.1 hx
  obtain ⟨line, hl, rfl⟩ := List.mem_map.1 hc
  obtain ⟨hmem, hcommand⟩ := List.mem_filter.1 hl
  obtain ⟨raw, -, rfl⟩ := List.mem_map.1 hmem
  exact firstWord_command (of_decide_eq_true hcommand).1

/-- a function, and an entry with a quote and a brace in its title -/
def sampleItems : List Item :=
  [.other "function load_skl \x7b".toList ((header_none_iff (by decide)).1 (by decide)),
    .other "  slaunch_module /skl.bin".toList ((header_none_iff (by decide)).1 (by decide)),
    .other "\x7d".toList ((header_none_iff (by decide)).1 (by decide)),
    .entry
      { header :=
          { before := [], gap := [' '], quote := '\'', title := "Boot Dad's \x7bLinux\x7d' \x7b".toList, space := [], after := [' ']
            isQuote := Or.inl rfl
            gap_ne := List.cons_ne_nil _ _
            blank_before := List.all_eq_true.1 (by decide)
            blank_gap := List.all_eq_true.1 (by decide)
            blank_space := List.all_eq_true.1 (by decide)
            blank_after := List.all_eq_true.1 (by decide) }
        body := ["  slaunch".toList, [], "  # the kernel".toList, "  linux /bzImage rootwait".toList]
        close := "\x7d".toList
        notClosed := by decide
        closes := by decide }]

theorem entries_items_sample : ∃ config, splitlines config = sampleItems.flatMap Item.lines ∧
    (entries config).entries = [("Boot Dad's \x7bLinux\x7d' \x7b", ["slaunch", "linux /bzImage rootwait"])] := by
  have hplain : ((sampleItems.flatMap Item.lines).all fun l => l.all fun c => !isLineBreak c) = true := by decide +kernel
  have hlines := splitlines_unlines fun l hl c hc => by
    have := List.all_eq_true.1 (List.all_eq_true.1 hplain l hl) c hc
    rwa [Bool.not_eq_true'] at this
  exact ⟨_, hlines, (entries_items _ sampleItems hlines (by decide +kernel)).1⟩

end DrtmTest.GrubCfg
