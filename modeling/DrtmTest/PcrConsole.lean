/-
PCRs read off the console, whatever the hypervisor writes in between.

`items` is the output of `tpm2_pcrread` on the shared port: printed lines with hypervisor lines in and between them. `seen`
are the entries that are left of it for the reader: those ahead of the first hypervisor line with a prompt.

- `exists_items`: every splice of hypervisor lines into a printed table is such an output.
- `findPcrs_heard_line`, `findPcrs_heard`: what `run` leaves of the output has the entries that are `seen`.
- `pcrs_whole_iff`: `pcrs` returns whole values or refuses exactly where these leave the output `Readable`.
- `readable_of_intact`: hypervisor lines between the printed lines that hold no prompt and spell no entry do.
-/
import DrtmTest.SharedPort

namespace DrtmTest.PcrConsole

open DrtmTest.Text DrtmTest.Console DrtmTest.QemuVm DrtmTest.Noise DrtmTest.HexDump DrtmTest.ConsoleRun DrtmTest.PcrReads
  DrtmTest.SharedPort

/-! ## The output -/

def gapItems (g : List Spliced) : List Item := g.map .spliced

def weaveItems (l : List (Char × List Spliced)) : List Item := l.flatMap fun d => .printed d.1 :: gapItems d.2

/-- a line up to its colon -/
def headItems (l : PcrLine) : List Item := gapItems l.before ++ weaveItems l.index

/-- a line behind its colon -/
def tailItems (l : PcrLine) : List Item := gapItems l.colon ++ weaveItems l.tail

def lineItems (l : PcrLine) : List Item := headItems l ++ .printed ':' :: tailItems l

/-- the output of `tpm2_pcrread` on the shared port -/
def items (lines : List PcrLine) (last : List Spliced) : List Item := lines.flatMap lineItems ++ gapItems last

/-! ## What is seen of it -/

/-- hypervisor lines as `run` leaves them -/
def cleanedGap (g : List Spliced) : List Spliced := g.map cleaned

def cleanedDigits (l : List (Char × List Spliced)) : List (Char × List Spliced) := l.map fun d => (d.1, cleanedGap d.2)

/-- a printed line as `run` leaves it -/
def cleanedLine (l : PcrLine) : PcrLine where
  before := cleanedGap l.before
  index := cleanedDigits l.index
  colon := cleanedGap l.colon
  space := cleanedGap l.space
  zero := cleanedGap l.zero
  ex := cleanedGap l.ex
  value := cleanedDigits l.value
  index_digits := List.forall_mem_map.2 l.index_digits
  index_ne := List.map_eq_nil_iff.not.2 l.index_ne
  value_digits := List.forall_mem_map.2 l.value_digits
  value_ne := List.map_eq_nil_iff.not.2 l.value_ne

/-- the hypervisor lines before the colon of a line -/
def aheadColon (l : PcrLine) : List Spliced := l.before ++ l.index.flatMap Prod.snd

/-- the hypervisor lines behind it -/
def behindColon (l : PcrLine) : List Spliced := l.colon ++ l.tail.flatMap Prod.snd

/-- the entries the lines spell, up to the first that holds a prompt -/
def ownSeen (g : List Spliced) : List (List Char × List Char) := own (cleanedGap (g.takeWhile isQuiet))

/-- what is left of a line for the reader: the entry it spells is, unless a prompt stands before the first line end behind
its colon -/
def seenLine (l : PcrLine) : List (List Char × List Char) :=
  ownSeen (aheadColon l) ++
    if (aheadColon l).all isQuiet && (behindColon l).head?.all isQuiet then
      (cleanedLine l).spelled ++ ownSeen (behindColon l) else []

/-- what is left of the output -/
def seen : List PcrLine → List Spliced → List (List Char × List Char)
  | [], last => ownSeen last
  | l :: lines, last => seenLine l ++ if (aheadColon l ++ behindColon l).all isQuiet then seen lines last else []

/-! ## The hypervisor lines of a line -/

theorem splices_gapItems (g : List Spliced) : splices (gapItems g) = g := by
  rw [splices, gapItems, List.filterMap_map]
  exact List.filterMap_some

theorem splices_weaveItems (l : List (Char × List Spliced)) : splices (weaveItems l) = l.flatMap Prod.snd := by
  induction l with
  | nil => rfl
  | cons d l ih =>
    have hd : weaveItems (d :: l) = .printed d.1 :: (gapItems d.2 ++ weaveItems l) := List.flatMap_cons
    rw [hd, List.flatMap_cons, ← ih, splices, List.filterMap_cons_none rfl, ← splices, splices_append, splices_gapItems]

theorem splices_headItems (l : PcrLine) : splices (headItems l) = aheadColon l := by
  rw [headItems, splices_append, splices_gapItems, splices_weaveItems, aheadColon]

theorem splices_tailItems (l : PcrLine) : splices (tailItems l) = behindColon l := by
  rw [tailItems, splices_append, splices_gapItems, splices_weaveItems, behindColon]

/-! ## The text of the items -/

theorem cleanedText_append (a b : List Item) : cleanedText (a ++ b) = cleanedText a ++ cleanedText b := List.flatMap_append

theorem cleanedText_gapItems (g : List Spliced) : cleanedText (gapItems g) = gapChars (cleanedGap g) := by
  rw [cleanedText, gapItems, gapChars, cleanedGap, List.flatMap_map, List.flatMap_map]
  rfl

theorem cleanedText_weaveItems {l : List (Char × List Spliced)} (h : ∀ d ∈ l, d.1 ≠ '\r') :
    cleanedText (weaveItems l) = weave (cleanedDigits l) := by
  induction l with
  | nil => rfl
  | cons d l ih =>
    have hd : weaveItems (d :: l) = .printed d.1 :: (gapItems d.2 ++ weaveItems l) := List.flatMap_cons
    rw [hd, cleanedText, List.flatMap_cons, ← cleanedText, cleanedText_append, cleanedText_gapItems,
      ih fun e he => h e (List.mem_cons_of_mem d he), Item.cleaned, if_neg (h d List.mem_cons_self)]
    exact (weave_cons d.1 (cleanedGap d.2) (cleanedDigits l)).symm

theorem digit_ne {c d : Char} (hc : isHexDigit c = true) (hd : isHexDigit d = false) : c ≠ d := by
  rintro rfl
  rw [hc] at hd
  cases hd

theorem hexDigit_of_digit {c : Char} (h : isDigit c = true) : isHexDigit c = true := by rw [isHexDigit, h]; rfl

theorem cleaned_tail (l : PcrLine) : (cleanedLine l).tail = cleanedDigits l.tail := by
  simp only [cleanedDigits, PcrLine.tail, cleanedLine, List.map_cons, List.map_append, List.map_nil, cleanedGap]

/-- a character that is no part of a printed line but its colon is not behind the colon -/
theorem tail_ne (l : PcrLine) {c : Char} (hc : isHexDigit c = false) (hmark : c ∉ [' ', '0', 'x', '\n']) :
    ∀ d ∈ l.tail, d.1 ≠ c := by
  intro d hd
  simp only [List.mem_cons, List.not_mem_nil, or_false, not_or] at hmark
  simp only [PcrLine.tail, List.mem_cons, List.mem_append, List.not_mem_nil, or_false] at hd
  rcases hd with rfl | rfl | rfl | hd | rfl
  · exact Ne.symm hmark.1
  · exact Ne.symm hmark.2.1
  · exact Ne.symm hmark.2.2.1
  · exact digit_ne (l.value_digits d hd) hc
  · exact Ne.symm hmark.2.2.2

theorem cleanedText_lineItems (l : PcrLine) : cleanedText (lineItems l) = (cleanedLine l).chars := by
  have hindex : ∀ d ∈ l.index, d.1 ≠ '\r' := fun d hd => digit_ne (hexDigit_of_digit (l.index_digits d hd)) (by decide)
  rw [lineItems, cleanedText_append, headItems, cleanedText_append, cleanedText_gapItems, cleanedText_weaveItems hindex,
    cleanedText, List.flatMap_cons, ← cleanedText, tailItems, cleanedText_append, cleanedText_gapItems,
    cleanedText_weaveItems (tail_ne l (by decide) (by decide)), ← cleaned_tail, PcrLine.chars, List.append_assoc]
  rfl

theorem own_append (g h : List Spliced) : own (g ++ h) = own g ++ own h := List.flatMap_append

theorem own_flatMap (l : List (Char × List Spliced)) : (l.flatMap fun d => own d.2) = own (l.flatMap Prod.snd) := by
  rw [own, List.flatMap_assoc]
  rfl

theorem cleanedDigits_snd (l : List (Char × List Spliced)) :
    (cleanedDigits l).flatMap Prod.snd = cleanedGap (l.flatMap Prod.snd) := by
  rw [cleanedDigits, List.flatMap_map, cleanedGap, List.map_flatMap]
  rfl

theorem entries_cleanedLine (l : PcrLine) : (cleanedLine l).entries =
    own (cleanedGap (aheadColon l)) ++ ((cleanedLine l).spelled ++ own (cleanedGap (behindColon l))) := by
  have hgap : ∀ g h : List Spliced, cleanedGap (g ++ h) = cleanedGap g ++ cleanedGap h := fun g h => List.map_append
  rw [PcrLine.entries, own_flatMap, own_flatMap, cleaned_tail, show (cleanedLine l).index = cleanedDigits l.index from rfl,
    cleanedDigits_snd, cleanedDigits_snd, aheadColon, behindColon, hgap, hgap, own_append, own_append]
  simp only [List.append_assoc]
  rfl

/-! ## What `run` leaves of a line -/

/-- no colon is printed among the items -/
def Colonless (out : List Item) : Prop := ∀ c, .printed c ∈ out → c ≠ ':'

theorem exists_weave {out : List Item} (h : Colonless out) : ∃ g l, cleanedText out = gapChars g ++ weave l ∧
    (∀ d ∈ l, d.1 ≠ ':') ∧ own g ++ (l.flatMap fun d => own d.2) = own (cleanedGap (splices out)) := by
  induction out with
  | nil => exact ⟨[], [], rfl, List.forall_mem_nil _, rfl⟩
  | cons i out ih =>
    obtain ⟨g, l, htext, hl, hown⟩ := ih fun c hc => h c (List.mem_cons_of_mem i hc)
    have hcons : cleanedText (i :: out) = i.cleaned ++ cleanedText out := List.flatMap_cons
    rw [hcons, htext]
    cases i with
    | printed c =>
      rw [Item.cleaned]
      split_ifs with hc
      · exact ⟨g, l, rfl, hl, hown⟩
      · exact ⟨[], (c, g) :: l, (weave_cons c g l).symm, List.forall_mem_cons.2 ⟨h c List.mem_cons_self, hl⟩, hown⟩
    | spliced x =>
      refine ⟨cleaned x :: g, l, by rw [gapChars_cons, List.append_assoc]; rfl, hl, ?_⟩
      rw [own_cons, List.append_assoc, hown]
      rfl

/-- without a colon only the hypervisor's lines have entries -/
theorem findPcrs_colonless {out : List Item} (h : Colonless out) :
    findPcrs (cleanedText out) = own (cleanedGap (splices out)) := by
  obtain ⟨g, l, htext, hl, hown⟩ := exists_weave h
  have hweave := findPcrs_weave hl (a := []) List.not_mem_nil
  rw [List.nil_append] at hweave
  rw [htext, findPcrs_gap (weave_no_mark hl), hweave, hown]

theorem colonless_no_mark {out : List Item} (h : Colonless out) : afterMark ((cleanedText out).dropWhile isSpace) = none := by
  obtain ⟨g, l, htext, hl, -⟩ := exists_weave h
  rw [htext]
  exact gap_no_mark (weave_no_mark hl)

theorem mem_weaveItems {l : List (Char × List Spliced)} {c : Char} (h : .printed c ∈ weaveItems l) : ∃ d ∈ l, d.1 = c := by
  obtain ⟨d, hd, hmem⟩ := List.mem_flatMap.1 h
  rcases List.mem_cons.1 hmem with heq | hmem
  · exact ⟨d, hd, (Item.printed.inj heq).symm⟩
  · obtain ⟨x, -, hx⟩ := List.mem_map.1 hmem
    cases hx

theorem not_mem_gapItems {g : List Spliced} {c : Char} : .printed c ∉ gapItems g := fun h => by
  obtain ⟨x, -, hx⟩ := List.mem_map.1 h
  cases hx

theorem headItems_digits (l : PcrLine) {c : Char} (h : .printed c ∈ headItems l) : isDigit c = true := by
  obtain ⟨d, hd, rfl⟩ := mem_weaveItems ((List.mem_append.1 h).resolve_left not_mem_gapItems)
  exact l.index_digits d hd

theorem mem_tailItems {l : PcrLine} {c : Char} (h : .printed c ∈ tailItems l) : ∃ d ∈ l.tail, d.1 = c :=
  mem_weaveItems ((List.mem_append.1 h).resolve_left not_mem_gapItems)

theorem headItems_colonless (l : PcrLine) : Colonless (headItems l) := by
  rintro c hc rfl
  exact absurd (headItems_digits l hc) (by decide)

theorem tailItems_colonless (l : PcrLine) : Colonless (tailItems l) := fun c hc => by
  obtain ⟨d, hd, rfl⟩ := mem_tailItems hc
  exact tail_ne l (by decide) (by decide) d hd

theorem Colonless.subset {a b : List Item} (h : Colonless b) (hab : a ⊆ b) : Colonless a := fun c hc => h c (hab hc)

/-- the newline is the last item of a line -/
theorem tailItems_newline (l : PcrLine) : ∃ body, tailItems l = body ++ [.printed '\n'] ∧ .printed '\n' ∉ body := by
  refine ⟨gapItems l.colon ++ weaveItems ((' ', l.space) :: ('0', l.zero) :: ('x', l.ex) :: l.value), ?_, fun h => ?_⟩
  · rw [tailItems, PcrLine.tail, ← List.cons_append, ← List.cons_append, ← List.cons_append, weaveItems, List.flatMap_append,
      List.append_assoc]
    rfl
  · obtain ⟨d, hd, hc⟩ := mem_weaveItems ((List.mem_append.1 h).resolve_left not_mem_gapItems)
    simp only [List.mem_cons] at hd
    rcases hd with rfl | rfl | rfl | hd
    · exact absurd hc (show ' ' ≠ '\n' by decide)
    · exact absurd hc (show '0' ≠ '\n' by decide)
    · exact absurd hc (show 'x' ≠ '\n' by decide)
    · exact digit_ne (l.value_digits d hd) (by decide) hc

/-- a line up to a line end behind its colon has the entry it spells and those of its hypervisor lines -/
theorem findPcrs_kept (l : PcrLine) {a b : List Item} (htail : tailItems l = a ++ b)
    (hend : ∃ t, cleanedText (headItems l ++ .printed ':' :: a) = t ++ ['\n']) :
    findPcrs (cleanedText (headItems l ++ .printed ':' :: a)) =
      own (cleanedGap (aheadColon l)) ++ ((cleanedLine l).spelled ++ own (cleanedGap (splices a))) := by
  have hb : Colonless b := (tailItems_colonless l).subset (htail ▸ List.subset_append_right a b)
  obtain ⟨t, ht⟩ := hend
  have hsplit : (cleanedLine l).chars = cleanedText (headItems l ++ .printed ':' :: a) ++ cleanedText b := by
    rw [← cleanedText_lineItems, ← cleanedText_append, lineItems, htail, List.append_assoc, List.cons_append]
  have hparts : (cleanedLine l).entries = findPcrs (cleanedText (headItems l ++ .printed ':' :: a)) ++
      own (cleanedGap (splices b)) := by
    rw [← PcrLine.findPcrs_chars, hsplit, ht, findPcrs_append (apart_newline (colonless_no_mark hb) t), findPcrs_colonless hb]
  have hbehind : own (cleanedGap (behindColon l)) = own (cleanedGap (splices a)) ++ own (cleanedGap (splices b)) := by
    rw [← splices_tailItems, htail, splices_append, cleanedGap, List.map_append, own_append]
    rfl
  rw [entries_cleanedLine, hbehind] at hparts
  refine (List.append_cancel_right (Eq.trans ?_ hparts)).symm
  simp only [List.append_assoc]

/-- only a whole line is printed with its newline -/
theorem takeWhile_tailItems {l : PcrLine} (h : .printed '\n' ∈ (tailItems l).takeWhile quiet) :
    (tailItems l).takeWhile quiet = tailItems l := by
  obtain ⟨body, hbody, hnot⟩ := tailItems_newline l
  have hprefix : (tailItems l).takeWhile quiet <+: body ++ [.printed '\n'] := hbody ▸ List.takeWhile_prefix quiet
  rcases List.prefix_concat_iff.1 hprefix with hwhole | hpart
  · rw [hwhole, hbody]
  · exact absurd (hpart.subset h) hnot

/-- a line end stands behind the colon and before any prompt exactly where the first hypervisor line there holds none -/
theorem ended_iff (l : PcrLine) : (∃ i ∈ (tailItems l).takeWhile quiet, isOpen i = false) ↔
    (behindColon l).head?.all isQuiet = true := by
  have hsplices : splices ((tailItems l).takeWhile quiet) = (behindColon l).takeWhile isQuiet := by
    rw [splices_takeWhile, splices_tailItems]
  cases hbehind : behindColon l with
  | nil =>
    obtain ⟨body, hbody, -⟩ := tailItems_newline l
    have hquiet : ∀ i ∈ tailItems l, quiet i = true := quiet_of_splices (by
      rw [splices_tailItems, hbehind]
      exact List.forall_mem_nil _)
    rw [List.takeWhile_eq_self_iff.2 hquiet, hbody]
    exact iff_of_true ⟨_, List.mem_append_right body List.mem_cons_self, rfl⟩ rfl
  | cons x g =>
    rw [hbehind] at hsplices
    constructor
    · rintro ⟨i, hi, hopen⟩
      by_contra hx
      have hnone : splices ((tailItems l).takeWhile quiet) = [] := hsplices.trans (List.takeWhile_cons_of_neg hx)
      cases i with
      | printed c =>
        obtain rfl : c = '\n' := by simpa [isOpen] using hopen
        rw [takeWhile_tailItems hi, splices_tailItems, hbehind] at hnone
        cases hnone
      | spliced y =>
        have hy : y ∈ splices ((tailItems l).takeWhile quiet) := List.mem_filterMap.2 ⟨_, hi, rfl⟩
        rw [hnone] at hy
        cases hy
    · intro hx
      rw [List.takeWhile_cons_of_pos (show isQuiet x = true from hx)] at hsplices
      obtain ⟨i, hi, hsplice⟩ := List.mem_filterMap.1 (hsplices ▸ List.mem_cons_self : x ∈ splices _)
      cases i with
      | printed c => cases hsplice
      | spliced y => exact ⟨_, hi, rfl⟩

/-- **A line with hypervisor lines in it** is read as what is `seen` of it. -/
theorem findPcrs_heard_line (l : PcrLine) : findPcrs (cleanedText (heard (lineItems l))) = seenLine l := by
  rw [seenLine, ownSeen]
  by_cases hahead : (aheadColon l).all isQuiet = true
  · have hquiet : ∀ x ∈ splices (headItems l), isQuiet x = true := by
      rw [splices_headItems]
      exact List.all_eq_true.1 hahead
    have hheard : heard (lineItems l) =
        (headItems l ++ .printed ':' :: (tailItems l).takeWhile quiet).rdropWhile isOpen := by
      rw [heard, lineItems, takeWhile_quiet_append hquiet, List.takeWhile_cons_of_pos rfl]
    have hwhole : (aheadColon l).takeWhile isQuiet = aheadColon l :=
      List.takeWhile_eq_self_iff.2 (List.all_eq_true.1 hahead)
    rw [hahead, Bool.true_and, hwhole]
    by_cases hended : ∃ i ∈ (tailItems l).takeWhile quiet, isOpen i = false
    · -- what is kept ends behind the colon
      rw [if_pos ((ended_iff l).1 hended)]
      have hkept : heard (lineItems l) = headItems l ++ .printed ':' :: heard (tailItems l) := by
        rw [hheard, List.append_cons, rdropWhile_ended hended, List.append_assoc]
        rfl
      obtain ⟨b, hb⟩ := heard_begins (tailItems l)
      have hend := (cleanedText_heard_ended (lineItems l)).resolve_left (by
        rw [hkept, cleanedText_append, cleanedText, cleanedText, List.flatMap_cons]
        exact List.append_ne_nil_of_right_ne_nil _ (List.cons_ne_nil _ _))
      rw [hkept] at hend ⊢
      rw [findPcrs_kept l hb.symm (List.getLast?_eq_some_iff.1 hend), splices_heard, splices_tailItems, ownSeen]
    · -- what is kept ends before the colon
      rw [if_neg (mt (ended_iff l).2 hended), List.append_nil]
      have hopen : ∀ i ∈ .printed ':' :: (tailItems l).takeWhile quiet, isOpen i = true :=
        List.forall_mem_cons.2 ⟨rfl, fun i hi => eq_true_of_ne_false fun h => hended ⟨i, hi, h⟩⟩
      rw [hheard, rdropWhile_open hopen, findPcrs_colonless
        ((headItems_colonless l).subset (List.rdropWhile_prefix isOpen _).subset), splices_rdropWhile, splices_headItems]
  · -- a prompt stands before the colon
    have hstop : ∃ x ∈ splices (headItems l), isQuiet x = false := by
      rw [splices_headItems]
      simpa using hahead
    rw [lineItems, heard_stop hstop, eq_false_of_ne_true hahead, Bool.false_and, if_neg Bool.false_ne_true, List.append_nil,
      findPcrs_colonless ((headItems_colonless l).subset (heard_begins _).subset), splices_heard, splices_headItems]

/-! ## What `run` leaves of the output -/

theorem splices_lineItems (l : PcrLine) : splices (lineItems l) = aheadColon l ++ behindColon l := by
  rw [lineItems, splices_append, splices_headItems, ← splices_tailItems]
  rfl

/-- no mark begins an output, wherever it is cut -/
theorem heard_no_mark (lines : List PcrLine) (last : List Spliced) :
    afterMark ((cleanedText (heard (items lines last))).dropWhile isSpace) = none := by
  have hhead : ∀ c, (items lines last).head? = some (.printed c) → isDigit c = true := by
    intro c hc
    cases lines with
    | nil =>
      rw [items, List.flatMap_nil, List.nil_append] at hc
      exact absurd (List.mem_of_head? hc) not_mem_gapItems
    | cons l lines =>
      have hline : items (l :: lines) last = headItems l ++ (.printed ':' :: tailItems l ++ items lines last) := by
        rw [items, List.flatMap_cons, lineItems, items]
        simp only [List.append_assoc, List.cons_append]
      have hne : headItems l ≠ [] := by
        obtain ⟨d, ds, hd⟩ := List.exists_cons_of_ne_nil l.index_ne
        rw [headItems, hd]
        exact List.append_ne_nil_of_right_ne_nil _ (List.cons_ne_nil _ _)
      rw [hline, List.head?_append_of_ne_nil _ hne] at hc
      exact headItems_digits l (List.mem_of_head? hc)
  obtain ⟨more, hmore⟩ := heard_begins (items lines last)
  cases hheard : heard (items lines last) with
  | nil => rfl
  | cons i rest =>
    rw [hheard] at hmore
    rw [← hmore] at hhead
    cases i with
    | printed c =>
      have hc : isDigit c = true := hhead c rfl
      have htext : cleanedText (.printed c :: rest) = c :: cleanedText rest := by
        rw [cleanedText, List.flatMap_cons, Item.cleaned, if_neg (digit_ne (hexDigit_of_digit hc) (by decide))]
        rfl
      rw [htext]
      exact decimal_no_mark (isDecimal_of_isDigit hc) _
    | spliced x => rfl

/-- **The output** is read as what is `seen` of it. -/
theorem findPcrs_heard (lines : List PcrLine) (last : List Spliced) :
    findPcrs (cleanedText (heard (items lines last))) = seen lines last := by
  induction lines with
  | nil =>
    have hlast : Colonless (gapItems last) := fun c hc => absurd hc not_mem_gapItems
    rw [items, List.flatMap_nil, List.nil_append, findPcrs_colonless (hlast.subset (heard_begins _).subset), splices_heard,
      splices_gapItems, seen, ownSeen]
  | cons l lines ih =>
    have hitems : items (l :: lines) last = lineItems l ++ items lines last := by
      rw [items, List.flatMap_cons, List.append_assoc, items]
    rw [hitems, seen]
    by_cases hquiet : ∀ x ∈ splices (lineItems l), isQuiet x = true
    · obtain ⟨body, hbody, -⟩ := tailItems_newline l
      have hline : lineItems l = headItems l ++ .printed ':' :: body ++ [.printed '\n'] := by
        rw [lineItems, hbody, List.append_assoc, List.cons_append]
      have hself : (lineItems l).rdropWhile isOpen = lineItems l := by
        rw [hline, List.rdropWhile_concat_neg _ _ _ (by decide)]
      obtain ⟨t, ht⟩ : ∃ t, cleanedText (lineItems l) = t ++ ['\n'] := by
        rw [hline, cleanedText_append]
        exact ⟨_, rfl⟩
      have happend : findPcrs (cleanedText (lineItems l) ++ cleanedText (heard (items lines last))) =
          findPcrs (cleanedText (lineItems l)) ++ findPcrs (cleanedText (heard (items lines last))) := by
        rw [ht]
        exact findPcrs_append (apart_newline (heard_no_mark lines last) t)
      have hall : (aheadColon l ++ behindColon l).all isQuiet = true := by
        rw [← splices_lineItems]
        exact List.all_eq_true.2 hquiet
      rw [heard_append hquiet hself, cleanedText_append, happend, ih, if_pos hall, ← findPcrs_heard_line,
        heard_whole hquiet hself]
    · have hstop : ∃ x ∈ splices (lineItems l), isQuiet x = false := by simpa using hquiet
      have hall : ¬ (aheadColon l ++ behindColon l).all isQuiet = true := by
        rw [← splices_lineItems, List.all_eq_true]
        exact hquiet
      rw [heard_stop hstop, findPcrs_heard_line, if_neg hall, List.append_nil]

theorem dropReturns_gapItems (g : List Spliced) : dropReturns (gapItems g) = gapItems g := List.filter_eq_self.2 fun i hi => by
  obtain ⟨x, -, rfl⟩ := List.mem_map.1 hi
  rfl

/-! ## Every splice is covered -/

/-- a table of indices and values as `tpm2_pcrread` prints it -/
def plain (table : List (List Char × List Char)) : List Char :=
  table.flatMap fun e => e.1 ++ (':' :: ' ' :: '0' :: 'x' :: (e.2 ++ ['\n']))

theorem textOf_gapItems (g : List Spliced) : textOf (gapItems g) = gapChars g := by
  rw [textOf, gapItems, List.flatMap_map]
  rfl

theorem textOf_weaveItems (l : List (Char × List Spliced)) : textOf (weaveItems l) = weave l := by
  induction l with
  | nil => rfl
  | cons d l ih =>
    have hd : weaveItems (d :: l) = .printed d.1 :: (gapItems d.2 ++ weaveItems l) := List.flatMap_cons
    rw [hd, textOf, List.flatMap_cons, ← textOf, textOf_append, textOf_gapItems, ih]
    exact (weave_cons d.1 d.2 l).symm

/-- what is printed without carriage returns, with the lines spliced in -/
theorem weave_dropReturns (l : List (Char × List Spliced)) : ∃ g k, dropReturns (weaveItems l) = gapItems g ++ weaveItems k ∧
    k.map Prod.fst = (l.map Prod.fst).filter (· ≠ '\r') := by
  induction l with
  | nil => exact ⟨[], [], rfl, rfl⟩
  | cons d l ih =>
    obtain ⟨g, k, hitems, hchars⟩ := ih
    have hd : weaveItems (d :: l) = .printed d.1 :: (gapItems d.2 ++ weaveItems l) := List.flatMap_cons
    have hrest : dropReturns (gapItems d.2 ++ weaveItems l) = gapItems (d.2 ++ g) ++ weaveItems k := by
      rw [dropReturns_append, dropReturns_gapItems, hitems, gapItems, gapItems, gapItems, List.map_append, List.append_assoc]
    rw [hd, List.map_cons, List.filter_cons]
    by_cases hc : d.1 = '\r'
    · refine ⟨d.2 ++ g, k, ?_, ?_⟩
      · rw [dropReturns_return (by simp [isReturn, hc]), hrest]
      · rw [hchars, if_neg (by simp [hc])]
    · refine ⟨[], (d.1, d.2 ++ g) :: k, ?_, ?_⟩
      · rw [dropReturns_other (by simp [isReturn, hc]), hrest]
        rfl
      · rw [List.map_cons, hchars, if_pos (by simp [hc])]

/-- the characters of a table are those of lines -/
theorem items_of_plain {table : List (List Char × List Char)} (hindex : ∀ e ∈ table, e.1 ≠ [] ∧ ∀ c ∈ e.1, isDigit c = true)
    (hvalue : ∀ e ∈ table, e.2 ≠ [] ∧ ∀ c ∈ e.2, isHexDigit c = true) (g : List Spliced) {l : List (Char × List Spliced)}
    (hl : l.map Prod.fst = plain table) :
    ∃ lines last, gapItems g ++ weaveItems l = items lines last ∧ lines.map PcrLine.row = table := by
  induction table generalizing g l with
  | nil =>
    rw [List.map_eq_nil_iff.1 hl]
    exact ⟨[], g, List.append_nil _, rfl⟩
  | cons e table ih =>
    rw [plain, List.flatMap_cons, ← plain, List.append_assoc] at hl
    simp only [List.cons_append, List.append_assoc, List.nil_append] at hl
    obtain ⟨index, l, rfl, hi, hl⟩ := List.map_eq_append_iff.1 hl
    obtain ⟨colon, l, rfl, hcolon, hl⟩ := List.map_eq_cons_iff.1 hl
    obtain ⟨space, l, rfl, hspace, hl⟩ := List.map_eq_cons_iff.1 hl
    obtain ⟨zero, l, rfl, hzero, hl⟩ := List.map_eq_cons_iff.1 hl
    obtain ⟨ex, l, rfl, hex, hl⟩ := List.map_eq_cons_iff.1 hl
    obtain ⟨value, l, rfl, hv, hl⟩ := List.map_eq_append_iff.1 hl
    obtain ⟨ending, l, rfl, hending, hl⟩ := List.map_eq_cons_iff.1 hl
    obtain ⟨lines, last, hrest, hrows⟩ := ih (fun e he => hindex e (List.mem_cons_of_mem _ he))
      (fun e he => hvalue e (List.mem_cons_of_mem _ he)) ending.2 hl
    have hi' := hindex e List.mem_cons_self
    have hv' := hvalue e List.mem_cons_self
    refine ⟨{ before := g, index := index, colon := colon.2, space := space.2, zero := zero.2, ex := ex.2, value := value
              index_digits := fun d hd => hi'.2 d.1 (hi ▸ List.mem_map_of_mem hd)
              index_ne := fun h => hi'.1 (by rw [← hi, h]; rfl)
              value_digits := fun d hd => hv'.2 d.1 (hv ▸ List.mem_map_of_mem hd)
              value_ne := fun h => hv'.1 (by rw [← hv, h]; rfl) } :: lines, last, ?_, ?_⟩
    · rw [items, List.flatMap_cons, List.append_assoc, ← items, ← hrest]
      simp only [lineItems, headItems, tailItems, PcrLine.tail, weaveItems, List.flatMap_append, List.flatMap_cons,
        List.flatMap_nil, gapItems, hcolon, hspace, hzero, hex, hending, List.append_assoc, List.cons_append,
        List.nil_append, List.map_nil]
    · rw [List.map_cons, hrows, PcrLine.row, PcrLine.digits]
      simp only [hi, hv]

/-- **Every splice is covered.** Whatever hypervisor lines land in a printed table, between the characters of a line or
between lines, and wherever it has carriage returns, the text is that of `items` of lines that print the table. -/
theorem exists_items {table : List (List Char × List Char)} {printed raw : List Char}
    (hprinted : printed.filter (· ≠ '\r') = plain table) (h : Sprinkled XenLine printed raw)
    (hindex : ∀ e ∈ table, e.1 ≠ [] ∧ ∀ c ∈ e.1, isDigit c = true)
    (hvalue : ∀ e ∈ table, e.2 ≠ [] ∧ ∀ c ∈ e.2, isHexDigit c = true) :
    ∃ out lines last, raw = textOf out ∧ dropReturns out = items lines last ∧ lines.map PcrLine.row = table := by
  obtain ⟨g, l, rfl, rfl⟩ := weave_of_sprinkled h
  obtain ⟨g', k, hitems, hchars⟩ := weave_dropReturns l
  obtain ⟨lines, last, hlines, hrows⟩ := items_of_plain hindex hvalue (g ++ g') (hchars.trans hprinted)
  refine ⟨gapItems g ++ weaveItems l, lines, last, ?_, ?_, hrows⟩
  · rw [textOf_append, textOf_gapItems, textOf_weaveItems]
  · rw [dropReturns_append, dropReturns_gapItems, hitems, ← hlines, gapItems, gapItems, gapItems, List.map_append,
      List.append_assoc]

/-! ## Lines without splices -/

theorem cleanedLine_intact {l : PcrLine} (h : l.Intact) : (cleanedLine l).Intact := by
  obtain ⟨hindex, hmark, hvalue⟩ := h
  have hdigits : ∀ {ds : List (Char × List Spliced)}, (∀ d ∈ ds, d.2 = []) → ∀ d ∈ cleanedDigits ds, d.2 = [] := by
    intro ds hds d hd
    obtain ⟨e, he, rfl⟩ := List.mem_map.1 hd
    exact List.map_eq_nil_iff.2 (hds e he)
  refine ⟨hdigits hindex, ?_, hdigits hvalue⟩
  simpa only [PcrLine.markWhole, cleanedLine, cleanedGap, List.isEmpty_map] using hmark

theorem cleanedLine_row (l : PcrLine) : (cleanedLine l).row = l.row := by
  simp only [PcrLine.row, PcrLine.digits, cleanedLine, cleanedDigits, List.map_map]
  rfl

/-- a line with nothing spliced into it is seen as its index and value -/
theorem seenLine_intact {l : PcrLine} (h : l.Intact) (hquiet : l.before.all isQuiet = true) (hown : ownSeen l.before = []) :
    seenLine l = [l.row] ∧ (aheadColon l ++ behindColon l).all isQuiet = true := by
  have hahead : aheadColon l = l.before := by
    rw [aheadColon, List.flatMap_eq_nil_iff.2 h.1, List.append_nil]
  have hbehind : behindColon l = [] := by
    rw [behindColon, (PcrLine.tail_intact h).1, List.flatMap_eq_nil_iff.2 (PcrLine.tail_intact h).2]
    rfl
  rw [seenLine, hahead, hbehind, hown, hquiet, PcrLine.spelled_intact (cleanedLine_intact h), cleanedLine_row, List.append_nil]
  exact ⟨rfl, hquiet⟩

/-- hypervisor lines between the printed ones that hold no prompt and spell no entry do no harm -/
theorem readable_of_intact {indices : List ℕ} {lines : List PcrLine} {last : List Spliced} (hlines : ∀ l ∈ lines,
      l.Intact ∧ l.before.all isQuiet = true ∧ ownSeen l.before = [] ∧ l.index.length ≤ maxIntDigits)
    (hlast : ownSeen last = []) : Readable indices lines (seen lines last) := by
  have hseen : seen lines last = lines.map PcrLine.row := by
    induction lines with
    | nil => exact hlast
    | cons l lines ih =>
      obtain ⟨hl, hrest⟩ := List.forall_mem_cons.1 hlines
      obtain ⟨hline, hquiet⟩ := seenLine_intact hl.1 hl.2.1 hl.2.2.1
      rw [seen, if_pos hquiet, hline, ih hrest]
      rfl
  rw [Readable, hseen]
  refine ⟨fun e he => ?_, ?_⟩
  · obtain ⟨l, hl, rfl⟩ := List.mem_map.1 he
    rw [PcrLine.row, List.length_map]
    exact (hlines l hl).2.2.2
  · by_cases hmissing : ∃ i ∈ indices, lastEntry (lines.map PcrLine.row) i = none
    · exact Or.inl hmissing
    · refine Or.inr fun i hi => ?_
      cases hentry : lastEntry (lines.map PcrLine.row) i with
      | none => exact absurd ⟨i, hi, hentry⟩ hmissing
      | some e =>
        obtain ⟨hmem, hnumber⟩ := List.mem_filter.1 (List.mem_of_getLast? hentry)
        obtain ⟨l, hl, rfl⟩ := List.mem_map.1 hmem
        exact ⟨l, hl, of_decide_eq_true hnumber, rfl⟩

/-! ## The read -/

theorem mem_items {lines : List PcrLine} {last : List Spliced} {c : Char} (h : .printed c ∈ items lines last) :
    isHexDigit c = true ∨ c ∈ [':', ' ', 'x', '\n'] := by
  obtain ⟨l, -, hl⟩ := List.mem_flatMap.1 ((List.mem_append.1 h).resolve_right not_mem_gapItems)
  rcases List.mem_append.1 hl with hhead | hrest
  · exact Or.inl (hexDigit_of_digit (headItems_digits l hhead))
  · rcases List.mem_cons.1 hrest with hcolon | htail
    · rw [Item.printed.inj hcolon]
      exact Or.inr List.mem_cons_self
    · obtain ⟨d, hd, rfl⟩ := mem_tailItems htail
      by_contra hno
      rw [not_or] at hno
      have hmark : d.1 ∉ [' ', '0', 'x', '\n'] := by
        have hzero : d.1 ≠ '0' := fun h0 => hno.1 (h0 ▸ rfl)
        simpa [hzero] using fun h => hno.2 (List.mem_cons_of_mem _ h)
      exact tail_ne l (eq_false_of_ne_true hno.1) hmark d hd rfl

theorem plain_of_items {out : List Item} {lines : List PcrLine} {last : List Spliced} (h : dropReturns out = items lines last) :
    Plain out := by
  intro c hc
  rcases return_cases (.printed c) with heq | hi
  · rw [Item.printed.inj heq]
    decide
  · have hmem : .printed c ∈ items lines last := h ▸ List.mem_filter.2 ⟨hc, by rw [hi]; rfl⟩
    rcases mem_items hmem with hdigit | hmark
    · exact ⟨digit_ne hdigit (by decide), digit_ne hdigit (by decide)⟩
    · constructor <;> rintro rfl <;> exact absurd hmark (by decide)

/-- an output ends with a line -/
theorem items_last {lines : List PcrLine} {last : List Spliced} {i : Item} (h : (items lines last).getLast? = some i) :
    isOpen i = false := by
  rw [items, List.getLast?_append] at h
  cases hlast : (gapItems last).getLast? with
  | some j =>
    rw [hlast] at h
    obtain rfl := Option.some.inj h
    obtain ⟨x, -, rfl⟩ := List.mem_map.1 (List.mem_of_getLast? hlast)
    rfl
  | none =>
    rw [hlast, Option.none_or] at h
    induction lines using List.reverseRecOn with
    | nil => cases h
    | append_singleton lines l _ =>
      obtain ⟨body, hbody, -⟩ := tailItems_newline l
      rw [List.flatMap_append, List.flatMap_singleton, lineItems, hbody, ← List.cons_append, ← List.append_assoc,
        ← List.append_assoc, List.getLast?_concat] at h
      obtain rfl := Option.some.inj h
      rfl

theorem ended_of_items {out : List Item} {lines : List PcrLine} {last : List Spliced} (h : dropReturns out = items lines last) :
    ∀ c ∈ (textOf out).getLast?, c ∉ prompt := by
  intro c hc
  cases out using List.reverseRecOn with
  | nil => cases hc
  | append_singleton out i =>
    rw [textOf_append, textOf, textOf, List.flatMap_singleton] at hc
    have hend : c = '\r' ∨ c = '\n' := by
      rcases return_cases i with rfl | hi
      · rw [Item.text, List.getLast?_concat] at hc
        exact Or.inl (Option.some.inj hc).symm
      · have hconcat : dropReturns (out ++ [i]) = dropReturns out ++ [i] := by
          rw [dropReturns_append, dropReturns_other hi]
          rfl
        have hget : (items lines last).getLast? = some i := by rw [← h, hconcat, List.getLast?_concat]
        have hopen : isOpen i = false := items_last hget
        cases i with
        | printed d =>
          obtain rfl : d = '\n' := by simpa [isOpen] using hopen
          rw [Item.text, List.getLast?_concat] at hc
          exact Or.inr (Option.some.inj hc).symm
        | spliced x =>
          rw [Item.text, Spliced.chars, ← List.append_assoc, List.getLast?_concat] at hc
          exact Or.inr (Option.some.inj hc).symm
    rcases hend with rfl | rfl <;> decide

/-- **A PCR value is read whole or not at all** exactly where what is `seen` of the output leaves it `Readable`: a hypervisor
line inside a value shortens it, one that spells an entry replaces what was printed before it, and one that holds a prompt
hides what follows. -/
theorem pcrs_whole_iff (commandTimeout : Time) (vm vm' : Vm) (indices : List ℕ) (bank : String) (started : Time)
    (first : Poll) (later : List Poll) (f : Frame) (out : List Item) (lines : List PcrLine) (last : List Spliced)
    (rest : Bytes) (o : List Char) (hout : dropReturns out = items lines last)
    (hbytes : vm'.reader.serialBuf.drop vm.cursor <+: encodeChars (f.chars out) ++ rest)
    (hrun : run commandTimeout vm ⟨pcrread indices bank, started, first, later⟩ = (vm', .printed o)) :
    (∃ result, pcrs commandTimeout vm indices bank started first later = (vm', some result) ∧
      WholeOrNone indices lines result) ↔ Readable indices lines (seen lines last) := by
  have ho : o = strip (cleanedText (heard out)) := run_heard (plain_of_items hout) (ended_of_items hout) hbytes hrun
  have hentries : findPcrs o = seen lines last := by
    rw [ho, findPcrs_strip, ← cleanedText_heard_dropReturns, hout, findPcrs_heard]
  have hpcrs : pcrs commandTimeout vm indices bank started first later = (vm', some (readPcrs indices o)) := by
    rw [pcrs, hrun]
  rw [hpcrs, ← hentries, ← wholeOrNone_iff]
  constructor
  · rintro ⟨result, hresult, h⟩
    rwa [Option.some.inj (Prod.mk.inj hresult).2]
  · intro h
    exact ⟨_, rfl, h⟩

/-- a console on which the shell switches its paste mode around the command -/
def shell : Frame where
  echo := " tpm2_pcrread sha256:17".toList
  lead := "\x1b[?2004h".toList
  echo_line := by decide
  echo_quiet := by decide
  lead_line := by decide
  lead_ahead := by
    have hlast : ∀ c ∈ "\x1b[?2004h".toList.getLast?, c ∉ prompt := fun c hc => by
      obtain rfl : 'h' = c := Option.some.inj hc
      decide
    have hlead := ahead_append (by decide) hlast ahead_nil
    rwa [List.append_nil] at hlead

/-- the read of PCR 17 where the console shows the output -/
def shown (out : List Item) : Vm × Ran := run 60 fresh ⟨pcrread [17] "sha256", 0, showing (encodeChars (shell.chars out)) 1, []⟩

def hasPrinted (out : List Char) : Ran → Bool
  | .printed o => o = out
  | _ => false

theorem shown_eq {out : List Item} {o : List Char} (h : hasPrinted o (shown out).2 = true) :
    shown out = ((shown out).1, .printed o) := by
  cases hr : (shown out).2 with
  | printed o' =>
    rw [hr] at h
    rw [← of_decide_eq_true h, ← hr]
  | raised e => rw [hr] at h; cases h
  | waiting w => rw [hr] at h; cases h

/-- `17: 0xAB`, with a hypervisor line in the middle of the value -/
def splitValue : PcrLine where
  before := []
  index := [('1', []), ('7', [])]
  colon := []
  space := []
  zero := []
  ex := []
  value := [('A', [⟨" guest 1".toList, by decide⟩]), ('B', [])]
  index_digits := by decide
  index_ne := List.cons_ne_nil _ _
  value_digits := by decide
  value_ne := List.cons_ne_nil _ _

/-- `17: 0xAB` behind a hypervisor line -/
def wholeValue : PcrLine where
  before := [⟨" guest 1".toList, by decide⟩]
  index := [('1', []), ('7', [])]
  colon := []
  space := []
  zero := []
  ex := []
  value := [('A', []), ('B', [])]
  index_digits := by decide
  index_ne := List.cons_ne_nil _ _
  value_digits := by decide
  value_ne := List.cons_ne_nil _ _

/-- a hypervisor line that holds a prompt and an entry -/
def promptLine : Spliced := ⟨" root@tb:~# 17: 0xEE".toList, by decide⟩

/-- the read behind a hypervisor line; the one with a prompt ends it -/
theorem pcrs_whole_iff_wholeValue : ∃ result,
    pcrs 60 fresh [17] "sha256" 0 (showing (encodeChars (shell.chars (items [wholeValue] [promptLine]))) 1) [] =
      ((shown (items [wholeValue] [promptLine])).1, some result) ∧ WholeOrNone [17] [wholeValue] result := by
  have hquiet : wholeValue.before.all isQuiet = true := by decide +kernel
  have hown : ownSeen wholeValue.before = [] := by decide +kernel
  have hlast : ownSeen [promptLine] = [] := by decide +kernel
  have hreadable : Readable [17] [wholeValue] (seen [wholeValue] [promptLine]) := readable_of_intact (by
    intro l hl
    rw [List.mem_singleton.1 hl]
    exact ⟨⟨by decide, rfl, by decide⟩, hquiet, hown, by decide⟩) hlast
  exact (pcrs_whole_iff 60 fresh _ [17] "sha256" 0 _ [] shell (items [wholeValue] [promptLine]) [wholeValue] [promptLine] []
    "(XEN) guest 1\n17: 0xAB".toList rfl (by decide +kernel) (shown_eq (by decide +kernel))).2 hreadable

/-- the value comes out cut at the hypervisor line -/
theorem pcrs_splitValue : ¬ ∃ result,
    pcrs 60 fresh [17] "sha256" 0 (showing (encodeChars (shell.chars (items [splitValue] []))) 1) [] =
      ((shown (items [splitValue] [])).1, some result) ∧ WholeOrNone [17] [splitValue] result := by
  have hread : (readPcrs [17] "17: 0xA(XEN) guest 1\nB".toList).toOption.bind (·.get? 17) = some ['a'] := by decide +kernel
  have hshown : shown (items [splitValue] []) = ((shown (items [splitValue] [])).1, .printed "17: 0xA(XEN) guest 1\nB".toList) :=
    shown_eq (by decide +kernel)
  rintro ⟨result, hresult, h⟩
  rw [pcrs, ← shown, hshown] at hresult
  rw [← Option.some.inj (Prod.mk.inj hresult).2] at h
  cases hcase : readPcrs [17] "17: 0xA(XEN) guest 1\nB".toList with
  | error e =>
    rw [hcase] at hread
    cases hread
  | ok found =>
    rw [hcase] at hread h
    obtain ⟨l, hl, -, hget⟩ := h 17 List.mem_cons_self
    have hfound : found.get? 17 = some ['a'] := hread
    rw [List.mem_singleton.1 hl, hfound] at hget
    exact absurd hget (by decide)

end DrtmTest.PcrConsole
