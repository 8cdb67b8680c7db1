/-
PCRs read off an output that the hypervisor writes into.

`PcrLine` is one line of `tpm2_pcrread` with whatever hypervisor lines land in it: before it, behind each digit and behind
each character of its `: 0x`.

- `findPcrs_append`: where no match reaches over a cut, the entries of a text are those of its parts.
- `findPcrs_chars`: the entries found in a printed line, those its hypervisor lines spell included. A splice in the
  value ends it (`firstRun`), one in the `: 0x` breaks the line, one in the index leaves what stands behind it, or the
  number the hypervisor line ends in (`indexLeft`).
- `findPcrs_strip`: the outer blanks change no entry.
- `wholeOrNone_iff`: values are read whole or not at all exactly where the entries found leave them `Readable`.
- `spelled_intact`: a line with nothing spliced into it spells its index and value.
-/
import DrtmTest.Ansi
import DrtmTest.HexDump

namespace DrtmTest.PcrReads

open DrtmTest.Text DrtmTest.Console DrtmTest.QemuVm DrtmTest.Ansi DrtmTest.Noise DrtmTest.HexDump

/-! ## The expression -/

theorem isDecimal_of_isDigit {c : Char} (h : isDigit c = true) : isDecimal c = true :=
  isDecimal_iff.2 ⟨0x30, by decide, isDigit_iff.1 h⟩

theorem afterMark_eq_some {cs rest : List Char} : afterMark cs = some rest ↔ cs = ':' :: ' ' :: '0' :: 'x' :: rest := by
  constructor
  · intro h
    unfold afterMark at h
    split at h
    · cases h; rfl
    · cases h
  · rintro rfl
    rfl

theorem pcrAt_eq_some {cs : List Char} {e : List Char × List Char} {rest : List Char} :
    pcrAt cs = some (e, rest) ↔ ∃ more, afterMark ((cs.dropWhile isDecimal).dropWhile isSpace) = some more ∧
      e = (cs.takeWhile isDecimal, more.takeWhile isHexDigit) ∧ e.1 ≠ [] ∧ e.2 ≠ [] ∧ rest = more.dropWhile isHexDigit := by
  unfold pcrAt
  cases afterMark ((cs.dropWhile isDecimal).dropWhile isSpace) with
  | none => simp
  | some more =>
    simp only [Option.some.injEq, exists_eq_left']
    constructor
    · intro h
      split_ifs at h with hne
      cases h
      exact ⟨rfl, hne.1, hne.2, rfl⟩
    · rintro ⟨rfl, hi, hv, rfl⟩
      exact if_pos ⟨hi, hv⟩

/-- a match takes something and leaves the rest -/
theorem pcrAt_takes {cs : List Char} {e : List Char × List Char} {rest : List Char} (h : pcrAt cs = some (e, rest)) :
    ∃ taken, taken ≠ [] ∧ cs = taken ++ rest := by
  obtain ⟨more, hmark, he, hindex, -, rfl⟩ := pcrAt_eq_some.1 h
  have hmore := afterMark_eq_some.1 hmark
  refine ⟨cs.takeWhile isDecimal ++ ((cs.dropWhile isDecimal).takeWhile isSpace ++
    (':' :: ' ' :: '0' :: 'x' :: more.takeWhile isHexDigit)), ?_, ?_⟩
  · rw [he] at hindex
    exact List.append_ne_nil_of_left_ne_nil hindex _
  · simp only [List.append_assoc, List.cons_append, List.takeWhile_append_dropWhile]
    rw [← hmore, List.takeWhile_append_dropWhile, List.takeWhile_append_dropWhile]

theorem findPcrsFrom_skip (skip : ℕ) (cs : List Char) : findPcrsFrom skip cs = findPcrs (cs.drop skip) := by
  induction cs generalizing skip with
  | nil => rw [List.drop_nil]; cases skip <;> rfl
  | cons c cs ih =>
    cases skip with
    | zero => rfl
    | succ skip => exact ih skip

theorem findPcrs_found {cs : List Char} {e : List Char × List Char} {rest : List Char} (h : pcrAt cs = some (e, rest)) :
    findPcrs cs = e :: findPcrs rest := by
  obtain ⟨taken, hne, hcs⟩ := pcrAt_takes h
  obtain ⟨c, taken, rfl⟩ := List.exists_cons_of_ne_nil hne
  rw [List.cons_append] at hcs
  subst hcs
  rw [findPcrs, findPcrsFrom, h]
  simp only
  rw [findPcrsFrom_skip, List.length_append, Nat.add_sub_cancel, List.drop_left]

theorem findPcrs_skip {c : Char} {cs : List Char} (h : pcrAt (c :: cs) = none) : findPcrs (c :: cs) = findPcrs cs := by
  rw [findPcrs, findPcrsFrom, h]
  rfl

theorem pcrAt_not_decimal {c : Char} (hc : isDecimal c = false) (cs : List Char) : pcrAt (c :: cs) = none := by
  rw [Option.eq_none_iff_forall_ne_some]
  rintro ⟨e, rest⟩ h
  obtain ⟨_, -, he, hindex, -⟩ := pcrAt_eq_some.1 h
  rw [he, List.takeWhile_cons_of_neg (by rw [hc]; exact Bool.false_ne_true)] at hindex
  exact hindex rfl

theorem findPcrs_not_decimal {c : Char} (hc : isDecimal c = false) (cs : List Char) : findPcrs (c :: cs) = findPcrs cs :=
  findPcrs_skip (pcrAt_not_decimal hc cs)

/-- an entry has the colon and the `x` of the mark -/
theorem findPcrs_eq_nil {c : Char} (hc : c = ':' ∨ c = 'x') {cs : List Char} (h : c ∉ cs) : findPcrs cs = [] := by
  induction cs with
  | nil => rfl
  | cons d cs ih =>
    rw [List.mem_cons, not_or] at h
    rw [findPcrs_skip, ih h.2]
    rw [Option.eq_none_iff_forall_ne_some]
    rintro ⟨e, rest⟩ hat
    obtain ⟨more, hmark, -⟩ := pcrAt_eq_some.1 hat
    have hmem : c ∈ ((d :: cs).dropWhile isDecimal).dropWhile isSpace := by
      rw [afterMark_eq_some.1 hmark]
      rcases hc with rfl | rfl <;> simp
    have hmem' := (List.dropWhile_suffix _).subset ((List.dropWhile_suffix _).subset hmem)
    rcases List.mem_cons.1 hmem' with heq | hin
    · exact h.1 heq
    · exact h.2 hin

/-! ## Where the text can be cut -/

/-- what follows a text is not read with it: each match is the same without it -/
def Apart (a b : List Char) : Prop :=
  ∀ s, s ≠ [] → s <:+ a → pcrAt (s ++ b) = (pcrAt s).map fun m => (m.1, m.2 ++ b)

theorem Apart.suffix {a b s : List Char} (h : Apart a b) (hs : s <:+ a) : Apart s b :=
  fun t hne ht => h t hne (ht.trans hs)

/-- **Entries of parts.** Where two texts are apart, the entries of both are those of the first and those of the second. -/
theorem findPcrs_append {a b : List Char} (h : Apart a b) : findPcrs (a ++ b) = findPcrs a ++ findPcrs b := by
  induction hlen : a.length using Nat.strong_induction_on generalizing a with
  | _ n ih =>
    cases a with
    | nil => rfl
    | cons c a =>
      have hat := h (c :: a) (List.cons_ne_nil c a) (List.suffix_refl _)
      rw [List.cons_append] at hat ⊢
      cases hp : pcrAt (c :: a) with
      | none =>
        rw [hp] at hat
        rw [findPcrs_skip hp, findPcrs_skip hat]
        exact ih a.length (by rw [← hlen]; exact Nat.lt_succ_self _) (h.suffix (List.suffix_cons c a)) rfl
      | some m =>
        obtain ⟨e, rest⟩ := m
        rw [hp] at hat
        obtain ⟨taken, hne, hsplit⟩ := pcrAt_takes hp
        have hlt : rest.length < n := by
          have := List.length_pos_iff.2 hne
          rw [← hlen, hsplit, List.length_append]
          omega
        have hsuffix : rest <:+ c :: a := ⟨taken, hsplit.symm⟩
        rw [findPcrs_found hp, findPcrs_found hat, ih rest.length hlt (h.suffix hsuffix) rfl]
        rfl

/-- a mark does not reach into a text that starts with no rest of one -/
theorem afterMark_cut {u w : List Char} (h : ∀ s, s ≠ [] → [':', ' ', '0', 'x'] = u ++ s → ¬ s <+: w) :
    afterMark (u ++ w) = (afterMark u).map (· ++ w) := by
  cases hmark : afterMark u with
  | some rest =>
    rw [afterMark_eq_some.1 hmark]
    rfl
  | none =>
    rw [Option.map_none, Option.eq_none_iff_forall_ne_some]
    intro rest hrest
    have hsplit : u ++ w = [':', ' ', '0', 'x'] ++ rest := afterMark_eq_some.1 hrest
    have hwhole : ∀ v, u ≠ [':', ' ', '0', 'x'] ++ v := by
      intro v hv
      rw [hv] at hmark
      cases hmark
    rcases List.append_eq_append_iff.1 hsplit with ⟨s, hs, rfl⟩ | ⟨v, hv, -⟩
    · by_cases hnil : s = []
      · exact hwhole [] (by rw [hs, hnil, List.append_nil, List.append_nil])
      · exact h s hnil hs (List.prefix_append s rest)
    · exact hwhole v hv

/-- a character that is in no mark ends it -/
theorem afterMark_stop {z : Char} (hz : z ∉ [':', ' ', '0', 'x']) (s b : List Char) :
    afterMark (s ++ z :: b) = (afterMark s).map (· ++ z :: b) := by
  apply afterMark_cut
  intro t hne hmark hprefix
  obtain ⟨c, t, rfl⟩ := List.exists_cons_of_ne_nil hne
  obtain rfl := (List.cons_prefix_cons.1 hprefix).1
  exact hz (hmark ▸ List.mem_append_right s List.mem_cons_self)

/-- a hypervisor line begins with what no entry holds -/
theorem apart_paren (a b : List Char) : Apart a ('(' :: b) := by
  intro s _ _
  have hdec : isDecimal '(' = false := by decide
  have hspace : isSpace '(' = false := by decide
  have hhex : isHexDigit '(' = false := by decide
  unfold pcrAt
  rw [dropWhile_stop hdec, dropWhile_stop hspace, afterMark_stop (by decide), takeWhile_stop hdec]
  cases afterMark ((s.dropWhile isDecimal).dropWhile isSpace) with
  | none => rfl
  | some rest =>
    simp only [Option.map_some, takeWhile_stop hhex, dropWhile_stop hhex]
    split_ifs <;> rfl

/-- what is left of a text behind an index and blanks -/
def behind (s : List Char) : List Char := (s.dropWhile isDecimal).dropWhile isSpace

theorem behind_blank {z : Char} (hz : isSpace z = true) (s b : List Char) :
    behind (s ++ z :: b) = if behind s = [] then b.dropWhile isSpace else behind s ++ z :: b := by
  have hdec : isDecimal z = false := isDecimal_of_isSpace hz
  have hempty : ((s.dropWhile isDecimal).dropWhile isSpace).isEmpty = true ↔ behind s = [] := List.isEmpty_iff
  by_cases h : behind s = []
  · rw [behind, dropWhile_stop hdec, List.dropWhile_append, List.dropWhile_cons_of_pos hz, if_pos (hempty.2 h), if_pos h]
  · rw [behind, dropWhile_stop hdec, List.dropWhile_append, if_neg (mt hempty.1 h), if_neg h]
    rfl

theorem behind_newline (s b : List Char) :
    behind (s ++ '\n' :: b) = if behind s = [] then b.dropWhile isSpace else behind s ++ '\n' :: b :=
  behind_blank (by decide) s b

theorem pcrAt_eq (s : List Char) : pcrAt s = (afterMark (behind s)).bind fun rest =>
    if s.takeWhile isDecimal ≠ [] ∧ rest.takeWhile isHexDigit ≠ [] then
      some ((s.takeWhile isDecimal, rest.takeWhile isHexDigit), rest.dropWhile isHexDigit) else none := by
  unfold pcrAt behind
  cases afterMark ((s.dropWhile isDecimal).dropWhile isSpace) <;> rfl

/-- a match that begins before a line's end and needs more than blanks is the same whatever follows -/
theorem pcrAt_line {s : List Char} (hs : behind s ≠ []) (b : List Char) :
    pcrAt (s ++ '\n' :: b) = (pcrAt s).map fun m => (m.1, m.2 ++ '\n' :: b) := by
  have hdec : isDecimal '\n' = false := by decide
  have hhex : isHexDigit '\n' = false := by decide
  rw [pcrAt_eq, pcrAt_eq, behind_newline, if_neg hs, afterMark_stop (by decide), takeWhile_stop hdec]
  cases afterMark (behind s) with
  | none => rfl
  | some rest =>
    simp only [Option.map_some, Option.bind_some, takeWhile_stop hhex, dropWhile_stop hhex]
    split_ifs <;> rfl

/-- so it is, once it has seen the line's end -/
theorem pcrAt_past_line {s : List Char} (hs : behind s ≠ []) (b : List Char) :
    pcrAt (s ++ ['\n'] ++ b) = (pcrAt (s ++ ['\n'])).map fun m => (m.1, m.2 ++ b) := by
  rw [List.append_assoc, List.singleton_append, pcrAt_line hs, pcrAt_line hs, Option.map_map]
  congr 1
  funext m
  simp

theorem pcrAt_nothing {s : List Char} (hs : behind s = []) : pcrAt s = none := by
  rw [pcrAt_eq, hs]
  rfl

/-- an index at a line's end goes on with a colon at the head of what follows -/
theorem pcrAt_colon {s : List Char} (hs : behind s = []) (r : List Char) :
    pcrAt (s ++ '\n' :: ':' :: r) = pcrAt (s.takeWhile isDecimal ++ ':' :: r) := by
  have hdec : isDecimal '\n' = false := by decide
  have hdec' : isDecimal ':' = false := by decide
  have hspace : isSpace ':' = false := by decide
  have hall : ∀ c ∈ s.takeWhile isDecimal, isDecimal c = true := fun c hc => List.mem_takeWhile_imp hc
  have hindex : (s.takeWhile isDecimal ++ ':' :: r).dropWhile isDecimal = ':' :: r := dropWhile_run hall hdec' r
  have hbehind : behind (s.takeWhile isDecimal ++ ':' :: r) = ':' :: r := by
    rw [behind, hindex, List.dropWhile_cons_of_neg (by rw [hspace]; exact Bool.false_ne_true)]
  rw [pcrAt_eq, pcrAt_eq, behind_newline, if_pos hs, hbehind, takeWhile_stop hdec, takeWhile_stop hdec',
    List.dropWhile_cons_of_neg (by rw [hspace]; exact Bool.false_ne_true), List.takeWhile_eq_self_iff.2 hall]

/-- no entry reaches over a line's end to a text that begins, behind blanks, with no mark -/
theorem apart_newline {b : List Char} (hb : afterMark (b.dropWhile isSpace) = none) (a : List Char) :
    Apart (a ++ ['\n']) b := by
  intro s hne hs
  rcases List.suffix_concat_iff.1 hs with rfl | ⟨t, rfl, -⟩
  · exact absurd rfl hne
  · by_cases ht : behind t = []
    · have hnone : pcrAt (t ++ '\n' :: b) = none := by rw [pcrAt_eq, behind_newline, if_pos ht, hb]; rfl
      have hnone' : pcrAt (t ++ ['\n']) = none := by rw [pcrAt_eq, behind_newline, if_pos ht]; rfl
      rw [List.append_assoc, List.singleton_append, hnone, hnone']
      rfl
    · exact pcrAt_past_line ht b

/-! ## What the hypervisor writes in between -/

/-- a complete line of the hypervisor -/
structure Spliced where
  text : List Char
  oneLine : '\n' ∉ text

def Spliced.chars (x : Spliced) : List Char := xenTag ++ x.text ++ ['\n']

/-- the text of some lines one behind the other -/
def gapChars (g : List Spliced) : List Char := g.flatMap Spliced.chars

/-- the entries the lines spell themselves -/
def own (g : List Spliced) : List (List Char × List Char) := g.flatMap fun x => findPcrs x.chars

/-- characters as they are printed, each with the lines spliced in behind it -/
def weave (l : List (Char × List Spliced)) : List Char := l.flatMap fun d => d.1 :: gapChars d.2

theorem gapChars_cons (x : Spliced) (g : List Spliced) : gapChars (x :: g) = x.chars ++ gapChars g := List.flatMap_cons

theorem weave_cons (c : Char) (g : List Spliced) (ds : List (Char × List Spliced)) :
    weave ((c, g) :: ds) = c :: (gapChars g ++ weave ds) := List.flatMap_cons

theorem weave_of_sprinkled {base raw : List Char} (h : Sprinkled XenLine base raw) :
    ∃ g l, raw = gapChars g ++ weave l ∧ l.map Prod.fst = base := by
  induction h with
  | nil => exact ⟨[], [], rfl, rfl⟩
  | keep x _ ih =>
    obtain ⟨g, l, rfl, rfl⟩ := ih
    exact ⟨[], (x, g) :: l, (weave_cons x g l).symm, rfl⟩
  | piece hp _ ih =>
    obtain ⟨text, htext⟩ := hp
    obtain ⟨g, l, rfl, rfl⟩ := ih
    exact ⟨⟨text, htext⟩ :: g, l, by simp only [gapChars_cons, Spliced.chars, List.append_assoc], rfl⟩

/-- the number a text ends in, where no entry takes it -/
def pendingFrom : ℕ → List Char → List Char
  | _, [] => []
  | skip + 1, _ :: cs => pendingFrom skip cs
  | 0, c :: cs =>
    match pcrAt (c :: cs) with
    | some (_, rest) => pendingFrom (cs.length - rest.length) cs
    | none => if isDecimal c ∧ behind (c :: cs) = [] then (c :: cs).takeWhile isDecimal else pendingFrom 0 cs

/-- the number a hypervisor line ends in -/
def Spliced.pending (x : Spliced) : List Char := pendingFrom 0 x.chars

theorem pendingFrom_skip (skip : ℕ) (cs : List Char) : pendingFrom skip cs = pendingFrom 0 (cs.drop skip) := by
  induction cs generalizing skip with
  | nil => rw [List.drop_nil]; cases skip <;> rfl
  | cons c cs ih =>
    cases skip with
    | zero => rfl
    | succ skip => exact ih skip

theorem own_cons (x : Spliced) (g : List Spliced) : own (x :: g) = findPcrs x.chars ++ own g := List.flatMap_cons

theorem Spliced.chars_head (x : Spliced) : ∃ cs, x.chars = '(' :: cs := ⟨_, rfl⟩

/-- what begins with a hypervisor line or is empty is no mark -/
theorem gap_no_mark {g : List Spliced} {t : List Char} (ht : afterMark (t.dropWhile isSpace) = none) :
    afterMark ((gapChars g ++ t).dropWhile isSpace) = none := by
  cases g with
  | nil => exact ht
  | cons x g =>
    obtain ⟨cs, hcs⟩ := x.chars_head
    rw [gapChars_cons, hcs]
    rfl

/-- hypervisor lines spell their own entries, where what follows is no mark -/
theorem findPcrs_gap {g : List Spliced} {t : List Char} (ht : afterMark (t.dropWhile isSpace) = none) :
    findPcrs (gapChars g ++ t) = own g ++ findPcrs t := by
  induction g with
  | nil => rfl
  | cons x g ih =>
    rw [gapChars_cons, List.append_assoc, own_cons, List.append_assoc, ← ih, Spliced.chars,
      findPcrs_append (apart_newline (gap_no_mark ht) _)]

/-- the mark is not in what is printed without a colon -/
theorem weave_no_mark {l : List (Char × List Spliced)} (hl : ∀ d ∈ l, d.1 ≠ ':') :
    afterMark ((weave l).dropWhile isSpace) = none := by
  induction l with
  | nil => rfl
  | cons d l ih =>
    have hd := hl d List.mem_cons_self
    have hrest := ih fun e he => hl e (List.mem_cons_of_mem d he)
    rw [weave, List.flatMap_cons, List.cons_append, ← weave, List.dropWhile_cons]
    split_ifs
    · exact gap_no_mark hrest
    · rw [Option.eq_none_iff_forall_ne_some]
      intro rest h
      exact hd (List.cons.inj (afterMark_eq_some.1 h)).1

/-- what is printed without a colon leaves the entries of the hypervisor's lines alone -/
theorem findPcrs_weave {l : List (Char × List Spliced)} (hl : ∀ d ∈ l, d.1 ≠ ':') {a : List Char} (hacc : ':' ∉ a) :
    findPcrs (a ++ weave l) = l.flatMap fun d => own d.2 := by
  induction l generalizing a with
  | nil =>
    rw [weave, List.flatMap_nil, List.append_nil]
    exact findPcrs_eq_nil (Or.inl rfl) hacc
  | cons d l ih =>
    have hrest : ∀ e ∈ l, e.1 ≠ ':' := fun e he => hl e (List.mem_cons_of_mem d he)
    have hacc' : ':' ∉ a ++ [d.1] := by
      simp [hacc, Ne.symm (hl d List.mem_cons_self)]
    have hsplit : a ++ weave (d :: l) = (a ++ [d.1]) ++ (gapChars d.2 ++ weave l) := by
      rw [weave, List.flatMap_cons, ← weave]
      simp only [List.append_assoc, List.cons_append, List.nil_append]
    rw [hsplit, List.flatMap_cons]
    cases hg : d.2 with
    | nil => exact ih hrest hacc'
    | cons x g =>
      obtain ⟨cs, hcs⟩ := x.chars_head
      have hhead : gapChars (x :: g) ++ weave l = '(' :: (cs ++ gapChars g ++ weave l) := by
        rw [gapChars_cons, hcs]
        rfl
      have hgap := findPcrs_gap (g := x :: g) (weave_no_mark hrest)
      have hnil := ih hrest (a := []) List.not_mem_nil
      rw [List.nil_append] at hnil
      rw [hhead, findPcrs_append (apart_paren _ _), ← hhead, findPcrs_eq_nil (Or.inl rfl) hacc', hgap, hnil]
      rfl

/-! ## The number before a colon -/

/-- empty, or the end of a line -/
def EndsLine (a : List Char) : Prop := a = [] ∨ ∃ t, a = t ++ ['\n']

theorem EndsLine.suffix {a s : List Char} (h : EndsLine a) (hs : s <:+ a) : EndsLine s := by
  rcases h with rfl | ⟨t, rfl⟩
  · exact Or.inl (List.suffix_nil.1 hs)
  · rcases List.suffix_concat_iff.1 hs with rfl | ⟨u, rfl, -⟩
    · exact Or.inl rfl
    · exact Or.inr ⟨u, rfl⟩

theorem behind_line (t : List Char) : behind (t ++ ['\n']) = [] ↔ behind t = [] := by
  rw [behind_newline]
  split_ifs with h <;> simp [h]

theorem mem_of_behind_nil {s : List Char} (hs : behind s = []) {c : Char} (hc : c ∈ s) :
    isDecimal c = true ∨ isSpace c = true := by
  have hsplit := List.takeWhile_append_dropWhile (p := isDecimal) (l := s)
  rw [← hsplit] at hc
  rcases List.mem_append.1 hc with h | h
  · exact Or.inl (List.mem_takeWhile_imp h)
  · exact Or.inr (List.dropWhile_eq_nil_iff.1 hs c h)

theorem colon_not_mem {s : List Char} (hs : behind s = []) : ':' ∉ s := fun h => by
  rcases mem_of_behind_nil hs h with h | h
  · exact absurd h (by decide)
  · exact absurd h (by decide)

theorem behind_tail {c : Char} {cs : List Char} (h : behind (c :: cs) = []) : behind cs = [] := by
  rw [behind, List.dropWhile_eq_nil_iff] at h ⊢
  by_cases hc : isDecimal c = true
  · rwa [List.dropWhile_cons_of_pos hc] at h
  · rw [List.dropWhile_cons_of_neg hc] at h
    exact fun d hd => h d (List.mem_cons_of_mem c ((List.dropWhile_suffix _).subset hd))

/-- behind a blank no index is left -/
theorem takeWhile_behind_blank {c : Char} {cs : List Char} (h : behind (c :: cs) = []) (hc : ¬ isDecimal c = true) :
    cs.takeWhile isDecimal = [] := by
  rw [behind, List.dropWhile_cons_of_neg hc, List.dropWhile_eq_nil_iff] at h
  refine List.eq_nil_iff_forall_not_mem.2 fun d hd => ?_
  have hdec : isDecimal d = true := List.mem_takeWhile_imp hd
  rw [isDecimal_of_isSpace (h d (List.mem_cons_of_mem c ((List.takeWhile_prefix _).subset hd)))] at hdec
  cases hdec

theorem pending_of_behind_nil {s : List Char} (hs : behind s = []) : pendingFrom 0 s = s.takeWhile isDecimal := by
  induction s with
  | nil => rfl
  | cons c cs ih =>
    rw [pendingFrom, pcrAt_nothing hs]
    by_cases hc : isDecimal c = true
    · exact if_pos ⟨hc, hs⟩
    · simp only [hc, Bool.false_eq_true, false_and, if_false]
      rw [ih (behind_tail hs), List.takeWhile_cons_of_neg hc, takeWhile_behind_blank hs hc]

theorem pendingFrom_found {cs : List Char} {e : List Char × List Char} {rest : List Char}
    (h : pcrAt cs = some (e, rest)) : pendingFrom 0 cs = pendingFrom 0 rest := by
  obtain ⟨taken, hne, hcs⟩ := pcrAt_takes h
  obtain ⟨c, taken, rfl⟩ := List.exists_cons_of_ne_nil hne
  rw [List.cons_append] at hcs
  subst hcs
  rw [pendingFrom, h]
  simp only
  rw [pendingFrom_skip, List.length_append, Nat.add_sub_cancel, List.drop_left]

/-- an index and blanks before a colon are the index alone -/
theorem pcrAt_blank_colon {a : List Char} (ha : EndsLine a) (hbehind : behind a = []) (r : List Char) :
    pcrAt (a ++ ':' :: r) = pcrAt (a.takeWhile isDecimal ++ ':' :: r) := by
  rcases ha with rfl | ⟨t, rfl⟩
  · rfl
  · rw [takeWhile_stop (by decide), List.append_assoc, List.singleton_append]
    exact pcrAt_colon ((behind_line t).1 hbehind) r

theorem findPcrs_blank_colon {a : List Char} (ha : EndsLine a) (hbehind : behind a = []) (r : List Char) :
    findPcrs (a ++ ':' :: r) = findPcrs (a.takeWhile isDecimal ++ ':' :: r) := by
  induction a with
  | nil => rfl
  | cons c cs ih =>
    have hat := pcrAt_blank_colon ha hbehind r
    rw [List.cons_append] at hat ⊢
    cases hi : pcrAt ((c :: cs).takeWhile isDecimal ++ ':' :: r) with
    | some m =>
      rw [hi] at hat
      rw [findPcrs_found hat, findPcrs_found hi]
    | none =>
      rw [hi] at hat
      rw [findPcrs_skip hat, ih (ha.suffix (List.suffix_cons c cs)) (behind_tail hbehind)]
      by_cases hc : isDecimal c = true
      · rw [List.takeWhile_cons_of_pos hc, List.cons_append] at hi ⊢
        exact (findPcrs_skip hi).symm
      · rw [List.takeWhile_cons_of_neg hc, takeWhile_behind_blank hbehind hc]

/-- what goes on behind an index and blanks is read the same before a colon -/
theorem pcrAt_before_colon {a : List Char} (ha : EndsLine a) (hbehind : behind a ≠ []) (r : List Char) :
    pcrAt (a ++ ':' :: r) = (pcrAt a).map fun m => (m.1, m.2 ++ ':' :: r) := by
  rcases ha with rfl | ⟨t, rfl⟩
  · exact absurd rfl hbehind
  · exact pcrAt_past_line (mt (behind_line t).2 hbehind) (':' :: r)

/-- **Before a colon** a text adds its own entries, and the number it ends in is read as an index. -/
theorem findPcrs_colon {a : List Char} (ha : EndsLine a) (r : List Char) :
    findPcrs (a ++ ':' :: r) = findPcrs a ++ findPcrs (pendingFrom 0 a ++ ':' :: r) := by
  induction hlen : a.length using Nat.strong_induction_on generalizing a with
  | _ n ih =>
    by_cases hbehind : behind a = []
    · -- an index and blanks: the colon may make an entry of them
      have hnil : findPcrs a = [] := findPcrs_eq_nil (Or.inl rfl) (colon_not_mem hbehind)
      rw [hnil, List.nil_append, pending_of_behind_nil hbehind]
      exact findPcrs_blank_colon ha hbehind r
    cases a with
    | nil => exact absurd rfl hbehind
    | cons c cs =>
      have hshort : ∀ s, s <:+ cs → findPcrs (s ++ ':' :: r) = findPcrs s ++ findPcrs (pendingFrom 0 s ++ ':' :: r) := by
        intro s hs
        apply ih s.length _ (ha.suffix (hs.trans (List.suffix_cons c cs))) rfl
        rw [← hlen]
        exact Nat.lt_succ_of_le hs.length_le
      have hat := pcrAt_before_colon ha hbehind r
      cases hp : pcrAt (c :: cs) with
      | some m =>
        obtain ⟨e, rest⟩ := m
        obtain ⟨taken, hne, hsplit⟩ := pcrAt_takes hp
        obtain ⟨d, taken, rfl⟩ := List.exists_cons_of_ne_nil hne
        rw [hp] at hat
        rw [findPcrs_found hat, findPcrs_found hp, hshort rest ⟨taken, (List.cons.inj hsplit).2.symm⟩, pendingFrom_found hp]
        rfl
      | none =>
        rw [hp] at hat
        rw [List.cons_append] at hat ⊢
        rw [findPcrs_skip hat, findPcrs_skip hp, hshort cs (List.suffix_refl cs), pendingFrom, hp]
        simp only [hbehind, and_false, if_false]

/-! ## A printed line -/

/-- what is left of an index for the reader: the digits behind the last splice, or the number that line ends in where no
digit follows it -/
def indexLeft : List Char → List (Char × List Spliced) → List Char
  | acc, [] => acc
  | acc, (c, g) :: ds =>
    match g.getLast? with
    | none => indexLeft (acc ++ [c]) ds
    | some x => if ds = [] then x.pending else indexLeft [] ds

/-- what is left of a value: the digits before the first splice -/
def firstRun : List (Char × List Spliced) → List Char
  | [] => []
  | (c, g) :: ds => if g = [] then c :: firstRun ds else [c]

/-- one line of `tpm2_pcrread`, `<index>: 0x<hex digits>`, with the lines spliced in before it and behind each character -/
structure PcrLine where
  before : List Spliced
  index : List (Char × List Spliced)
  colon : List Spliced
  space : List Spliced
  zero : List Spliced
  ex : List Spliced
  value : List (Char × List Spliced)
  index_digits : ∀ d ∈ index, isDigit d.1 = true
  index_ne : index ≠ []
  value_digits : ∀ d ∈ value, isHexDigit d.1 = true
  value_ne : value ≠ []

namespace PcrLine

/-- the index it prints -/
def pcr (l : PcrLine) : ℕ := number (l.index.map Prod.fst)

/-- the digits it prints -/
def digits (l : PcrLine) : List Char := l.value.map Prod.fst

/-- what follows the colon -/
def tail (l : PcrLine) : List (Char × List Spliced) :=
  (' ', l.space) :: ('0', l.zero) :: ('x', l.ex) :: (l.value ++ [('\n', [])])

def chars (l : PcrLine) : List Char :=
  gapChars l.before ++ (weave l.index ++ ':' :: (gapChars l.colon ++ weave l.tail))

/-- nothing is spliced into the mark -/
def markWhole (l : PcrLine) : Bool := l.colon.isEmpty && l.space.isEmpty && l.zero.isEmpty && l.ex.isEmpty

/-- the number before the colon as the reader gets it -/
def left (l : PcrLine) : List Char := indexLeft [] l.index

/-- the entry the line spells for the reader, if it spells one -/
def spelled (l : PcrLine) : List (List Char × List Char) :=
  if l.markWhole && !l.left.isEmpty then [(l.left, firstRun l.value)] else []

/-- what the reader finds in the line, the entries its hypervisor lines spell included -/
def entries (l : PcrLine) : List (List Char × List Char) :=
  own l.before ++ (l.index.flatMap fun d => own d.2) ++ l.spelled ++ own l.colon ++ l.tail.flatMap fun d => own d.2

theorem index_head (l : PcrLine) : ∃ c cs, weave l.index = c :: cs ∧ isDigit c = true := by
  obtain ⟨d, ds, hd⟩ := List.exists_cons_of_ne_nil l.index_ne
  exact ⟨d.1, gapChars d.2 ++ weave ds, by rw [hd]; rfl, l.index_digits d (by rw [hd]; exact List.mem_cons_self)⟩

end PcrLine

/-- what begins with a digit is no mark -/
theorem decimal_no_mark {c : Char} (h : isDecimal c = true) (cs : List Char) :
    afterMark ((c :: cs).dropWhile isSpace) = none := by
  rw [List.dropWhile_cons_of_neg (not_space_of_decimal h), Option.eq_none_iff_forall_ne_some]
  intro rest hmark
  rw [(List.cons.inj (afterMark_eq_some.1 hmark)).1] at h
  exact absurd h (by decide)

theorem pendingFrom_decimal (skip : ℕ) (cs : List Char) : ∀ c ∈ pendingFrom skip cs, isDecimal c = true := by
  induction cs generalizing skip with
  | nil => cases skip <;> exact List.forall_mem_nil _
  | cons c cs ih =>
    rcases skip with _ | skip
    · rw [pendingFrom]
      split
      · exact ih _
      · split_ifs
        · exact fun _ h => List.mem_takeWhile_imp h
        · exact ih 0
    · exact ih skip

theorem indexLeft_decimal {acc : List Char} {ds : List (Char × List Spliced)} (hacc : ∀ c ∈ acc, isDecimal c = true)
    (hds : ∀ d ∈ ds, isDecimal d.1 = true) : ∀ c ∈ indexLeft acc ds, isDecimal c = true := by
  induction ds generalizing acc with
  | nil => exact hacc
  | cons d ds ih =>
    obtain ⟨c, g⟩ := d
    have hrest : ∀ d ∈ ds, isDecimal d.1 = true := fun d hd => hds d (List.mem_cons_of_mem _ hd)
    rw [indexLeft]
    split
    · exact ih (List.forall_mem_append.2 ⟨hacc, List.forall_mem_singleton.2 (hds (c, g) List.mem_cons_self)⟩) hrest
    · split_ifs
      · exact pendingFrom_decimal 0 _
      · exact ih (List.forall_mem_nil _) hrest

theorem colon_not_mem_decimal {a : List Char} (ha : ∀ c ∈ a, isDecimal c = true) : ':' ∉ a := fun h =>
  absurd (ha _ h) (by decide)

/-- hypervisor lines before a colon: the number the last one ends in is read as an index -/
theorem findPcrs_gap_colon (g : List Spliced) (x : Spliced) (r : List Char) :
    findPcrs (gapChars (g ++ [x]) ++ ':' :: r) = own (g ++ [x]) ++ findPcrs (x.pending ++ ':' :: r) := by
  have hcut : gapChars (g ++ [x]) ++ ':' :: r = gapChars g ++ (x.chars ++ ':' :: r) := by
    simp only [gapChars, List.flatMap_append, List.flatMap_cons, List.flatMap_nil, List.append_nil, List.append_assoc]
  have hown : own (g ++ [x]) = own g ++ findPcrs x.chars := by
    simp only [own, List.flatMap_append, List.flatMap_cons, List.flatMap_nil, List.append_nil]
  obtain ⟨cs, hcs⟩ := x.chars_head
  have hmark : afterMark ((x.chars ++ ':' :: r).dropWhile isSpace) = none := by rw [hcs]; rfl
  rw [hcut, findPcrs_gap hmark, hown, findPcrs_colon (a := x.chars) (Or.inr ⟨_, rfl⟩), List.append_assoc]
  rfl

/-- digits before a hypervisor line are no entry -/
theorem findPcrs_before_gap {a : List Char} (ha : ∀ c ∈ a, isDecimal c = true) (g : List Spliced) (x : Spliced)
    (r : List Char) : findPcrs (a ++ (gapChars (g ++ [x]) ++ r)) = findPcrs (gapChars (g ++ [x]) ++ r) := by
  have hhead : ∃ cs, gapChars (g ++ [x]) ++ r = '(' :: cs := by
    rcases g with _ | ⟨y, g⟩
    · exact ⟨_, rfl⟩
    · exact ⟨_, rfl⟩
  obtain ⟨cs, hcs⟩ := hhead
  have hapart : Apart a (gapChars (g ++ [x]) ++ r) := hcs ▸ apart_paren a cs
  rw [findPcrs_append hapart, findPcrs_eq_nil (Or.inl rfl) (colon_not_mem_decimal ha), List.nil_append]

/-- **The index** a printed line is read with. -/
theorem findPcrs_index {ds : List (Char × List Spliced)} (hds : ∀ d ∈ ds, isDecimal d.1 = true) {a : List Char}
    (hacc : ∀ c ∈ a, isDecimal c = true) (r : List Char) : findPcrs (a ++ (weave ds ++ ':' :: r)) =
      (ds.flatMap fun d => own d.2) ++ findPcrs (indexLeft a ds ++ ':' :: r) := by
  induction ds generalizing a with
  | nil => rfl
  | cons d ds ih =>
    obtain ⟨c, g⟩ := d
    have hrest : ∀ d ∈ ds, isDecimal d.1 = true := fun d hd => hds d (List.mem_cons_of_mem _ hd)
    have hacc' : ∀ e ∈ a ++ [c], isDecimal e = true :=
      List.forall_mem_append.2 ⟨hacc, List.forall_mem_singleton.2 (hds (c, g) List.mem_cons_self)⟩
    have hcut : a ++ (weave ((c, g) :: ds) ++ ':' :: r) = (a ++ [c]) ++ (gapChars g ++ (weave ds ++ ':' :: r)) := by
      rw [weave_cons]
      simp only [List.append_assoc, List.cons_append, List.nil_append]
    rw [hcut, List.flatMap_cons]
    rcases List.eq_nil_or_concat' g with rfl | ⟨g, x, rfl⟩
    · exact ih hrest hacc'
    · rw [findPcrs_before_gap hacc', indexLeft, List.getLast?_concat]
      simp only
      rcases ds with _ | ⟨e, ds⟩
      · rw [if_pos rfl]
        calc findPcrs (gapChars (g ++ [x]) ++ (weave [] ++ ':' :: r))
            = own (g ++ [x]) ++ findPcrs (x.pending ++ ':' :: r) := findPcrs_gap_colon g x r
          _ = _ := by rw [List.flatMap_nil, List.append_nil]
      · rw [if_neg (List.cons_ne_nil e ds)]
        have hmark : afterMark ((weave (e :: ds) ++ ':' :: r).dropWhile isSpace) = none :=
          decimal_no_mark (hrest e List.mem_cons_self) _
        calc findPcrs (gapChars (g ++ [x]) ++ (weave (e :: ds) ++ ':' :: r))
            = own (g ++ [x]) ++ findPcrs (weave (e :: ds) ++ ':' :: r) := findPcrs_gap hmark
          _ = own (g ++ [x]) ++ (((e :: ds).flatMap fun d => own d.2) ++ findPcrs (indexLeft [] (e :: ds) ++ ':' :: r)) :=
            congrArg (own (g ++ [x]) ++ ·) (ih hrest (List.forall_mem_nil _))
          _ = _ := (List.append_assoc ..).symm

/-- a number before a colon, as the reader gets it -/
theorem pcrAt_index {j : List Char} (hj : ∀ c ∈ j, isDecimal c = true) (r : List Char) :
    pcrAt (j ++ ':' :: r) = (afterMark (':' :: r)).bind fun rest =>
      if j ≠ [] ∧ rest.takeWhile isHexDigit ≠ [] then some ((j, rest.takeWhile isHexDigit), rest.dropWhile isHexDigit)
      else none := by
  have hbehind : behind (j ++ ':' :: r) = ':' :: r := by
    rw [behind, dropWhile_run hj (by decide), List.dropWhile_cons_of_neg (by decide)]
  rw [pcrAt_eq, hbehind, takeWhile_run hj (by decide)]

/-- a number with no mark and value behind it is no entry -/
theorem findPcrs_no_mark {j r : List Char} (hj : ∀ c ∈ j, isDecimal c = true)
    (hr : ∀ rest, afterMark (':' :: r) = some rest → rest.takeWhile isHexDigit = []) :
    findPcrs (j ++ ':' :: r) = findPcrs r := by
  have hbehind : ∀ s : List Char, (∀ c ∈ s, isDecimal c = true) → pcrAt (s ++ ':' :: r) = none := by
    intro s hs
    rw [pcrAt_index hs, Option.bind_eq_none_iff]
    intro rest hrest
    exact if_neg fun h => h.2 (hr rest hrest)
  induction j with
  | nil => exact findPcrs_skip (hbehind [] hj)
  | cons c j ih => exact (findPcrs_skip (hbehind (c :: j) hj)).trans (ih fun d hd => hj d (List.mem_cons_of_mem c hd))

/-- the end of a printed line -/
def newline : Char × List Spliced := ('\n', [])

/-- **The value** a printed line is read with, and what is found behind it. -/
theorem weave_run {v : List (Char × List Spliced)} (hv : ∀ d ∈ v, isHexDigit d.1 = true) :
    (weave (v ++ [newline])).takeWhile isHexDigit = firstRun v ∧
      findPcrs ((weave (v ++ [newline])).dropWhile isHexDigit) = (v ++ [newline]).flatMap fun d => own d.2 := by
  induction v with
  | nil => exact ⟨by decide, by decide⟩
  | cons d v ih =>
    obtain ⟨c, g⟩ := d
    have hc : isHexDigit c = true := hv (c, g) List.mem_cons_self
    have hrest : ∀ d ∈ v, isHexDigit d.1 = true := fun d hd => hv d (List.mem_cons_of_mem _ hd)
    rw [List.cons_append, weave_cons, List.takeWhile_cons_of_pos hc, List.dropWhile_cons_of_pos hc, firstRun,
      List.flatMap_cons]
    cases g with
    | nil =>
      rw [if_pos rfl]
      exact ⟨congrArg (c :: ·) (ih hrest).1, (ih hrest).2⟩
    | cons x g =>
      rw [if_neg (List.cons_ne_nil x g)]
      obtain ⟨cs, hcs⟩ := x.chars_head
      have hparen : ¬ isHexDigit '(' = true := by decide
      have hhead : gapChars (x :: g) ++ weave (v ++ [newline]) = '(' :: (cs ++ gapChars g ++ weave (v ++ [newline])) := by
        rw [gapChars_cons, hcs]
        rfl
      have hcolon : ∀ d ∈ v ++ [newline], d.1 ≠ ':' := by
        intro d hd hcolon
        rcases List.mem_append.1 hd with hd | hd
        · exact absurd (hcolon ▸ hrest d hd) (by decide)
        · rw [List.mem_singleton.1 hd] at hcolon
          exact absurd hcolon (by decide)
      refine ⟨by rw [hhead, List.takeWhile_cons_of_neg hparen], ?_⟩
      have hweave := findPcrs_weave hcolon (a := []) List.not_mem_nil
      rw [List.nil_append] at hweave
      rw [hhead, List.dropWhile_cons_of_neg hparen, ← hhead, findPcrs_gap (weave_no_mark hcolon), hweave]

namespace PcrLine

theorem tail_no_colon (l : PcrLine) : ∀ d ∈ l.tail, d.1 ≠ ':' := by
  intro d hd hcolon
  simp only [tail, List.mem_cons, List.mem_append, List.not_mem_nil, or_false] at hd
  rcases hd with rfl | rfl | rfl | hd | rfl
  · exact absurd hcolon (show ' ' ≠ ':' by decide)
  · exact absurd hcolon (show '0' ≠ ':' by decide)
  · exact absurd hcolon (show 'x' ≠ ':' by decide)
  · exact absurd (hcolon ▸ l.value_digits d hd) (by decide)
  · exact absurd hcolon (show '\n' ≠ ':' by decide)

theorem findPcrs_behind_colon (l : PcrLine) :
    findPcrs (gapChars l.colon ++ weave l.tail) = own l.colon ++ l.tail.flatMap fun d => own d.2 := by
  have hweave := findPcrs_weave l.tail_no_colon (a := []) List.not_mem_nil
  rw [List.nil_append] at hweave
  rw [findPcrs_gap (weave_no_mark l.tail_no_colon), hweave]

theorem weave_tail (l : PcrLine) : weave l.tail = ' ' :: (gapChars l.space ++ '0' :: (gapChars l.zero ++
    'x' :: (gapChars l.ex ++ weave (l.value ++ [newline])))) := rfl

/-- a splice in the mark breaks it -/
theorem mark_broken {l : PcrLine} (h : l.markWhole = false) (rest : List Char)
    (hmark : afterMark (':' :: (gapChars l.colon ++ weave l.tail)) = some rest) : rest.takeWhile isHexDigit = [] := by
  have hgap : ∀ {g : List Spliced} {c : Char} {u v : List Char}, c ≠ '(' → gapChars g ++ u = c :: v → g = [] ∧ u = c :: v := by
    intro g c u v hc huv
    rcases g with _ | ⟨x, g⟩
    · exact ⟨rfl, huv⟩
    · exact absurd (List.cons.inj huv).1.symm hc
  have heq := (List.cons.inj (afterMark_eq_some.1 hmark)).2
  obtain ⟨hcolon, hcolon'⟩ := hgap (by decide) heq
  rw [weave_tail, List.cons.injEq] at hcolon'
  obtain ⟨hspace, hspace'⟩ := hgap (by decide) hcolon'.2
  rw [List.cons.injEq] at hspace'
  obtain ⟨hzero, hzero'⟩ := hgap (by decide) hspace'.2
  rw [List.cons.injEq] at hzero'
  rw [markWhole, hcolon, hspace, hzero] at h
  rcases hex : l.ex with _ | ⟨x, g⟩
  · rw [hex] at h
    cases h
  · rw [← hzero'.2, hex]
    rfl

/-- the number before the colon and what follows it -/
theorem findPcrs_tail (l : PcrLine) {j : List Char} (hj : ∀ c ∈ j, isDecimal c = true) :
    findPcrs (j ++ ':' :: (gapChars l.colon ++ weave l.tail)) =
      (if l.markWhole && !j.isEmpty then [(j, firstRun l.value)] else []) ++ own l.colon ++ l.tail.flatMap fun d => own d.2 := by
  cases hwhole : l.markWhole with
  | false =>
    rw [findPcrs_no_mark hj (mark_broken hwhole), l.findPcrs_behind_colon]
    rfl
  | true =>
    have hsplit := hwhole
    simp only [markWhole, Bool.and_eq_true, List.isEmpty_iff] at hsplit
    obtain ⟨⟨⟨hcolon, hspace⟩, hzero⟩, hex⟩ := hsplit
    have htail : l.tail.flatMap (fun d => own d.2) = (l.value ++ [newline]).flatMap fun d => own d.2 := by
      rw [tail, hspace, hzero, hex]
      rfl
    have hmark : afterMark (':' :: (gapChars l.colon ++ weave l.tail)) = some (weave (l.value ++ [newline])) := by
      rw [weave_tail, hcolon, hspace, hzero, hex]
      rfl
    have hrun := weave_run l.value_digits
    have hvalue : firstRun l.value ≠ [] := by
      obtain ⟨d, v, hd⟩ := List.exists_cons_of_ne_nil l.value_ne
      rw [hd, firstRun]
      split_ifs <;> exact List.cons_ne_nil _ _
    rcases j with _ | ⟨c, j⟩
    · rw [List.nil_append, findPcrs_not_decimal (by decide), l.findPcrs_behind_colon]
      rfl
    · have hat := pcrAt_index hj (gapChars l.colon ++ weave l.tail)
      rw [hmark, Option.bind_some, hrun.1, if_pos ⟨List.cons_ne_nil c j, hvalue⟩] at hat
      rw [findPcrs_found hat, hrun.2, htail, hcolon]
      rfl

/-- **A printed line** is read as its entries. -/
theorem findPcrs_chars (l : PcrLine) : findPcrs l.chars = l.entries := by
  obtain ⟨c, cs, hindex, hc⟩ := l.index_head
  have hdecimal : ∀ d ∈ l.index, isDecimal d.1 = true := fun d hd => isDecimal_of_isDigit (l.index_digits d hd)
  have hmark : afterMark ((weave l.index ++ ':' :: (gapChars l.colon ++ weave l.tail)).dropWhile isSpace) = none := by
    rw [hindex, List.cons_append]
    exact decimal_no_mark (isDecimal_of_isDigit hc) _
  have hread := findPcrs_index hdecimal (a := []) (List.forall_mem_nil _)
    (gapChars l.colon ++ weave l.tail)
  rw [List.nil_append] at hread
  rw [chars, findPcrs_gap hmark, hread, l.findPcrs_tail (indexLeft_decimal (List.forall_mem_nil _) hdecimal),
    entries, spelled, left]
  simp only [List.append_assoc]

end PcrLine

/-! ## The outer blanks -/

theorem findPcrs_blanks {w : List Char} (hw : ∀ c ∈ w, isSpace c = true) (s : List Char) : findPcrs (w ++ s) = findPcrs s := by
  induction w with
  | nil => rfl
  | cons c w ih =>
    rw [List.cons_append, findPcrs_not_decimal (isDecimal_of_isSpace (hw c List.mem_cons_self))]
    exact ih fun d hd => hw d (List.mem_cons_of_mem c hd)

/-- blanks behind a text complete no mark -/
theorem afterMark_blanks (u : List Char) {w : List Char} (hw : ∀ c ∈ w, isSpace c = true) :
    afterMark (u ++ w) = (afterMark u).map (· ++ w) := by
  apply afterMark_cut
  intro s hne hmark hprefix
  have hlast : s.getLast? = some 'x' := by
    rw [← List.getLast?_append_of_ne_nil u hne, ← hmark]
    rfl
  have hx : 'x' ∈ w := hprefix.subset (List.mem_of_getLast? hlast)
  exact absurd (hw 'x' hx) (by decide)

theorem not_space_of_hexDigit {c : Char} (h : isHexDigit c = true) : isSpace c = false := by
  have hrange : (48 ≤ c.toNat ∧ c.toNat ≤ 57) ∨ (97 ≤ c.toNat ∧ c.toNat ≤ 102) ∨ (65 ≤ c.toNat ∧ c.toNat ≤ 70) := by
    simp only [isHexDigit, Bool.or_eq_true, decide_eq_true_eq, isDigit_iff, Char.le_def, UInt32.le_iff_toNat_le, or_assoc] at h
    exact h
  simp only [isSpace, decide_eq_false_iff_not]
  omega

theorem apart_blanks {w : List Char} (hw : ∀ c ∈ w, isSpace c = true) (a : List Char) : Apart a w := by
  rcases w with _ | ⟨z, w⟩
  · intro s _ _
    rw [List.append_nil]
    simp
  · intro s _ _
    have hz : isSpace z = true := hw z List.mem_cons_self
    have hdec : isDecimal z = false := isDecimal_of_isSpace hz
    have hhex : isHexDigit z = false := by
      by_contra h
      exact absurd hz (by rw [not_space_of_hexDigit (eq_true_of_ne_false h)]; exact Bool.false_ne_true)
    by_cases hs : behind s = []
    · have hnone : behind (s ++ z :: w) = [] := by
        rw [behind_blank hz, if_pos hs, List.dropWhile_eq_nil_iff]
        exact fun c hc => hw c (List.mem_cons_of_mem z hc)
      rw [pcrAt_nothing hs, pcrAt_nothing hnone]
      rfl
    · have hbehind : behind (s ++ z :: w) = behind s ++ z :: w := by rw [behind_blank hz, if_neg hs]
      rw [pcrAt_eq, pcrAt_eq, hbehind, afterMark_blanks (behind s) hw, takeWhile_stop hdec]
      cases afterMark (behind s) with
      | none => rfl
      | some rest =>
        simp only [Option.map_some, Option.bind_some, takeWhile_stop hhex, dropWhile_stop hhex]
        split_ifs <;> rfl

/-- the outer blanks hold no part of an entry -/
theorem findPcrs_strip (cs : List Char) : findPcrs (strip cs) = findPcrs cs := by
  obtain ⟨u, v, hcs, hu, hv⟩ := strip_split cs
  have hv' : findPcrs v = [] := by
    have := findPcrs_blanks hv []
    rwa [List.append_nil] at this
  calc findPcrs (strip cs)
      = findPcrs (strip cs) ++ findPcrs v := by rw [hv', List.append_nil]
    _ = findPcrs (u ++ (strip cs ++ v)) := by rw [findPcrs_blanks hu, findPcrs_append (apart_blanks hv _)]
    _ = findPcrs cs := by rw [← hcs]

/-! ## What `pcrs` makes of it -/

/-- the entry of an index that counts: the last one -/
def lastEntry (l : List (List Char × List Char)) (i : ℕ) : Option (List Char × List Char) :=
  (l.filter fun e => number e.1 = i).getLast?

/-- every index is read with a whole value that was printed for it, or the read is refused with `LookupError` -/
def WholeOrNone (indices : List ℕ) (lines : List PcrLine) : Except PcrsError (Dict ℕ (List Char)) → Prop
  | .ok found => ∀ i ∈ indices, ∃ l ∈ lines, l.pcr = i ∧ found.get? i = some (l.digits.map Char.toLower)
  | .error (.lookupError _ _) => True
  | .error _ => False

/-- the entries leave the lines readable: no number is too long for `int`, and some index has no entry at all or the last
entry of each is a printed value of its, whole -/
def Readable (indices : List ℕ) (lines : List PcrLine) (es : List (List Char × List Char)) : Prop :=
  (∀ e ∈ es, e.1.length ≤ maxIntDigits) ∧
    ((∃ i ∈ indices, lastEntry es i = none) ∨
      ∀ i ∈ indices, ∃ l ∈ lines, l.pcr = i ∧
        (lastEntry es i).map (fun e => e.2.map Char.toLower) = some (l.digits.map Char.toLower))

theorem get?_found (l : List (List Char × List Char)) (i : ℕ) :
    (Dict.ofPairs (l.map fun e => (number e.1, e.2.map Char.toLower))).get? i =
      (lastEntry l i).map fun e => e.2.map Char.toLower := by
  rw [Dict.get?_ofPairs, List.filter_map, List.getLast?_map, Option.map_map]
  rfl

theorem find?_tooLong {l : List (List Char × List Char)} (h : ∀ e ∈ l, e.1.length ≤ maxIntDigits) :
    l.find? (fun e => decide (maxIntDigits < e.1.length)) = none := by
  rw [List.find?_eq_none]
  intro e he
  simpa using h e he

theorem readPcrs_tooLong {out : List Char} (indices : List ℕ) (h : ∃ e ∈ findPcrs out, maxIntDigits < e.1.length) :
    ∃ n, readPcrs indices out = .error (.valueError n) := by
  obtain ⟨e, he⟩ := Option.isSome_iff_exists.1 (List.find?_isSome.2
    (by simpa using h : ∃ e ∈ findPcrs out, decide (maxIntDigits < e.1.length) = true))
  rw [readPcrs, he]
  exact ⟨_, rfl⟩

theorem readPcrs_missing {out : List Char} {indices : List ℕ} (hlen : ∀ e ∈ findPcrs out, e.1.length ≤ maxIntDigits)
    (h : ∃ i ∈ indices, lastEntry (findPcrs out) i = none) :
    ∃ missing, readPcrs indices out = .error (.lookupError missing out) := by
  obtain ⟨i, hi, hnone⟩ := h
  have hnot : i ∉ (Dict.ofPairs ((findPcrs out).map fun e => (number e.1, e.2.map Char.toLower))).keys := by
    rw [← Dict.get?_eq_none, get?_found, hnone]
    rfl
  have hmissing : (indices.filter fun i =>
      i ∉ (Dict.ofPairs ((findPcrs out).map fun e => (number e.1, e.2.map Char.toLower))).keys) ≠ [] :=
    List.ne_nil_of_mem (List.mem_filter.2 ⟨hi, by simpa using hnot⟩)
  rw [readPcrs, find?_tooLong hlen]
  exact ⟨_, if_pos hmissing⟩

theorem readPcrs_found {out : List Char} {indices : List ℕ} (hlen : ∀ e ∈ findPcrs out, e.1.length ≤ maxIntDigits)
    (h : ∀ i ∈ indices, lastEntry (findPcrs out) i ≠ none) : ∃ found, readPcrs indices out = .ok found ∧
      ∀ i ∈ indices, found.get? i = (lastEntry (findPcrs out) i).map fun e => e.2.map Char.toLower := by
  have hmissing : (indices.filter fun i =>
      i ∉ (Dict.ofPairs ((findPcrs out).map fun e => (number e.1, e.2.map Char.toLower))).keys) = [] := by
    rw [List.filter_eq_nil_iff]
    intro i hi
    have := h i hi
    rw [decide_eq_true_eq, not_not]
    by_contra hno
    rw [← Dict.get?_eq_none, get?_found, Option.map_eq_none_iff] at hno
    exact this hno
  rw [readPcrs, find?_tooLong hlen]
  simp only [hmissing, ne_eq, not_true_eq_false, if_false]
  refine ⟨_, rfl, fun i hi => ?_⟩
  rw [Dict.get?_ofKeys, if_pos hi, get?_found]
  cases hlast : lastEntry (findPcrs out) i with
  | none => exact absurd hlast (h i hi)
  | some e => rfl

/-- the lines are read whole or not at all exactly where the entries found leave them readable -/
theorem wholeOrNone_iff (indices : List ℕ) (lines : List PcrLine) (out : List Char) :
    WholeOrNone indices lines (readPcrs indices out) ↔ Readable indices lines (findPcrs out) := by
  rw [Readable]
  by_cases hlen : ∀ e ∈ findPcrs out, e.1.length ≤ maxIntDigits
  · by_cases hmissing : ∃ i ∈ indices, lastEntry (findPcrs out) i = none
    · obtain ⟨missing, hread⟩ := readPcrs_missing hlen hmissing
      rw [hread]
      exact iff_of_true trivial ⟨hlen, Or.inl hmissing⟩
    · have hall : ∀ i ∈ indices, lastEntry (findPcrs out) i ≠ none := fun i hi hnone => hmissing ⟨i, hi, hnone⟩
      obtain ⟨found, hread, hget⟩ := readPcrs_found hlen hall
      rw [hread]
      constructor
      · intro h
        refine ⟨hlen, Or.inr fun i hi => ?_⟩
        rw [← hget i hi]
        exact h i hi
      · rintro ⟨-, h⟩ i hi
        rw [hget i hi]
        exact h.resolve_left hmissing i hi
  · obtain ⟨n, hread⟩ := readPcrs_tooLong indices (by simpa using hlen)
    rw [hread]
    exact iff_of_false id fun h => hlen h.1

/-! ## A line without splices -/

/-- what the line prints, without the splices -/
def PcrLine.row (l : PcrLine) : List Char × List Char := (l.index.map Prod.fst, l.digits)

/-- a line with nothing spliced into it -/
def PcrLine.Intact (l : PcrLine) : Prop :=
  (∀ d ∈ l.index, d.2 = []) ∧ l.markWhole = true ∧ ∀ d ∈ l.value, d.2 = []

theorem indexLeft_intact {ds : List (Char × List Spliced)} (h : ∀ d ∈ ds, d.2 = []) (acc : List Char) :
    indexLeft acc ds = acc ++ ds.map Prod.fst := by
  induction ds generalizing acc with
  | nil => exact (List.append_nil acc).symm
  | cons d ds ih =>
    have hd : d = (d.1, []) := Prod.ext rfl (h d List.mem_cons_self)
    rw [hd, indexLeft]
    exact (ih (fun e he => h e (List.mem_cons_of_mem d he)) _).trans (List.append_assoc acc [d.1] _)

theorem firstRun_intact {ds : List (Char × List Spliced)} (h : ∀ d ∈ ds, d.2 = []) : firstRun ds = ds.map Prod.fst := by
  induction ds with
  | nil => rfl
  | cons d ds ih =>
    have hd : d = (d.1, []) := Prod.ext rfl (h d List.mem_cons_self)
    rw [hd, firstRun, if_pos rfl, ih fun e he => h e (List.mem_cons_of_mem d he)]
    rfl

theorem PcrLine.spelled_intact {l : PcrLine} (h : l.Intact) : l.spelled = [l.row] := by
  obtain ⟨hindex, hmark, hvalue⟩ := h
  have hleft : l.left = l.index.map Prod.fst := indexLeft_intact hindex []
  have hne : l.left.isEmpty = false := by
    rw [hleft, List.isEmpty_map]
    exact List.isEmpty_eq_false_iff.2 l.index_ne
  rw [spelled, hmark, hne, hleft, firstRun_intact hvalue]
  rfl

/-- every hypervisor line in it stands before it -/
theorem PcrLine.tail_intact {l : PcrLine} (h : l.Intact) : l.colon = [] ∧ ∀ d ∈ l.tail, d.2 = [] := by
  obtain ⟨-, hmark, hvalue⟩ := h
  simp only [markWhole, Bool.and_eq_true, List.isEmpty_iff] at hmark
  obtain ⟨⟨⟨hcolon, hspace⟩, hzero⟩, hex⟩ := hmark
  refine ⟨hcolon, fun d hd => ?_⟩
  simp only [tail, List.mem_cons, List.mem_append, List.not_mem_nil, or_false] at hd
  rcases hd with rfl | rfl | rfl | hd | rfl
  · exact hspace
  · exact hzero
  · exact hex
  · exact hvalue d hd
  · rfl

end DrtmTest.PcrReads
