/-
The TPM's banks off the console (`pcr_banks` of `drtmtest/console.py`), with the hypervisor's lines among them.

`tpm2_getcap pcrs` prints a heading and a line for each bank the TPM knows: a dash, the name and, in brackets, the PCRs it
has there, none for a bank that is not allocated. Hypervisor lines land behind any character.

- `bankAt_split`: ahead of the bracket of a match stand one dash, a name, a colon and blanks.
- `findBanks_spliced`: what a splice leaves of a line opens no match.
- `findBanks_listing`: the entries of a listing are those of the lines no splice tore ahead of the bracket.
- `bank_listing_read`: so `pcr_banks` returns, in the TPM's order, the banks of these whose brackets are not blank.
-/
import DrtmTest.GuestDumps
import DrtmTest.PcrReads

namespace DrtmTest.BankListing

open DrtmTest.Text DrtmTest.Decimal DrtmTest.QemuVm DrtmTest.Console DrtmTest.ConsoleRun DrtmTest.PcrReads
open DrtmTest.GuestDumps (Shown)

/-! ## `pcr_banks` -/

/-- `\w` -/
structure WordClass where
  isWord : Char → Bool
  not_space : ∀ c, isWord c = true → isSpace c = false
  ascii : ∀ c : Char, c.toNat < 128 → isWord c = (c.isAlphanum || c == '_')

/-- one character at the head -/
def literal (c : Char) : List Char → Option (List Char)
  | d :: cs => if d = c then some cs else none
  | [] => none

section

variable (W : WordClass)

/-- `[^\]]` -/
def inBrackets (c : Char) : Bool := c ≠ ']'

/-- `_BANK_RE` at a line's start: the name, what stands in the brackets, and the text behind them -/
def bankAt (cs : List Char) : Option ((List Char × List Char) × List Char) := do
  let rest ← literal '-' (cs.dropWhile isSpace)
  let name := (rest.dropWhile isSpace).takeWhile W.isWord
  let rest ← literal ':' (((rest.dropWhile isSpace).dropWhile W.isWord).dropWhile isSpace)
  let rest ← literal '[' (rest.dropWhile isSpace)
  let after ← literal ']' (rest.dropWhile inBrackets)
  if name = [] then none else some ((name, rest.takeWhile inBrackets), after)

/-- `_BANK_RE.findall`: the flag is set at a line's start, and `skip` characters are still part of a match -/
def findBanksFrom : Bool → ℕ → List Char → List (List Char × List Char)
  | _, _, [] => []
  | _, skip + 1, c :: cs => findBanksFrom (c = '\n') skip cs
  | start, 0, c :: cs =>
    match if start then bankAt W (c :: cs) else none with
    | some (entry, rest) => entry :: findBanksFrom (c = '\n') (cs.length - rest.length) cs
    | none => findBanksFrom (c = '\n') 0 cs

def findBanks (out : List Char) : List (List Char × List Char) := findBanksFrom W true 0 out

inductive BanksError where
  /-- what the wait for the prompt raised -/
  | expect (e : ExpectError)
  | lookupError (out : List Char)

/-- the banks from what `tpm2_getcap` printed -/
def readBanks (out : List Char) : Except BanksError (List (List Char)) :=
  let banks := ((findBanks W out).filter fun e => strip e.2 ≠ []).map Prod.fst
  if banks = [] then .error (.lookupError out) else .ok banks

def getcap : String := "tpm2_getcap pcrs"

/-- `pcr_banks`, `none` while its wait has no end -/
def pcrBanks (commandTimeout : Time) (vm : Vm) (s : Shown) : Vm × Option (Except BanksError (List (List Char))) :=
  match run commandTimeout vm (s.command getcap) with
  | (vm, .printed out) => (vm, some (readBanks W out))
  | (vm, .raised e) => (vm, some (.error (.expect e)))
  | (vm, .waiting _) => (vm, none)

end

variable {W : WordClass}

/-! ## A match -/

theorem literal_eq_some {c : Char} {cs rest : List Char} : literal c cs = some rest ↔ cs = c :: rest := by
  cases cs with
  | nil => exact iff_of_false (fun h => by cases h) (fun h => by cases h)
  | cons d cs =>
    rw [literal, List.cons.injEq]
    split_ifs with h
    · rw [Option.some.injEq]
      exact ⟨fun h' => ⟨h, h'⟩, fun h' => h'.2⟩
    · exact iff_of_false (fun h' => by cases h') fun h' => h h'.1

theorem inBrackets_iff {c : Char} : inBrackets c = true ↔ c ≠ ']' := decide_eq_true_iff

theorem WordClass.not_word {c : Char} (hc : c ∈ ['-', '(', '[', ':', '\n', ' ']) : W.isWord c = false := by
  simp only [List.mem_cons, List.not_mem_nil, or_false] at hc
  rcases hc with rfl | rfl | rfl | rfl | rfl | rfl <;> exact (W.ascii _ (by decide)).trans (by decide)

/-- what a match takes, up to its bracket and from there on -/
theorem bankAt_split {cs : List Char} {e : List Char × List Char} {rest : List Char} (h : bankAt W cs = some (e, rest)) :
    ∃ front, cs = front ++ '[' :: (e.2 ++ ']' :: rest) ∧ '(' ∉ front ∧ '[' ∉ front ∧ front.count '-' = 1 := by
  simp only [bankAt, Option.bind_eq_bind, Option.bind_eq_some_iff, literal_eq_some] at h
  obtain ⟨a, ha, b, hb, c, hc, d, hd, h⟩ := h
  split_ifs at h with hname
  cases h
  have hinside : c = c.takeWhile inBrackets ++ ']' :: rest := by rw [← hd, List.takeWhile_append_dropWhile]
  have hspace : b = b.takeWhile isSpace ++ '[' :: c := by rw [← hc, List.takeWhile_append_dropWhile]
  have hword : a.dropWhile isSpace = (a.dropWhile isSpace).takeWhile W.isWord ++
      (((a.dropWhile isSpace).dropWhile W.isWord).takeWhile isSpace ++ ':' :: b) := by
    rw [← hb, List.takeWhile_append_dropWhile, List.takeWhile_append_dropWhile]
  have hgap : a = a.takeWhile isSpace ++ a.dropWhile isSpace := List.takeWhile_append_dropWhile.symm
  have hlead : cs = cs.takeWhile isSpace ++ '-' :: a := by rw [← ha, List.takeWhile_append_dropWhile]
  have hblank : ∀ {l : List Char} {c : Char}, isSpace c = false → c ∉ l.takeWhile isSpace := by
    intro l c hc hmem
    have hspace : isSpace c = true := List.mem_takeWhile_imp hmem
    rw [hc] at hspace
    cases hspace
  have hword' : ∀ {l : List Char} {c : Char}, W.isWord c = false → c ∉ l.takeWhile W.isWord := by
    intro l c hc hmem
    have hisword : W.isWord c = true := List.mem_takeWhile_imp hmem
    rw [hc] at hisword
    cases hisword
  refine ⟨cs.takeWhile isSpace ++ '-' :: (a.takeWhile isSpace ++ ((a.dropWhile isSpace).takeWhile W.isWord ++
    (((a.dropWhile isSpace).dropWhile W.isWord).takeWhile isSpace ++ ':' :: b.takeWhile isSpace))), ?_, ?_, ?_, ?_⟩
  · simp only [List.append_assoc, List.cons_append]
    rw [← hinside, ← hspace, ← hword, ← hgap, ← hlead]
  · simp [hblank (show isSpace '(' = false by decide), hword' (W.not_word (c := '(') (by decide))]
  · simp [hblank (show isSpace '[' = false by decide), hword' (W.not_word (c := '[') (by decide))]
  · simp [hblank (show isSpace '-' = false by decide), hword' (W.not_word (c := '-') (by decide)),
      List.count_eq_zero_of_not_mem]

/-- what stands ahead of the first bracket is ahead of the match's -/
theorem bankAt_ahead {p more : List Char} (hp : '[' ∉ p) {e : List Char × List Char} {rest : List Char}
    (h : bankAt W (p ++ more) = some (e, rest)) : '(' ∉ p ∧ p.count '-' ≤ 1 := by
  obtain ⟨front, hfront, hparen, -, hdash⟩ := bankAt_split h
  have hle : p.length ≤ front.length := by
    by_contra hlt
    have hmem : front ++ ['['] <+: p := by
      have hfull : front ++ ['['] <+: p ++ more := by
        rw [hfront]
        exact ⟨e.2 ++ ']' :: rest, by simp⟩
      exact List.prefix_of_prefix_length_le hfull (List.prefix_append p more) (by simp; omega)
    exact hp (hmem.subset (by simp))
  have hahead : p <+: front :=
    List.prefix_of_prefix_length_le (List.prefix_append p more) (hfront ▸ List.prefix_append _ _) hle
  exact ⟨fun hmem => hparen (hahead.subset hmem), hdash ▸ hahead.sublist.count_le '-'⟩

/-- a match begins with a dash, behind blanks -/
theorem bankAt_other {c : Char} {cs : List Char} (hblank : isSpace c = false) (hdash : c ≠ '-') :
    bankAt W (c :: cs) = none := by
  rw [bankAt, List.dropWhile_cons_of_neg (by rw [hblank]; exact Bool.false_ne_true), literal, if_neg hdash]
  rfl

/-- a hypervisor line ahead of the bracket -/
theorem bankAt_torn {p : List Char} (hp : '[' ∉ p) (more : List Char) : bankAt W (p ++ '(' :: more) = none := by
  rw [Option.eq_none_iff_forall_ne_some]
  rintro ⟨e, rest⟩ h
  have hmem : '[' ∉ p ++ ['('] := by simp [hp]
  have hcut : p ++ '(' :: more = (p ++ ['(']) ++ more := by simp
  rw [hcut] at h
  exact (bankAt_ahead hmem h).1 (by simp)

/-- two dashes ahead of the bracket -/
theorem bankAt_dashes {p : List Char} (hp : '[' ∉ p) (hdash : 1 < p.count '-') (more : List Char) :
    bankAt W (p ++ more) = none := by
  rw [Option.eq_none_iff_forall_ne_some]
  rintro ⟨e, rest⟩ h
  exact absurd (bankAt_ahead hp h).2 (Nat.not_le.2 hdash)

/-- no bracket at all -/
theorem bankAt_open {cs : List Char} (h : '[' ∉ cs) : bankAt W cs = none := by
  rw [Option.eq_none_iff_forall_ne_some]
  rintro ⟨e, rest⟩ hat
  obtain ⟨front, hfront, -⟩ := bankAt_split hat
  exact h (by rw [hfront]; simp)

theorem bankAt_blank {c : Char} (hc : isSpace c = true) (cs : List Char) : bankAt W (c :: cs) = bankAt W cs := by
  rw [bankAt, List.dropWhile_cons_of_pos hc]
  rfl

/-! ## The search -/

theorem findBanksFrom_past (s : Bool) (a : List Char) (c : Char) (k : ℕ) (b : List Char) :
    findBanksFrom W s (a.length + 1 + k) (a ++ c :: b) = findBanksFrom W (c = '\n') k b := by
  induction a generalizing s with
  | nil =>
    rw [List.length_nil, Nat.zero_add, Nat.add_comm, List.nil_append]
    rfl
  | cons d a ih =>
    rw [List.length_cons, show a.length + 1 + 1 + k = (a.length + 1 + k) + 1 by omega, List.cons_append]
    exact ih _

theorem findBanksFrom_none {s : Bool} {c : Char} {cs : List Char} (h : s = true → bankAt W (c :: cs) = none) :
    findBanksFrom W s 0 (c :: cs) = findBanksFrom W (c = '\n') 0 cs := by
  have hnone : (if s then bankAt W (c :: cs) else none) = none := by
    cases s with
    | false => rfl
    | true => exact h rfl
  rw [findBanksFrom, hnone]

theorem findBanksFrom_mid (c : Char) (cs : List Char) :
    findBanksFrom W false 0 (c :: cs) = findBanksFrom W (c = '\n') 0 cs := rfl

/-- an entry, and what is found behind its bracket -/
theorem findBanks_found {cs : List Char} {e : List Char × List Char} {rest : List Char}
    (h : bankAt W cs = some (e, rest)) : findBanks W cs = e :: findBanksFrom W false 0 rest := by
  obtain ⟨front, hfront, -⟩ := bankAt_split h
  cases cs with
  | nil => cases h
  | cons c cs =>
    obtain ⟨a, ha⟩ : ∃ a, cs = a ++ ']' :: rest := by
      cases front with
      | nil => exact ⟨e.2, (List.cons.inj hfront).2⟩
      | cons d front => exact ⟨front ++ '[' :: e.2, by rw [(List.cons.inj hfront).2]; simp⟩
    have hskip : cs.length - rest.length = a.length + 1 + 0 := by rw [ha]; simp; omega
    have hstart : (if true then bankAt W (c :: cs) else none) = some (e, rest) := h
    rw [findBanks, findBanksFrom, hstart]
    simp only
    rw [hskip, ha, findBanksFrom_past]
    rfl

/-- blanks at a line's start are part of what follows them, line ends among them -/
theorem findBanks_blank {c : Char} (hc : isSpace c = true) (cs : List Char) : findBanks W (c :: cs) = findBanks W cs := by
  cases h : bankAt W cs with
  | some m => rw [findBanks_found h, findBanks_found ((bankAt_blank hc cs).trans h)]
  | none =>
    rw [findBanks, findBanksFrom_none fun _ => (bankAt_blank hc cs).trans h]
    by_cases hline : c = '\n'
    · rw [decide_eq_true hline]
      rfl
    · cases cs with
      | nil => rfl
      | cons d cs => rw [decide_eq_false hline, findBanks, findBanksFrom_mid, findBanksFrom_none fun _ => h]

theorem findBanks_blanks {w : List Char} (hw : ∀ c ∈ w, isSpace c = true) (cs : List Char) :
    findBanks W (w ++ cs) = findBanks W cs := by
  induction w with
  | nil => rfl
  | cons c w ih =>
    rw [List.cons_append, findBanks_blank (hw c List.mem_cons_self), ih fun d hd => hw d (List.mem_cons_of_mem c hd)]

/-- inside a line there is no match before the next -/
theorem findBanksFrom_inside {line : List Char} (hline : '\n' ∉ line) {k : ℕ} (hk : k ≤ line.length) (b : List Char) :
    findBanksFrom W false k (line ++ '\n' :: b) = findBanks W b := by
  induction line generalizing k with
  | nil =>
    rw [Nat.le_zero.1 hk, List.nil_append, findBanksFrom_mid]
    rfl
  | cons c line ih =>
    rw [List.mem_cons, not_or] at hline
    have hc : decide (c = '\n') = false := decide_eq_false fun h => hline.1 h.symm
    cases k with
    | zero =>
      rw [List.cons_append, findBanksFrom_mid, hc]
      exact ih hline.2 (Nat.zero_le _)
    | succ k =>
      have hstep : findBanksFrom W false (k + 1) (c :: line ++ '\n' :: b) =
          findBanksFrom W (decide (c = '\n')) k (line ++ '\n' :: b) := rfl
      rw [hstep, hc]
      exact ih hline.2 (Nat.le_of_succ_le_succ hk)

/-! ## What the hypervisor writes in between -/

/-- from anywhere in a hypervisor line -/
theorem findBanksFrom_line (x : Spliced) (s : Bool) {k : ℕ} (hk : k < x.chars.length) (b : List Char) :
    findBanksFrom W s k (x.chars ++ b) = findBanks W b := by
  obtain ⟨line, hline, hchars⟩ : ∃ line, '\n' ∉ line ∧ x.chars = '(' :: (line ++ ['\n']) :=
    ⟨"XEN)".toList ++ x.text, by simp [x.oneLine], rfl⟩
  have hb : x.chars ++ b = '(' :: (line ++ '\n' :: b) := by rw [hchars]; simp
  have hparen : decide ('(' = '\n') = false := rfl
  rw [hb]
  cases k with
  | zero =>
    rw [findBanksFrom_none fun _ => bankAt_other (by decide) (by decide), hparen]
    exact findBanksFrom_inside hline (Nat.zero_le _) b
  | succ k =>
    rw [hchars] at hk
    have hstep : findBanksFrom W s (k + 1) ('(' :: (line ++ '\n' :: b)) =
        findBanksFrom W (decide ('(' = '\n')) k (line ++ '\n' :: b) := rfl
    rw [hstep, hparen]
    exact findBanksFrom_inside hline (by simp at hk; omega) b

/-- hypervisor lines hide nothing behind them -/
theorem findBanksFrom_gap {t : List Char} {n : ℕ} {found : List (List Char × List Char)}
    (h : ∀ s k, k ≤ n → findBanksFrom W s k t = found) (g : List Spliced) (s : Bool) {k : ℕ}
    (hk : k ≤ (gapChars g).length + n) : findBanksFrom W s k (gapChars g ++ t) = found := by
  induction g generalizing s k with
  | nil => exact h s k (by simpa [gapChars] using hk)
  | cons x g ih =>
    rw [gapChars_cons, List.length_append] at hk
    rw [gapChars_cons, List.append_assoc]
    by_cases hin : k < x.chars.length
    · rw [findBanksFrom_line x s hin]
      exact ih true (Nat.zero_le _)
    · obtain ⟨a, ha⟩ : ∃ a, x.chars = a ++ ['\n'] := ⟨xenTag ++ x.text, rfl⟩
      have hlen : x.chars.length = a.length + 1 := by rw [ha, List.length_append, List.length_singleton]
      obtain ⟨j, rfl⟩ := Nat.exists_eq_add_of_le (Nat.not_lt.1 hin)
      rw [hlen, ha, List.append_assoc, List.singleton_append, findBanksFrom_past]
      exact ih _ (by omega)

theorem findBanks_gapChars (g : List Spliced) (t : List Char) : findBanks W (gapChars g ++ t) = findBanks W t := by
  induction g with
  | nil => rfl
  | cons x g ih =>
    rw [gapChars_cons, List.append_assoc, findBanks, findBanksFrom_line x true (by simp [Spliced.chars])]
    exact ih

/-- **No match opens in what splices leave of a line**, from wherever it is looked at, where none opens at its dashes. -/
theorem findBanks_spliced {l : List (Char × List Spliced)} {b : List Char}
    (hl : ∀ d t, d :: t <:+ l → d.1 = '-' → bankAt W (weave (d :: t) ++ '\n' :: b) = none) (s : Bool) {k : ℕ}
    (hk : k ≤ (weave l).length) : findBanksFrom W s k (weave l ++ '\n' :: b) = findBanks W b := by
  induction l generalizing s k with
  | nil =>
    obtain rfl : k = 0 := Nat.le_zero.1 hk
    cases s with
    | false => rfl
    | true => exact findBanks_blank (by decide) b
  | cons d l ih =>
    have hat := hl d l (List.suffix_refl _)
    obtain ⟨c, g⟩ := d
    have hrest : ∀ s k, k ≤ (weave l).length → findBanksFrom W s k (weave l ++ '\n' :: b) = findBanks W b :=
      fun s k hk => ih (fun d t hd => hl d t (hd.trans (List.suffix_cons _ l))) s hk
    rw [weave_cons, List.cons_append, List.append_assoc] at hat
    rw [weave_cons, List.length_cons, List.length_append] at hk
    rw [weave_cons, List.cons_append, List.append_assoc]
    cases k with
    | succ k => exact findBanksFrom_gap hrest g _ (by omega)
    | zero =>
      cases s with
      | false =>
        rw [findBanksFrom_mid]
        exact findBanksFrom_gap hrest g _ (Nat.zero_le _)
      | true =>
        by_cases hblank : isSpace c = true
        · exact (findBanks_blank hblank _).trans (findBanksFrom_gap hrest g true (Nat.zero_le _))
        · have hnone : bankAt W (c :: (gapChars g ++ (weave l ++ '\n' :: b))) = none := by
            by_cases hdash : c = '-'
            · exact hat hdash
            · exact bankAt_other (Bool.eq_false_iff.2 hblank) hdash
          rw [findBanksFrom_none fun _ => hnone]
          exact findBanksFrom_gap hrest g _ (Nat.zero_le _)

/-- a splice is a parenthesis behind a part of the text -/
theorem weave_torn {l : List (Char × List Spliced)} (h : ∃ d ∈ l, d.2 ≠ []) :
    ∃ p more, weave l = p ++ '(' :: more ∧ p <+: l.map Prod.fst := by
  induction l with
  | nil => obtain ⟨_, hd, -⟩ := h; cases hd
  | cons d l ih =>
    obtain ⟨c, g⟩ := d
    rw [weave_cons, List.map_cons]
    cases g with
    | nil =>
      obtain ⟨e, he, hne⟩ := h
      rcases List.mem_cons.1 he with rfl | he
      · exact absurd rfl hne
      · obtain ⟨p, more, hw, hp⟩ := ih ⟨e, he, hne⟩
        exact ⟨c :: p, more, by rw [hw]; rfl, List.cons_prefix_cons.2 ⟨rfl, hp⟩⟩
    | cons x g =>
      obtain ⟨cs, hcs⟩ := x.chars_head
      exact ⟨[c], cs ++ gapChars g ++ weave l, by rw [gapChars_cons, hcs]; simp, by simp⟩

theorem weave_whole {l : List (Char × List Spliced)} (h : ∀ d ∈ l, d.2 = []) : weave l = l.map Prod.fst := by
  induction l with
  | nil => rfl
  | cons d l ih =>
    obtain ⟨c, g⟩ := d
    have hg : g = [] := h (c, g) List.mem_cons_self
    rw [weave_cons, hg, ih fun e he => h e (List.mem_cons_of_mem _ he)]
    rfl

/-! ## A listing -/

/-- a line of the listing, each character with the hypervisor lines behind it -/
structure BankLine (W : WordClass) where
  /-- the blanks ahead of the dash -/
  lead : List (Char × List Spliced)
  /-- from the dash up to the bracket -/
  stem : List (Char × List Spliced)
  opening : List Spliced
  inside : List (Char × List Spliced)
  closing : List Spliced
  /-- behind the line -/
  ending : List Spliced
  gap : List Char
  name : List Char
  space : List Char
  spelled : stem.map Prod.fst = '-' :: (gap ++ (name ++ ':' :: space))
  blank_lead : ∀ d ∈ lead, isSpace d.1 = true
  blank_gap : ∀ c ∈ gap, isSpace c = true
  blank_space : ∀ c ∈ space, isSpace c = true
  name_ne : name ≠ []
  name_word : ∀ c ∈ name, W.isWord c = true
  inside_open : ∀ d ∈ inside, d.1 ≠ ']' ∧ d.1 ≠ '-'

namespace BankLine

variable (l : BankLine W)

/-- what is behind the bracket -/
def behind : List (Char × List Spliced) := l.inside ++ [(']', l.closing)]

/-- the line up to its end -/
def text : List (Char × List Spliced) := l.lead ++ (l.stem ++ ('[', l.opening) :: l.behind)

def chars : List Char := weave l.text ++ '\n' :: gapChars l.ending

/-- the TPM has PCRs in the bank -/
def allocated : Bool := l.inside.any fun d => !isSpace d.1

/-- no hypervisor line tears what is ahead of the bracket -/
def whole : Bool := l.stem.all fun d => d.2.isEmpty

/-- a hypervisor line landed inside the brackets -/
def splicedInside : Bool := !l.opening.isEmpty || l.inside.any fun d => !d.2.isEmpty

/-- the line is read as one of a bank with PCRs -/
def kept : Bool := l.whole && (l.allocated || l.splicedInside)

/-- what a match has inside the brackets -/
def content : List Char := (gapChars l.opening ++ weave l.behind).takeWhile inBrackets

end BankLine

theorem weave_append (a b : List (Char × List Spliced)) : weave (a ++ b) = weave a ++ weave b := List.flatMap_append

/-- a text with one dash has one suffix that begins with it -/
theorem dash_unique {a b : List (Char × List Spliced)} {e : Char × List Spliced} (ha : ∀ d ∈ a, d.1 ≠ '-')
    (hb : ∀ d ∈ b, d.1 ≠ '-') {d : Char × List Spliced} {t : List (Char × List Spliced)} (h : d :: t <:+ a ++ e :: b)
    (hd : d.1 = '-') : d :: t = e :: b := by
  obtain ⟨u, hu⟩ := h
  rcases List.append_eq_append_iff.1 hu with ⟨v, rfl, hv⟩ | ⟨v, rfl, hv⟩
  · cases v with
    | nil => exact hv
    | cons x v =>
      rw [List.cons_append, List.cons.injEq] at hv
      exact absurd (hv.1 ▸ hd) (ha x (by simp))
  · cases v with
    | nil => exact hv.symm
    | cons x v =>
      rw [List.cons_append, List.cons.injEq] at hv
      exact absurd hd (hb d (by rw [hv.2]; simp))

/-- blanks ahead of a text, whatever lands among them -/
theorem findBanks_lead {l : List (Char × List Spliced)} (hl : ∀ d ∈ l, isSpace d.1 = true) (t : List Char) :
    findBanks W (weave l ++ t) = findBanks W t := by
  induction l with
  | nil => rfl
  | cons d l ih =>
    obtain ⟨c, g⟩ := d
    rw [weave_cons, List.cons_append, List.append_assoc, findBanks_blank (hl (c, g) List.mem_cons_self), findBanks_gapChars]
    exact ih fun e he => hl e (List.mem_cons_of_mem _ he)

theorem strip_ne_nil {cs : List Char} : strip cs ≠ [] ↔ ∃ c ∈ cs, isSpace c = false := by
  have hdrop : strip cs = [] ↔ cs.dropWhile isSpace = [] := by
    constructor
    · intro h
      rw [strip, List.reverse_eq_nil_iff, List.dropWhile_eq_nil_iff] at h
      rw [List.dropWhile_eq_nil_iff]
      by_contra hno
      have hhead := List.head_dropWhile_not isSpace (l := cs) (by rwa [ne_eq, List.dropWhile_eq_nil_iff])
      rw [h _ (List.mem_reverse.2 (List.head_mem _))] at hhead
      cases hhead
    · intro h
      rw [strip, h]
      rfl
  rw [ne_eq, hdrop, List.dropWhile_eq_nil_iff]
  simp

namespace BankLine

variable (l : BankLine W)

theorem stem_cons : ∃ g t, l.stem = ('-', g) :: t ∧ (∀ d ∈ t, d.1 ≠ '-') ∧ t.map Prod.fst = l.gap ++ (l.name ++ ':' :: l.space) := by
  obtain ⟨d, t, hstem, hd, ht⟩ := List.map_eq_cons_iff.1 l.spelled
  obtain ⟨c, g⟩ := d
  obtain rfl : c = '-' := hd
  refine ⟨g, t, hstem, fun d hdmem hdash => ?_, ht⟩
  have hmem : '-' ∈ l.gap ++ (l.name ++ ':' :: l.space) := by
    rw [← ht, ← hdash]
    exact List.mem_map_of_mem hdmem
  have hspace : isSpace '-' = false := by decide
  have hword : W.isWord '-' = false := W.not_word (by decide)
  simp only [List.mem_append, List.mem_cons] at hmem
  rcases hmem with h | h | h | h
  · exact absurd (l.blank_gap _ h) (by rw [hspace]; exact Bool.false_ne_true)
  · exact absurd (l.name_word _ h) (by rw [hword]; exact Bool.false_ne_true)
  · exact absurd h (by decide)
  · exact absurd (l.blank_space _ h) (by rw [hspace]; exact Bool.false_ne_true)

theorem bracket_not_mem : '[' ∉ l.stem.map Prod.fst := by
  have hspace : isSpace '[' = false := by decide
  have hword : W.isWord '[' = false := W.not_word (by decide)
  rw [l.spelled]
  simp only [List.mem_append, List.mem_cons, not_or]
  refine ⟨by decide, fun h => ?_, fun h => ?_, by decide, fun h => ?_⟩
  · exact absurd (l.blank_gap _ h) (by rw [hspace]; exact Bool.false_ne_true)
  · exact absurd (l.name_word _ h) (by rw [hword]; exact Bool.false_ne_true)
  · exact absurd (l.blank_space _ h) (by rw [hspace]; exact Bool.false_ne_true)

theorem behind_no_dash : ∀ d ∈ l.behind, d.1 ≠ '-' := by
  intro d hd
  rcases List.mem_append.1 hd with hd | hd
  · exact (l.inside_open d hd).2
  · rw [List.mem_singleton.1 hd]
    exact (by decide : ']' ≠ '-')

theorem whole_iff : l.whole = true ↔ ∀ d ∈ l.stem, d.2 = [] := by
  rw [whole, List.all_eq_true]
  exact forall₂_congr fun d _ => List.isEmpty_iff

/-- what stands inside the brackets ends at one -/
theorem content_split : ∃ after, gapChars l.opening ++ weave l.behind = l.content ++ ']' :: after := by
  have hmem : ']' ∈ gapChars l.opening ++ weave l.behind := by
    rw [behind, weave_append]
    simp [weave]
  have hne : (gapChars l.opening ++ weave l.behind).dropWhile inBrackets ≠ [] := by
    rw [ne_eq, List.dropWhile_eq_nil_iff]
    intro h
    exact absurd (h ']' hmem) (by decide)
  obtain ⟨c, after, hc⟩ := List.exists_cons_of_ne_nil hne
  have hhead := List.head_dropWhile_not inBrackets (l := gapChars l.opening ++ weave l.behind) hne
  simp only [hc, List.head_cons] at hhead
  obtain rfl : c = ']' := by
    by_contra hno
    rw [inBrackets_iff.2 hno] at hhead
    cases hhead
  refine ⟨after, ?_⟩
  rw [← hc]
  exact List.takeWhile_append_dropWhile.symm

/-- they are blank where no PCR and no hypervisor line stands between them -/
theorem takeWhile_blank {inside : List (Char × List Spliced)} (hopen : ∀ d ∈ inside, d.1 ≠ ']') (g closing : List Spliced) :
    (∃ c ∈ (gapChars g ++ weave (inside ++ [(']', closing)])).takeWhile inBrackets, isSpace c = false) ↔
      g ≠ [] ∨ ∃ d ∈ inside, isSpace d.1 = false ∨ d.2 ≠ [] := by
  induction inside generalizing g with
  | nil =>
    cases g with
    | nil =>
      have hnone : (gapChars [] ++ weave ([] ++ [(']', closing)])).takeWhile inBrackets = [] := rfl
      rw [hnone]
      simp
    | cons x g =>
      obtain ⟨cs, hcs⟩ := x.chars_head
      refine iff_of_true ⟨'(', ?_, by decide⟩ (.inl (List.cons_ne_nil _ _))
      rw [gapChars_cons, hcs, List.cons_append, List.cons_append, List.takeWhile_cons_of_pos (by decide)]
      exact List.mem_cons_self
  | cons d inside ih =>
    cases g with
    | nil =>
      obtain ⟨c, g⟩ := d
      have hc : c ≠ ']' := hopen (c, g) List.mem_cons_self
      have hrest := ih (fun e he => hopen e (List.mem_cons_of_mem _ he)) g
      rw [List.cons_append, weave_cons]
      simp only [gapChars, List.flatMap_nil, List.nil_append]
      rw [List.takeWhile_cons_of_pos (inBrackets_iff.2 hc), List.exists_mem_cons_iff, ← gapChars, hrest]
      simp [or_assoc]
    | cons x g =>
      obtain ⟨cs, hcs⟩ := x.chars_head
      refine iff_of_true ⟨'(', ?_, by decide⟩ (.inl (List.cons_ne_nil _ _))
      rw [gapChars_cons, hcs, List.cons_append, List.cons_append, List.takeWhile_cons_of_pos (by decide)]
      exact List.mem_cons_self

theorem content_blank : strip l.content ≠ [] ↔ (l.allocated || l.splicedInside) = true := by
  rw [strip_ne_nil, content, behind, takeWhile_blank fun d hd => (l.inside_open d hd).1]
  simp only [allocated, splicedInside, Bool.or_eq_true, List.any_eq_true, Bool.not_eq_true', List.isEmpty_eq_false_iff]
  constructor
  · rintro (h | ⟨d, hd, h | h⟩)
    · exact .inr (.inl h)
    · exact .inl ⟨d, hd, h⟩
    · exact .inr (.inr ⟨d, hd, h⟩)
  · rintro (⟨d, hd, h⟩ | h | ⟨d, hd, h⟩)
    · exact .inr ⟨d, hd, .inl h⟩
    · exact .inl h
    · exact .inr ⟨d, hd, .inr h⟩

/-- a whole line matches -/
theorem bankAt_whole (h : l.whole = true) : ∃ after, gapChars l.opening ++ weave l.behind = l.content ++ ']' :: after ∧
    ∀ t, bankAt W (weave l.stem ++ '[' :: (l.content ++ ']' :: (after ++ t))) = some ((l.name, l.content), after ++ t) := by
  obtain ⟨after, hafter⟩ := l.content_split
  refine ⟨after, hafter, fun t => ?_⟩
  obtain ⟨z, name, hname⟩ := List.exists_cons_of_ne_nil l.name_ne
  have hz : isSpace z = false := W.not_space z (l.name_word z (hname ▸ List.mem_cons_self))
  have hcolon : W.isWord ':' = false := W.not_word (by decide)
  have hgap : (l.gap ++ (l.name ++ ':' :: (l.space ++ '[' :: (l.content ++ ']' :: (after ++ t))))).dropWhile isSpace =
      l.name ++ ':' :: (l.space ++ '[' :: (l.content ++ ']' :: (after ++ t))) := by
    rw [hname, List.cons_append, dropWhile_run l.blank_gap hz]
  have hend : ∀ c ∈ l.content, inBrackets c = true := fun c hc => List.mem_takeWhile_imp hc
  have hline : weave l.stem ++ '[' :: (l.content ++ ']' :: (after ++ t)) =
      '-' :: (l.gap ++ (l.name ++ ':' :: (l.space ++ '[' :: (l.content ++ ']' :: (after ++ t))))) := by
    rw [weave_whole (l.whole_iff.1 h), l.spelled]
    simp only [List.cons_append, List.append_assoc]
  rw [hline, bankAt, List.dropWhile_cons_of_neg (by decide), literal_eq_some.2 rfl]
  simp only [Option.bind_eq_bind, Option.bind_some]
  rw [hgap, takeWhile_run l.name_word hcolon, dropWhile_run l.name_word hcolon, List.dropWhile_cons_of_neg (by decide),
    literal_eq_some.2 rfl, Option.bind_some, dropWhile_run l.blank_space (by decide), literal_eq_some.2 rfl,
    Option.bind_some, dropWhile_run hend (by decide), takeWhile_run hend (by decide), literal_eq_some.2 rfl,
    Option.bind_some, if_neg l.name_ne]

theorem findBanks_behind (b : List Char) (s : Bool) {k : ℕ} (hk : k ≤ (gapChars l.opening).length + (weave l.behind).length) :
    findBanksFrom W s k (gapChars l.opening ++ (weave l.behind ++ '\n' :: (gapChars l.ending ++ b))) = findBanks W b := by
  refine findBanksFrom_gap (n := (weave l.behind).length) (fun s k hk => ?_) l.opening s hk
  rw [findBanks_spliced (fun d t hsuffix hd => absurd hd (l.behind_no_dash d (hsuffix.subset List.mem_cons_self))) s hk,
    findBanks_gapChars]

theorem chars_append (b : List Char) : l.chars ++ b = weave l.text ++ '\n' :: (gapChars l.ending ++ b) := by
  rw [chars, List.append_assoc, List.cons_append]

theorem findBanks_whole (h : l.whole = true) (b : List Char) :
    findBanks W (l.chars ++ b) = (l.name, l.content) :: findBanks W b := by
  obtain ⟨after, hafter, hat⟩ := l.bankAt_whole h
  have hinside : gapChars l.opening ++ (weave l.behind ++ '\n' :: (gapChars l.ending ++ b)) =
      l.content ++ ']' :: (after ++ '\n' :: (gapChars l.ending ++ b)) := by
    rw [← List.append_assoc, hafter]
    simp
  have hlength : l.content.length + 1 + 0 ≤ (gapChars l.opening).length + (weave l.behind).length := by
    rw [← List.length_append, hafter]
    simp
  have hpast := findBanksFrom_past (W := W) false l.content ']' 0 (after ++ '\n' :: (gapChars l.ending ++ b))
  have hfound : findBanks W (l.chars ++ b) =
      (l.name, l.content) :: findBanksFrom W false 0 (after ++ '\n' :: (gapChars l.ending ++ b)) := by
    rw [chars_append, text, weave_append, List.append_assoc, findBanks_lead l.blank_lead, weave_append, weave_cons,
      List.append_assoc, List.cons_append, List.append_assoc, hinside, findBanks_found (hat _)]
  rw [hfound, ← l.findBanks_behind b false hlength, hinside, hpast]
  rfl

theorem findBanks_torn (h : l.whole = false) (b : List Char) : findBanks W (l.chars ++ b) = findBanks W b := by
  obtain ⟨g, t, hstem, hdash, ht⟩ := l.stem_cons
  have hsplice : ∃ d ∈ l.stem, d.2 ≠ [] := by
    by_contra hno
    have hwhole := l.whole_iff.2 fun d hd => by_contra fun hne => hno ⟨d, hd, hne⟩
    rw [hwhole] at h
    cases h
  obtain ⟨p, more, hp, hpre⟩ := weave_torn hsplice
  have hopen : '[' ∉ p := fun hmem => l.bracket_not_mem (hpre.subset hmem)
  have hlead : ∀ d ∈ l.lead, d.1 ≠ '-' := by
    intro d hd heq
    have hspace := l.blank_lead d hd
    rw [heq] at hspace
    exact absurd hspace (by decide)
  have hrest : ∀ d ∈ t ++ ('[', l.opening) :: l.behind, d.1 ≠ '-' := by
    intro d hd
    rcases List.mem_append.1 hd with hd | hd
    · exact hdash d hd
    · rcases List.mem_cons.1 hd with rfl | hd
      · exact (by decide : '[' ≠ '-')
      · exact l.behind_no_dash d hd
  have htext : l.text = l.lead ++ ('-', g) :: (t ++ ('[', l.opening) :: l.behind) := by rw [text, hstem]; rfl
  have hfrom : ('-', g) :: (t ++ ('[', l.opening) :: l.behind) = l.stem ++ ('[', l.opening) :: l.behind := by rw [hstem]; rfl
  rw [chars_append, findBanks, findBanks_spliced (fun d u hsuffix hd => ?_) true (Nat.zero_le _), findBanks_gapChars]
  rw [htext] at hsuffix
  rw [dash_unique hlead hrest hsuffix hd, hfrom, weave_append, hp, List.append_assoc, List.append_assoc, List.cons_append]
  exact bankAt_torn hopen _

end BankLine

/-- the entries of lines one behind the other -/
theorem findBanks_lines (lines : List (BankLine W)) : findBanks W (lines.flatMap BankLine.chars) =
    (lines.filter BankLine.whole).map fun l => (l.name, l.content) := by
  induction lines with
  | nil => rfl
  | cons l lines ih =>
    rw [List.flatMap_cons]
    cases h : l.whole with
    | true => rw [l.findBanks_whole h, ih, List.filter_cons_of_pos h, List.map_cons]
    | false => rw [l.findBanks_torn h, ih, List.filter_cons_of_neg (by rw [h]; exact Bool.false_ne_true)]

/-- what is printed for `tpm2_getcap pcrs`, each character with the hypervisor lines behind it -/
structure Listing (W : WordClass) where
  first : List Spliced
  heading : List (Char × List Spliced)
  spelled : heading.map Prod.fst = "selected-pcrs:".toList
  ending : List Spliced
  lines : List (BankLine W)

def Listing.rows (L : Listing W) : List Char := gapChars L.ending ++ L.lines.flatMap BankLine.chars

def Listing.chars (L : Listing W) : List Char := gapChars L.first ++ (weave L.heading ++ '\n' :: L.rows)

/-- ahead of any bracket there is a dash or a hypervisor line, or there is no bracket -/
def Ahead (t : List Char) : Prop := '[' ∉ t ∨ ∃ p c more, t = p ++ c :: more ∧ '[' ∉ p ∧ (c = '(' ∨ c = '-')

theorem Ahead.none {q t : List Char} (hq : '[' ∉ q) (hdash : '-' ∈ q) (h : Ahead t) : bankAt W (q ++ t) = none := by
  rcases h with hopen | ⟨p, c, more, rfl, hp, hc⟩
  · exact bankAt_open (by simp [hq, hopen])
  · have hqp : '[' ∉ q ++ p := by simp [hq, hp]
    rw [← List.append_assoc]
    rcases hc with rfl | rfl
    · exact bankAt_torn hqp more
    · have hcut : (q ++ p) ++ '-' :: more = (q ++ p ++ ['-']) ++ more := by simp
      have hcount : 0 < q.count '-' := List.count_pos_iff.2 hdash
      rw [hcut]
      refine bankAt_dashes (by simp [hq, hp]) ?_ more
      rw [List.count_append, List.count_append, List.count_singleton_self]
      omega

theorem Ahead.gap (g : List Spliced) {t : List Char} (h : Ahead t) : Ahead (gapChars g ++ t) := by
  cases g with
  | nil => exact h
  | cons x g =>
    obtain ⟨cs, hcs⟩ := x.chars_head
    exact .inr ⟨[], '(', cs ++ gapChars g ++ t, by rw [gapChars_cons, hcs]; simp, List.not_mem_nil, .inl rfl⟩

theorem Listing.rows_ahead (L : Listing W) : Ahead L.rows := by
  refine Ahead.gap L.ending ?_
  rcases L.lines with _ | ⟨l, lines⟩
  · exact .inl List.not_mem_nil
  · obtain ⟨g, t, hstem, -⟩ := l.stem_cons
    rw [List.flatMap_cons, l.chars_append, BankLine.text, weave_append, List.append_assoc, hstem]
    have hlead : '[' ∉ l.lead.map Prod.fst := by
      intro h
      obtain ⟨d, hd, hopen⟩ := List.mem_map.1 h
      have hspace := l.blank_lead d hd
      rw [hopen] at hspace
      exact absurd hspace (by decide)
    by_cases hwhole : ∀ d ∈ l.lead, d.2 = []
    · rw [weave_whole hwhole]
      exact .inr ⟨_, '-', _, rfl, hlead, .inr rfl⟩
    · obtain ⟨p, more, hp, hpre⟩ : ∃ p more, weave l.lead = p ++ '(' :: more ∧ p <+: l.lead.map Prod.fst :=
        weave_torn (by by_contra hno; exact hwhole fun d hd => by_contra fun hne => hno ⟨d, hd, hne⟩)
      rw [hp, List.append_assoc]
      exact .inr ⟨p, '(', _, rfl, fun h => hlead (hpre.subset h), .inl rfl⟩

/-- **The entries of a listing** are those of the lines no splice tore ahead of the bracket. -/
theorem findBanks_listing (L : Listing W) : findBanks W L.chars =
    (L.lines.filter BankLine.whole).map fun l => (l.name, l.content) := by
  have hspelled : L.heading.map Prod.fst = "selected".toList ++ '-' :: "pcrs:".toList := L.spelled
  obtain ⟨a, r, hheading, ha, hr⟩ := List.map_eq_append_iff.1 hspelled
  obtain ⟨e, b, rfl, he, hb⟩ := List.map_eq_cons_iff.1 hr
  have hno : ∀ {l : List (Char × List Spliced)} {cs : List Char}, l.map Prod.fst = cs → '-' ∉ cs → ∀ d ∈ l, d.1 ≠ '-' :=
    fun hl hcs d hd heq => hcs (hl ▸ heq ▸ List.mem_map_of_mem hd)
  have hnone : bankAt W (weave (e :: b) ++ '\n' :: L.rows) = none := by
    by_cases hwhole : ∀ d ∈ e :: b, d.2 = []
    · have htext : weave (e :: b) ++ '\n' :: L.rows = "-pcrs:\n".toList ++ L.rows := by
        rw [weave_whole hwhole, List.map_cons, he, hb]
        rfl
      rw [htext]
      exact L.rows_ahead.none (by decide) (by decide)
    · obtain ⟨p, more, hp, hpre⟩ : ∃ p more, weave (e :: b) = p ++ '(' :: more ∧ p <+: (e :: b).map Prod.fst :=
        weave_torn (by by_contra hno; exact hwhole fun d hd => by_contra fun hne => hno ⟨d, hd, hne⟩)
      rw [List.map_cons, he, hb] at hpre
      have hopen : '[' ∉ p := fun h => absurd (hpre.subset h) (by decide)
      rw [hp, List.append_assoc]
      exact bankAt_torn hopen _
  rw [Listing.chars, findBanks_gapChars, findBanks, findBanks_spliced (fun d t hsuffix hd => ?_) true (Nat.zero_le _),
    Listing.rows, findBanks_gapChars, findBanks_lines]
  rw [hheading] at hsuffix
  rw [dash_unique (hno ha (by decide)) (hno hb (by decide)) hsuffix hd]
  exact hnone

/-! ## The outer blanks -/

theorem findBanksFrom_open {cs : List Char} (h : '[' ∉ cs) (s : Bool) (k : ℕ) : findBanksFrom W s k cs = [] := by
  induction cs generalizing s k with
  | nil => cases k <;> rfl
  | cons c cs ih =>
    have hrest : '[' ∉ cs := fun hmem => h (List.mem_cons_of_mem c hmem)
    cases k with
    | zero =>
      rw [findBanksFrom_none fun _ => bankAt_open h]
      exact ih hrest _ 0
    | succ k => exact ih hrest _ k

/-- a character looked for behind a run that all of `v` would go on -/
theorem literal_dropWhile {p : Char → Bool} {v : List Char} (hv : ∀ c ∈ v, p c = true) (d : Char) (t : List Char) :
    literal d ((t ++ v).dropWhile p) = (literal d (t.dropWhile p)).map (· ++ v) := by
  by_cases h : t.dropWhile p = []
  · rw [List.dropWhile_append, h, List.dropWhile_eq_nil_iff.2 hv]
    rfl
  · obtain ⟨c, cs, hc⟩ := List.exists_cons_of_ne_nil h
    rw [List.dropWhile_append, hc, if_neg (by simp), List.cons_append, literal, literal]
    split_ifs <;> rfl

theorem dropWhile_blanks (W : WordClass) {v : List Char} (hv : ∀ c ∈ v, isSpace c = true) (t : List Char) :
    (t ++ v).takeWhile W.isWord = t.takeWhile W.isWord ∧ (t ++ v).dropWhile W.isWord = t.dropWhile W.isWord ++ v := by
  cases v with
  | nil => rw [List.append_nil, List.append_nil]; exact ⟨rfl, rfl⟩
  | cons z v =>
    have hz : W.isWord z = false := by
      by_contra hword
      rw [Bool.not_eq_false] at hword
      exact absurd (hv z List.mem_cons_self) (by rw [W.not_space z hword]; exact Bool.false_ne_true)
    exact ⟨takeWhile_stop hz t v, dropWhile_stop hz t v⟩

/-- blanks behind a text are no part of a match -/
theorem bankAt_blanks {v : List Char} (hv : ∀ c ∈ v, isSpace c = true) (t : List Char) :
    bankAt W (t ++ v) = (bankAt W t).map fun m => (m.1, m.2 ++ v) := by
  have hinside : ∀ c ∈ v, inBrackets c = true := by
    intro c hc
    refine inBrackets_iff.2 fun h => ?_
    exact absurd (h ▸ hv c hc) (by decide)
  rw [bankAt, bankAt, literal_dropWhile hv]
  cases literal '-' (t.dropWhile isSpace) with
  | none => rfl
  | some a =>
    simp only [Option.map_some, Option.bind_eq_bind, Option.bind_some]
    by_cases hblank : a.dropWhile isSpace = []
    · have hboth : (a ++ v).dropWhile isSpace = [] := by
        rw [List.dropWhile_append, hblank, List.dropWhile_eq_nil_iff.2 hv]
        rfl
      rw [hboth, hblank]
      rfl
    · have happend : (a ++ v).dropWhile isSpace = a.dropWhile isSpace ++ v := by
        rw [List.dropWhile_append, if_neg (by rw [List.isEmpty_iff]; exact hblank)]
      obtain ⟨htake, hdrop⟩ := dropWhile_blanks W hv (a.dropWhile isSpace)
      rw [happend, htake, hdrop, literal_dropWhile hv]
      cases literal ':' (((a.dropWhile isSpace).dropWhile W.isWord).dropWhile isSpace) with
      | none => rfl
      | some b =>
        rw [Option.map_some, Option.bind_some, Option.bind_some, literal_dropWhile hv]
        cases literal '[' (b.dropWhile isSpace) with
        | none => rfl
        | some c =>
          rw [Option.map_some, Option.bind_some, Option.bind_some, literal_dropWhile hinside]
          cases hd : literal ']' (c.dropWhile inBrackets) with
          | none => rfl
          | some d =>
            have hclose : (c ++ v).takeWhile inBrackets = c.takeWhile inBrackets := by
              have hsplit := literal_eq_some.1 hd
              rw [List.takeWhile_append, if_neg]
              intro hall
              have hlen := congrArg List.length (List.takeWhile_append_dropWhile (p := inBrackets) (l := c))
              rw [hsplit, List.length_append, hall] at hlen
              simp at hlen
            rw [Option.map_some, Option.bind_some, Option.bind_some, hclose]
            split_ifs <;> rfl

theorem findBanksFrom_blanks {v : List Char} (hv : ∀ c ∈ v, isSpace c = true) (t : List Char) (s : Bool) (k : ℕ) :
    findBanksFrom W s k (t ++ v) = findBanksFrom W s k t := by
  induction t generalizing s k with
  | nil =>
    have hopen : '[' ∉ v := fun hmem => absurd (hv _ hmem) (by decide)
    rw [List.nil_append, findBanksFrom_open hopen, findBanksFrom_open List.not_mem_nil]
  | cons c t ih =>
    cases k with
    | succ k => exact ih _ k
    | zero =>
      have hat := bankAt_blanks (W := W) hv (c :: t)
      rw [List.cons_append] at hat ⊢
      rw [findBanksFrom, findBanksFrom, hat]
      cases s with
      | false => exact ih _ 0
      | true =>
        rw [if_pos rfl, if_pos rfl]
        cases hm : bankAt W (c :: t) with
        | none => exact ih _ 0
        | some m =>
          have hskip : (t ++ v).length - (m.2 ++ v).length = t.length - m.2.length := by
            simp only [List.length_append]
            omega
          simp only [Option.map_some, hskip]
          exact congrArg (m.1 :: ·) (ih _ _)

theorem findBanks_strip (cs : List Char) : findBanks W (strip cs) = findBanks W cs := by
  obtain ⟨u, v, hcs, hu, hv⟩ := strip_split cs
  calc findBanks W (strip cs)
      = findBanks W (strip cs ++ v) := (findBanksFrom_blanks hv _ true 0).symm
    _ = findBanks W (u ++ (strip cs ++ v)) := (findBanks_blanks hu _).symm
    _ = findBanks W cs := by rw [← hcs]

/-! ## What is printed -/

/-- a bank the TPM knows, and the PCRs it has there -/
structure Bank where
  name : List Char
  pcrs : List ℕ

def pcrList : List ℕ → List Char
  | [] => []
  | [n] => Nat.toDigits 10 n ++ [' ']
  | n :: m :: pcrs => Nat.toDigits 10 n ++ ',' :: ' ' :: pcrList (m :: pcrs)

/-- the line of a bank -/
def Bank.line (b : Bank) : List Char :=
  [' ', ' '] ++ (('-' :: ([' '] ++ (b.name ++ ':' :: [' ']))) ++ '[' :: (' ' :: pcrList b.pcrs ++ ']' :: ['\n']))

/-- what `tpm2_getcap pcrs` prints -/
def printedListing (banks : List Bank) : List Char := "selected-pcrs:".toList ++ '\n' :: banks.flatMap Bank.line

theorem mem_pcrList {pcrs : List ℕ} {c : Char} (h : c ∈ pcrList pcrs) : c = ' ' ∨ c = ',' ∨ isDecimal c = true := by
  induction pcrs using pcrList.induct with
  | case1 => cases h
  | case2 n =>
    rcases List.mem_append.1 h with h | h
    · exact .inr (.inr (isDecimal_toDigits h))
    · exact .inl (List.mem_singleton.1 h)
  | case3 n m pcrs ih =>
    rw [pcrList, List.mem_append, List.mem_cons, List.mem_cons] at h
    rcases h with h | h | h | h
    · exact .inr (.inr (isDecimal_toDigits h))
    · exact .inr (.inl h)
    · exact .inl h
    · exact ih h

/-- the brackets of a printed line hold no bracket and no dash -/
theorem pcrList_open {pcrs : List ℕ} {c : Char} (h : c ∈ ' ' :: pcrList pcrs) : c ≠ ']' ∧ c ≠ '-' := by
  have hc : c = ' ' ∨ c = ',' ∨ isDecimal c = true := by
    rcases List.mem_cons.1 h with h | h
    · exact .inl h
    · exact mem_pcrList h
  rcases hc with rfl | rfl | hdigit
  · decide
  · decide
  · constructor
    · rintro rfl
      exact absurd hdigit (by decide)
    · rintro rfl
      exact absurd hdigit (by decide)

/-- they are blank where the bank has no PCRs -/
theorem pcrList_blank (pcrs : List ℕ) : (∃ c ∈ ' ' :: pcrList pcrs, isSpace c = false) ↔ pcrs ≠ [] := by
  cases pcrs with
  | nil =>
    refine iff_of_false ?_ fun h => h rfl
    rintro ⟨c, hc, hspace⟩
    rw [List.mem_singleton.1 hc] at hspace
    exact absurd hspace (by decide)
  | cons n pcrs =>
    refine iff_of_true ?_ (List.cons_ne_nil _ _)
    obtain ⟨c, hc⟩ := List.exists_mem_of_ne_nil _ (Nat.toDigits_ne_nil (b := 10) (n := n))
    refine ⟨c, List.mem_cons_of_mem ' ' ?_, Bool.eq_false_iff.2 (not_space_of_decimal (isDecimal_toDigits hc))⟩
    cases pcrs with
    | nil => exact List.mem_append_left _ hc
    | cons m pcrs => exact List.mem_append_left _ hc

/-- the line was printed for the bank -/
structure BankLine.Prints (l : BankLine W) (b : Bank) : Prop where
  name : l.name = b.name
  allocated : l.allocated = true ↔ b.pcrs ≠ []

/-- the text of a line whose characters are those of a bank's -/
theorem exists_line {b : Bank} (hne : b.name ≠ []) (hword : ∀ c ∈ b.name, W.isWord c = true)
    {woven : List (Char × List Spliced)} {rest : List Char} (h : woven.map Prod.fst = b.line ++ rest) :
    ∃ (l : BankLine W) (left : List (Char × List Spliced)), weave woven = l.chars ++ weave left ∧
      left.map Prod.fst = rest ∧ l.Prints b := by
  rw [Bank.line, List.append_assoc] at h
  obtain ⟨lead, w, rfl, hlead, h⟩ := List.map_eq_append_iff.1 h
  rw [List.append_assoc] at h
  obtain ⟨stem, w, rfl, hstem, h⟩ := List.map_eq_append_iff.1 h
  rw [List.cons_append, List.append_assoc] at h
  obtain ⟨opening, w, rfl, hopening, h⟩ := List.map_eq_cons_iff.1 h
  obtain ⟨inside, w, rfl, hinside, h⟩ := List.map_eq_append_iff.1 h
  obtain ⟨closing, w, rfl, hclosing, h⟩ := List.map_eq_cons_iff.1 h
  obtain ⟨ending, left, rfl, hending, hleft⟩ := List.map_eq_cons_iff.1 h
  have hmem : ∀ d ∈ inside, d.1 ∈ ' ' :: pcrList b.pcrs := fun d hd => hinside ▸ List.mem_map_of_mem hd
  have hblank : ∀ d ∈ lead, isSpace d.1 = true := fun d hd => by
    have hd' : d.1 ∈ lead.map Prod.fst := List.mem_map_of_mem hd
    rw [hlead] at hd'
    rcases List.mem_pair.1 hd' with h | h <;> rw [h] <;> decide
  refine ⟨{ lead := lead, stem := stem, opening := opening.2, inside := inside, closing := closing.2, ending := ending.2
            gap := [' '], name := b.name, space := [' ']
            spelled := hstem
            blank_lead := hblank
            blank_gap := List.forall_mem_singleton.2 (by decide)
            blank_space := List.forall_mem_singleton.2 (by decide)
            name_ne := hne
            name_word := hword
            inside_open := fun d hd => pcrList_open (hmem d hd) }, left, ?_, hleft, rfl, ?_⟩
  · have ho : opening = ('[', opening.2) := Prod.ext hopening rfl
    have hc : closing = (']', closing.2) := Prod.ext hclosing rfl
    have he : ending = ('\n', ending.2) := Prod.ext hending rfl
    rw [ho, hc, he]
    simp only [BankLine.chars, BankLine.text, BankLine.behind, weave, List.flatMap_append, List.flatMap_cons,
      List.flatMap_nil, List.append_assoc, List.cons_append, List.append_nil]
  · rw [BankLine.allocated, ← pcrList_blank, ← hinside]
    simp only [List.any_eq_true, Bool.not_eq_true', List.mem_map, exists_exists_and_eq_and]

theorem exists_lines {banks : List Bank} (hname : ∀ b ∈ banks, b.name ≠ [] ∧ ∀ c ∈ b.name, W.isWord c = true)
    {woven : List (Char × List Spliced)} (h : woven.map Prod.fst = banks.flatMap Bank.line) :
    ∃ lines : List (BankLine W), weave woven = lines.flatMap BankLine.chars ∧ List.Forall₂ BankLine.Prints lines banks := by
  induction banks generalizing woven with
  | nil =>
    rw [List.map_eq_nil_iff.1 h]
    exact ⟨[], rfl, .nil⟩
  | cons b banks ih =>
    rw [List.flatMap_cons] at h
    obtain ⟨hne, hword⟩ := hname b List.mem_cons_self
    obtain ⟨l, left, hl, hleft, hprints⟩ := exists_line hne hword h
    obtain ⟨lines, hlines, hall⟩ := ih (fun b hb => hname b (List.mem_cons_of_mem _ hb)) hleft
    exact ⟨l :: lines, by rw [hl, hlines, List.flatMap_cons], .cons hprints hall⟩

/-- **Every splice is covered.** Whatever hypervisor lines land in a printed listing, it is a `Listing` of its banks. -/
theorem exists_listing {banks : List Bank} (hname : ∀ b ∈ banks, b.name ≠ [] ∧ ∀ c ∈ b.name, W.isWord c = true)
    {raw : List Char} (h : Noise.Sprinkled HexDump.XenLine (printedListing banks) raw) :
    ∃ L : Listing W, L.chars = raw ∧ List.Forall₂ BankLine.Prints L.lines banks := by
  obtain ⟨first, woven, rfl, hwoven⟩ := weave_of_sprinkled h
  obtain ⟨heading, w, rfl, hheading, hrest⟩ := List.map_eq_append_iff.1 hwoven
  obtain ⟨ending, w, rfl, hending, hrest⟩ := List.map_eq_cons_iff.1 hrest
  obtain ⟨lines, hlines, hall⟩ := exists_lines hname hrest
  have hnewline : ending = ('\n', ending.2) := Prod.ext hending rfl
  refine ⟨⟨first, heading, hheading, ending.2, lines⟩, ?_, hall⟩
  rw [Listing.chars, Listing.rows, weave_append, hnewline, weave_cons, hlines]

/-! ## The read -/

/-- the banks of the lines that are kept -/
def Listing.kept (L : Listing W) : List (List Char) := (L.lines.filter BankLine.kept).map BankLine.name

theorem readBanks_listing (L : Listing W) : readBanks W (strip L.chars) =
    if L.kept = [] then .error (.lookupError (strip L.chars)) else .ok L.kept := by
  have hkept : ((findBanks W (strip L.chars)).filter fun e => strip e.2 ≠ []).map Prod.fst = L.kept := by
    rw [findBanks_strip, findBanks_listing, List.filter_map, List.map_map, List.filter_filter, Listing.kept]
    congr 1
    refine List.filter_congr fun l _ => ?_
    have hcontent : decide (strip l.content ≠ []) = (l.allocated || l.splicedInside) := by
      rw [Bool.eq_iff_iff, decide_eq_true_iff, l.content_blank]
    rw [BankLine.kept, Bool.and_comm l.whole]
    exact congrArg (· && l.whole) hcontent
  simp only [readBanks, hkept]

theorem names_eq {lines : List (BankLine W)} {banks : List Bank} (h : List.Forall₂ BankLine.Prints lines banks) :
    lines.map BankLine.name = banks.map Bank.name := by
  induction h with
  | nil => rfl
  | cons hl _ ih => rw [List.map_cons, List.map_cons, hl.name, ih]

/-- where no line lands inside a printed one, the banks with PCRs are kept -/
theorem kept_whole {lines : List (BankLine W)} {banks : List Bank} (h : List.Forall₂ BankLine.Prints lines banks)
    (hwhole : ∀ l ∈ lines, l.whole = true ∧ l.splicedInside = false) :
    (lines.filter BankLine.kept).map BankLine.name = (banks.filter fun b => b.pcrs ≠ []).map Bank.name := by
  induction h with
  | nil => rfl
  | @cons l b _ _ hl _ ih =>
    obtain ⟨hstem, hinside⟩ := hwhole l List.mem_cons_self
    have hrest := ih fun l hl => hwhole l (List.mem_cons_of_mem _ hl)
    have hkept : l.kept = decide (b.pcrs ≠ []) := by
      rw [BankLine.kept, hstem, hinside, Bool.or_false, Bool.true_and, Bool.eq_iff_iff, hl.allocated, decide_eq_true_iff]
    rw [List.filter_cons, List.filter_cons, hkept]
    split_ifs
    · rw [List.map_cons, List.map_cons, hl.name, hrest]
    · exact hrest

/-- what is returned of an exchange -/
theorem pcrBanks_exchange {t : Time} {vm : Vm} {s : Shown} {x : Exchange} {rest : Bytes}
    (hbytes : (pcrBanks W t vm s).1.reader.serialBuf.drop vm.cursor <+: x.bytes ++ rest) :
    (pcrBanks W t vm s).2 = none ∨ (∃ e, (pcrBanks W t vm s).2 = some (.error (.expect e))) ∨
      (pcrBanks W t vm s).2 = some (readBanks W x.read) ∧ (pcrBanks W t vm s).1.cursor = vm.cursor + x.bytes.length := by
  unfold pcrBanks at hbytes ⊢
  rcases hrun : run t vm (s.command getcap) with ⟨vm', out⟩
  rw [hrun] at hbytes
  cases out with
  | waiting w => exact .inl rfl
  | raised e => exact .inr (.inl ⟨e, rfl⟩)
  | printed out =>
    obtain ⟨rfl, hcursor⟩ := run_exchange hrun hbytes
    exact .inr (.inr ⟨rfl, hcursor⟩)

/-- **The banks of the TPM.** Whatever banks the TPM lists, with PCRs or without, and wherever hypervisor lines land in the
listing, what is printed is a `Listing` of these banks. And of every such listing, however it arrives, `pcr_banks` returns, in
the TPM's order, the banks whose line no hypervisor line tore ahead of the bracket and whose brackets hold a PCR or a
hypervisor line, so never one the TPM does not list, or refuses where there is none. Where no line lands inside another, these
are the banks with PCRs. -/
theorem bank_listing_read (W : WordClass) (banks : List Bank)
    (hname : ∀ b ∈ banks, b.name ≠ [] ∧ ∀ c ∈ b.name, W.isWord c = true) :
    (∀ raw, Noise.Sprinkled HexDump.XenLine (printedListing banks) raw →
      ∃ L : Listing W, L.chars = raw ∧ List.Forall₂ BankLine.Prints L.lines banks) ∧
    ∀ L : Listing W, List.Forall₂ BankLine.Prints L.lines banks →
      (∀ (commandTimeout : Time) (vm : Vm) (s : Shown) (x : Exchange) (rest : Bytes), x.output.filter (· ≠ '\r') = L.chars →
        (pcrBanks W commandTimeout vm s).1.reader.serialBuf.drop vm.cursor <+: x.bytes ++ rest →
        (pcrBanks W commandTimeout vm s).2 = none ∨ (∃ e, (pcrBanks W commandTimeout vm s).2 = some (.error (.expect e))) ∨
          (pcrBanks W commandTimeout vm s).2 =
            some (if L.kept = [] then .error (.lookupError x.read) else .ok L.kept)) ∧
      L.kept.Sublist (banks.map Bank.name) ∧
      ((∀ l ∈ L.lines, l.whole = true ∧ l.splicedInside = false) →
        L.kept = (banks.filter fun b => b.pcrs ≠ []).map Bank.name) := by
  refine ⟨fun raw => exists_listing hname, fun L hprints => ⟨fun commandTimeout vm s x rest hchars hbytes => ?_, ?_,
    kept_whole hprints⟩⟩
  · have hread : x.read = strip L.chars := by rw [Exchange.read, hchars]
    rcases pcrBanks_exchange hbytes with hnone | hraised | ⟨hout, -⟩
    · exact .inl hnone
    · exact .inr (.inl hraised)
    · rw [hread, readBanks_listing] at hout
      exact .inr (.inr (by rw [hout, hread]))
  · rw [Listing.kept, ← names_eq hprints]
    exact List.filter_sublist.map _

/-- `\w` on ASCII alone -/
def asciiWords : WordClass where
  isWord c := c.isAlphanum || c == '_'
  not_space c h := by
    have hcode : (48 ≤ c.toNat ∧ c.toNat ≤ 57) ∨ (65 ≤ c.toNat ∧ c.toNat ≤ 90) ∨ (97 ≤ c.toNat ∧ c.toNat ≤ 122) ∨ c.toNat = 95 := by
      have hcodes : (((decide (65 ≤ c.val ∧ c.val ≤ 90) || decide (97 ≤ c.val) && decide (c.val ≤ 122)) ||
          decide (48 ≤ c.val) && decide (c.val ≤ 57)) || c == '_') = true := h
      simp only [Bool.or_eq_true, beq_iff_eq, Bool.and_eq_true, decide_eq_true_eq, UInt32.le_iff_toNat_le] at hcodes
      rcases hcodes with ((⟨h₁, h₂⟩ | ⟨h₁, h₂⟩) | ⟨h₁, h₂⟩) | rfl
      · exact .inr (.inl ⟨h₁, h₂⟩)
      · exact .inr (.inr (.inl ⟨h₁, h₂⟩))
      · exact .inl ⟨h₁, h₂⟩
      · exact .inr (.inr (.inr rfl))
    rw [isSpace, decide_eq_false_iff_not]
    omega
  ascii _ _ := rfl

/-- a bank without PCRs and one with two -/
def sampleBanks : List Bank := [⟨"sha1".toList, []⟩, ⟨"sha256".toList, [0, 17]⟩]

def sampleLine : List Char := "(XEN) d0v1\n".toList

def sampleOutput : List Char :=
  "selected-pcrs:\r\n  - sha1: [ ]\r\n".toList ++ (sampleLine ++ "  - sha256: [ 0, 17 ]\r\n".toList)

/-- the listing with a hypervisor line between its banks -/
def sampleExchange : Exchange where
  command := getcap
  output := sampleOutput
  body := ' ' :: getcap.toList ++ ['\r', '\n'] ++ sampleOutput
  oneLine := by decide +kernel
  plain := by decide
  ended := Or.inr (by decide)
  printed := .refl _
  lone := lone_of_range (by decide +kernel)

theorem bank_listing_read_between : ∃ L : Listing asciiWords, L.chars = sampleOutput.filter (· ≠ '\r') ∧
    L.kept.Sublist ["sha1".toList, "sha256".toList] ∧
      (pcrBanks asciiWords 60 fresh ⟨0, showing sampleExchange.bytes 1, []⟩).2 =
        some (if L.kept = [] then .error (.lookupError sampleExchange.read) else .ok L.kept) := by
  have hprinted : Noise.Sprinkled HexDump.XenLine (printedListing sampleBanks) (sampleOutput.filter (· ≠ '\r')) := by
    have hline : HexDump.XenLine sampleLine := .line " d0v1".toList (by decide)
    have hsplit : printedListing sampleBanks =
        "selected-pcrs:\n  - sha1: [ ]\n".toList ++ "  - sha256: [ 0, 17 ]\n".toList := by decide +kernel
    have hraw : sampleOutput.filter (· ≠ '\r') =
        "selected-pcrs:\n  - sha1: [ ]\n".toList ++ (sampleLine ++ "  - sha256: [ 0, 17 ]\n".toList) := by decide +kernel
    rw [hsplit, hraw]
    exact (Noise.Sprinkled.refl _).append (.piece hline (.refl _))
  have hname : ∀ b ∈ sampleBanks, b.name ≠ [] ∧ ∀ c ∈ b.name, asciiWords.isWord c = true := by
    intro b hb
    rcases List.mem_pair.1 hb with rfl | rfl
    · exact ⟨by decide, List.all_eq_true.1 (by decide)⟩
    · exact ⟨by decide, List.all_eq_true.1 (by decide)⟩
  have hended : ((pcrBanks asciiWords 60 fresh ⟨0, showing sampleExchange.bytes 1, []⟩).2.any Except.isOk) = true := by
    decide +kernel
  obtain ⟨hcovered, hlistings⟩ := bank_listing_read asciiWords sampleBanks hname
  obtain ⟨L, hchars, hprints⟩ := hcovered _ hprinted
  obtain ⟨hread, hsub, -⟩ := hlistings L hprints
  refine ⟨L, hchars, hsub, ?_⟩
  rcases hread 60 fresh ⟨0, showing sampleExchange.bytes 1, []⟩ sampleExchange [] hchars.symm (by decide +kernel) with hnone | ⟨e, hraised⟩ | hread
  · rw [hnone] at hended
    cases hended
  · rw [hraised] at hended
    cases hended
  · exact hread

end DrtmTest.BankListing
