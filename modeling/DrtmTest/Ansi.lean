/-
What `strip_ansi` of `drtmtest/console.py` removes.

- `AnsiSequence`: the terminal sequences `_ANSI_RE` spells. `escapeLength_iff`: the model of the expression finds one at the
  head of a text exactly where there is one. They are some of a terminal's sequences (`AnsiSequence.terminal`), not all.
- `stripAnsi_sprinkled`: a text without escape characters comes back from any number of sequences put between its
  characters. `Escaped.stripAnsi_eq`: so does a text with escape characters at which no sequence starts.
- `stripAnsi_newline`: no sequence reaches over a newline, so a line is stripped by itself whatever stands on it.
-/
import DrtmTest.Console
import DrtmTest.Core.Noise
import Mathlib.Data.List.TakeWhile

namespace DrtmTest.Ansi

open DrtmTest.Console DrtmTest.Noise DrtmTest.Text

def isParameter (c : Char) : Bool := isDigit c || c = ';' || c = '?'

def isLetter (c : Char) : Bool := isUpper c || isLower c

/-- a complete terminal sequence of the forms `_ANSI_RE` spells -/
inductive AnsiSequence : List Char → Prop
  | control (parameters : List Char) (final : Char) : (∀ c ∈ parameters, isParameter c = true) → isLetter final = true →
      AnsiSequence ('\x1b' :: '[' :: parameters ++ [final])
  | charset (c d : Char) : c = '(' ∨ c = ')' → (isUpper d || isDigit d) = true → AnsiSequence ['\x1b', c, d]
  | keypad (c : Char) : c = '=' ∨ c = '>' → AnsiSequence ['\x1b', c]

theorem isUpper_iff {c : Char} : isUpper c = true ↔ 65 ≤ c.toNat ∧ c.toNat ≤ 90 := by
  simp only [isUpper, decide_eq_true_eq, Char.le_def, UInt32.le_iff_toNat_le]
  rfl

theorem isLower_iff {c : Char} : isLower c = true ↔ 97 ≤ c.toNat ∧ c.toNat ≤ 122 := by
  simp only [isLower, decide_eq_true_eq, Char.le_def, UInt32.le_iff_toNat_le]
  rfl

theorem isDigit_iff {c : Char} : isDigit c = true ↔ 48 ≤ c.toNat ∧ c.toNat ≤ 57 := by
  simp only [isDigit, decide_eq_true_eq, Char.le_def, UInt32.le_iff_toNat_le]
  rfl

theorem isLetter_iff {c : Char} :
    isLetter c = true ↔ 65 ≤ c.toNat ∧ c.toNat ≤ 90 ∨ 97 ≤ c.toNat ∧ c.toNat ≤ 122 := by
  rw [isLetter, Bool.or_eq_true, isUpper_iff, isLower_iff]

theorem isParameter_iff {c : Char} :
    isParameter c = true ↔ 48 ≤ c.toNat ∧ c.toNat ≤ 57 ∨ c.toNat = 59 ∨ c.toNat = 63 := by
  have hchar : ∀ d : Char, c = d ↔ c.toNat = d.toNat := fun d => Char.toNat_inj.symm
  simp only [isParameter, Bool.or_eq_true, isDigit_iff, decide_eq_true_eq, hchar, or_assoc]
  rfl

/-! ## The sequences of a terminal -/

/-- a complete sequence as terminals read them: a control sequence with its parameter, intermediate and final bytes, or an
escape character with intermediate bytes and a final one that opens nothing longer -/
inductive TerminalSequence : List Char → Prop
  | control (parameters intermediates : List Char) (final : Char) :
      (∀ c ∈ parameters, 0x30 ≤ c.toNat ∧ c.toNat ≤ 0x3f) → (∀ c ∈ intermediates, 0x20 ≤ c.toNat ∧ c.toNat ≤ 0x2f) →
      0x40 ≤ final.toNat ∧ final.toNat ≤ 0x7e → TerminalSequence ('\x1b' :: '[' :: parameters ++ intermediates ++ [final])
  | escape (intermediates : List Char) (final : Char) : (∀ c ∈ intermediates, 0x20 ≤ c.toNat ∧ c.toNat ≤ 0x2f) →
      0x30 ≤ final.toNat ∧ final.toNat ≤ 0x7e → (intermediates = [] → final ∉ ['[', ']', 'P', 'X', '^', '_']) →
      TerminalSequence ('\x1b' :: intermediates ++ [final])

theorem AnsiSequence.terminal {p : List Char} (h : AnsiSequence p) : TerminalSequence p := by
  cases h with
  | control parameters final hp hf =>
    have hparameter : ∀ c ∈ parameters, 0x30 ≤ c.toNat ∧ c.toNat ≤ 0x3f := fun c hc => by
      have := isParameter_iff.1 (hp c hc)
      omega
    have hfinal : 0x40 ≤ final.toNat ∧ final.toNat ≤ 0x7e := by
      have := isLetter_iff.1 hf
      omega
    have := TerminalSequence.control parameters [] final hparameter (List.forall_mem_nil _) hfinal
    rwa [List.append_nil] at this
  | charset c d hc hd =>
    have hc' : ∀ e ∈ [c], 0x20 ≤ e.toNat ∧ e.toNat ≤ 0x2f :=
      List.forall_mem_singleton.2 (by rcases hc with rfl | rfl <;> decide)
    have hd' : 0x30 ≤ d.toNat ∧ d.toNat ≤ 0x7e := by
      rw [Bool.or_eq_true, isUpper_iff, isDigit_iff] at hd
      omega
    exact .escape [c] d hc' hd' fun h => absurd h (List.cons_ne_nil c [])
  | keypad c hc => rcases hc with rfl | rfl <;> exact .escape [] _ (List.forall_mem_nil _) (by decide) fun _ => by decide

/-! ## The expression -/

theorem takeWhile_parameters {parameters : List Char} (hp : ∀ c ∈ parameters, isParameter c = true) {final : Char}
    (hf : isLetter final = true) (rest : List Char) :
    (parameters ++ final :: rest).takeWhile isParameter = parameters := by
  have hstop : ¬ isParameter final = true := by
    rw [isParameter_iff]
    have := isLetter_iff.1 hf
    omega
  exact takeWhile_run hp (Bool.eq_false_iff.2 hstop) rest

theorem escapeLength_sequence {p : List Char} (h : AnsiSequence p) (rest : List Char) :
    escapeLength (p ++ rest) = some p.length := by
  cases h with
  | control parameters final hp hf =>
    have htake := takeWhile_parameters hp hf rest
    have htake' : (parameters ++ final :: rest).takeWhile (fun c => isDigit c || c = ';' || c = '?') = parameters :=
      htake
    have hf' : (isUpper final || isLower final) = true := hf
    simp [escapeLength, htake', hf']
  | charset c d hc hd =>
    rcases hc with rfl | rfl <;> simp [escapeLength, hd]
  | keypad c hc =>
    rcases hc with rfl | rfl <;> cases rest <;> simp [escapeLength]

theorem sequence_of_escapeLength {cs : List Char} {n : ℕ} (h : escapeLength cs = some n) :
    ∃ p rest, cs = p ++ rest ∧ AnsiSequence p ∧ p.length = n := by
  unfold escapeLength at h
  split at h
  · rename_i cs
    have hparts := List.takeWhile_append_dropWhile (p := isParameter) (l := cs)
    have hdrop : cs.drop (cs.takeWhile fun c => isDigit c || c = ';' || c = '?').length = cs.dropWhile isParameter :=
      drop_takeWhile isParameter cs
    simp only [hdrop] at h
    split at h
    · rename_i final rest hrest
      split_ifs at h with hf
      cases h
      refine ⟨'\x1b' :: '[' :: cs.takeWhile isParameter ++ [final], rest, ?_,
        .control _ final (fun c hc => List.mem_takeWhile_imp hc) hf, ?_⟩
      · simp only [List.cons_append, List.append_assoc, List.nil_append, ← hrest, hparts]
      · rw [List.length_append]
        rfl
    · cases h
  · rename_i c d rest _
    split_ifs at h with hc hd hk
    · cases h
      exact ⟨['\x1b', c, d], rest, rfl, .charset c d hc hd, rfl⟩
    · cases h
      exact ⟨['\x1b', c], d :: rest, rfl, .keypad c hk, rfl⟩
  · rename_i c _
    split_ifs at h with hk
    cases h
    exact ⟨['\x1b', c], [], rfl, .keypad c hk, rfl⟩
  · cases h

/-- **The expression finds the sequences.** One is found at the head of a text exactly where there is one. -/
theorem escapeLength_iff {cs : List Char} {n : ℕ} :
    escapeLength cs = some n ↔ ∃ p rest, cs = p ++ rest ∧ AnsiSequence p ∧ p.length = n := by
  refine ⟨sequence_of_escapeLength, ?_⟩
  rintro ⟨p, rest, rfl, hp, rfl⟩
  exact escapeLength_sequence hp rest

/-! ## Stripping -/

theorem AnsiSequence.escape_head {p : List Char} (h : AnsiSequence p) : ∃ cs, p = '\x1b' :: cs := by
  cases h with
  | control parameters final _ _ => exact ⟨_, rfl⟩
  | charset c d _ _ => exact ⟨_, rfl⟩
  | keypad c _ => exact ⟨_, rfl⟩

/-- what is neither a letter, a digit nor one of the marks is in no sequence -/
theorem AnsiSequence.newline_not_mem {p : List Char} (h : AnsiSequence p) : '\n' ∉ p := by
  cases h with
  | control parameters final hp hf =>
    have hparameter : '\n' ∉ parameters := fun h => absurd (hp '\n' h) (by decide)
    have hfinal : '\n' ≠ final := by rintro rfl; exact absurd hf (by decide)
    simp [hparameter, hfinal]
  | charset c d hc hd =>
    have hd' : '\n' ≠ d := by rintro rfl; exact absurd hd (by decide)
    rcases hc with rfl | rfl <;> simp [hd']
  | keypad c hc => rcases hc with rfl | rfl <;> decide

theorem stripAnsiFrom_skip (p rest : List Char) : stripAnsiFrom p.length (p ++ rest) = stripAnsi rest := by
  induction p with
  | nil => rfl
  | cons c p ih => exact ih

/-- where no sequence starts a character is kept -/
theorem stripAnsi_other {c : Char} {rest : List Char} (h : ∀ p, AnsiSequence p → ¬ p <+: c :: rest) :
    stripAnsi (c :: rest) = c :: stripAnsi rest := by
  have hnone : escapeLength (c :: rest) = none := by
    rw [Option.eq_none_iff_forall_ne_some]
    intro n hn
    obtain ⟨p, rest', heq, hp, -⟩ := escapeLength_iff.1 hn
    exact h p hp ⟨rest', heq.symm⟩
  rw [stripAnsi, stripAnsiFrom, hnone]
  rfl

theorem AnsiSequence.not_prefix {p : List Char} (h : AnsiSequence p) {c : Char} (hc : c ≠ '\x1b') (rest : List Char) :
    ¬ p <+: c :: rest := by
  intro hprefix
  obtain ⟨cs, rfl⟩ := h.escape_head
  exact hc (List.cons_prefix_cons.1 hprefix).1.symm

theorem stripAnsi_keep {c : Char} (hc : c ≠ '\x1b') (rest : List Char) :
    stripAnsi (c :: rest) = c :: stripAnsi rest :=
  stripAnsi_other fun _ hp => hp.not_prefix hc rest

theorem stripAnsi_drop {p : List Char} (hp : AnsiSequence p) (rest : List Char) :
    stripAnsi (p ++ rest) = stripAnsi rest := by
  have hfound := escapeLength_sequence hp rest
  obtain ⟨cs, rfl⟩ := hp.escape_head
  rw [List.cons_append] at hfound ⊢
  rw [stripAnsi, stripAnsiFrom, hfound]
  exact stripAnsiFrom_skip cs rest

/-- **Stripping undoes the sequences** put anywhere between the characters of a text without escapes. -/
theorem stripAnsi_sprinkled {base raw : List Char} (h : Sprinkled AnsiSequence base raw) (hplain : '\x1b' ∉ base)
    (rest : List Char) : stripAnsi (raw ++ rest) = base ++ stripAnsi rest :=
  h.cleaned (fun _ hc => stripAnsi_keep fun heq => hplain (heq ▸ hc)) (fun _ hp => stripAnsi_drop hp) rest

theorem stripAnsi_plain {cs : List Char} (hplain : '\x1b' ∉ cs) : stripAnsi cs = cs := by
  have h := stripAnsi_sprinkled (.refl cs) hplain []
  rwa [List.append_nil, show stripAnsi [] = [] from rfl, List.append_nil] at h

/-- `raw` is `base` with complete sequences put in, and these are all there are: none starts at a character of `base` -/
inductive Escaped : List Char → List Char → Prop
  | nil : Escaped [] []
  | keep (c : Char) {base raw : List Char} : (∀ p, AnsiSequence p → ¬ p <+: c :: raw) → Escaped base raw →
      Escaped (c :: base) (c :: raw)
  | piece {p base raw : List Char} : AnsiSequence p → Escaped base raw → Escaped base (p ++ raw)

/-- a text without escape characters may take a sequence anywhere -/
theorem escaped_of_sprinkled {base raw : List Char} (h : Sprinkled AnsiSequence base raw) (hplain : '\x1b' ∉ base) :
    Escaped base raw := by
  induction h with
  | nil => exact .nil
  | keep c _ ih =>
    rw [List.mem_cons, not_or] at hplain
    exact .keep c (fun _ hp => hp.not_prefix (Ne.symm hplain.1) _) (ih hplain.2)
  | piece hp _ ih => exact .piece hp (ih hplain)

theorem Escaped.stripAnsi_eq {base raw : List Char} (h : Escaped base raw) : stripAnsi raw = base := by
  induction h with
  | nil => rfl
  | keep c hc _ ih => rw [stripAnsi_other hc, ih]
  | piece hp _ ih => rw [stripAnsi_drop hp, ih]

/-- what a sequence takes before a newline it takes without what follows -/
theorem escapeLength_line {a : List Char} (ha : '\n' ∉ a) (b : List Char) : escapeLength (a ++ '\n' :: b) = escapeLength a := by
  refine Option.ext fun n => ?_
  rw [escapeLength_iff, escapeLength_iff]
  constructor
  · rintro ⟨p, rest, hsplit, hp, rfl⟩
    rcases List.append_eq_append_iff.1 hsplit with ⟨more, hmore, hrest⟩ | ⟨more, hmore, -⟩
    · cases more with
      | nil => exact ⟨p, [], by rw [hmore, List.append_nil, List.append_nil], hp, rfl⟩
      | cons d more =>
        -- a sequence that reached over the newline would hold it
        obtain ⟨rfl, -⟩ := List.cons.inj hrest
        exact absurd (hmore ▸ List.mem_append_right _ List.mem_cons_self) hp.newline_not_mem
    · exact ⟨p, more, hmore, hp, rfl⟩
  · rintro ⟨p, rest, rfl, hp, rfl⟩
    exact ⟨p, rest ++ '\n' :: b, List.append_assoc .., hp, rfl⟩

/-- a line before a newline is stripped by itself -/
theorem stripAnsiFrom_newline {a : List Char} (ha : '\n' ∉ a) {skip : ℕ} (hskip : skip ≤ a.length) (b : List Char) :
    stripAnsiFrom skip (a ++ '\n' :: b) = stripAnsiFrom skip a ++ '\n' :: stripAnsi b := by
  induction a generalizing skip with
  | nil =>
    obtain rfl : skip = 0 := Nat.le_zero.1 hskip
    exact stripAnsi_keep (by decide) b
  | cons c a ih =>
    have hline := escapeLength_line ha b
    rw [List.mem_cons, not_or] at ha
    cases skip with
    | succ skip => exact ih ha.2 (Nat.le_of_succ_le_succ hskip)
    | zero =>
      rw [List.cons_append] at hline ⊢
      rw [stripAnsiFrom, stripAnsiFrom, hline]
      cases hf : escapeLength (c :: a) with
      | none => exact congrArg (c :: ·) (ih ha.2 (Nat.zero_le _))
      | some n =>
        obtain ⟨p, rest, hsplit, -, rfl⟩ := escapeLength_iff.1 hf
        refine ih ha.2 ?_
        have := congrArg List.length hsplit
        rw [List.length_append, List.length_cons] at this
        omega

theorem stripAnsi_newline {a : List Char} (ha : '\n' ∉ a) (b : List Char) :
    stripAnsi (a ++ '\n' :: b) = stripAnsi a ++ '\n' :: stripAnsi b :=
  stripAnsiFrom_newline ha (Nat.zero_le _) b

/-- what is left was there -/
theorem mem_of_mem_stripAnsiFrom {skip : ℕ} {cs : List Char} {c : Char} (h : c ∈ stripAnsiFrom skip cs) : c ∈ cs := by
  induction cs generalizing skip with
  | nil => cases skip <;> exact h
  | cons d cs ih =>
    cases skip with
    | succ skip => exact List.mem_cons_of_mem d (ih h)
    | zero =>
      rw [stripAnsiFrom] at h
      split at h
      · exact List.mem_cons_of_mem d (ih h)
      · rcases List.mem_cons.1 h with rfl | h
        · exact List.mem_cons_self
        · exact List.mem_cons_of_mem d (ih h)

end DrtmTest.Ansi
