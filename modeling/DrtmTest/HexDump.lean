/-
The hex dumps read off the console the hypervisor writes to as well.

`XenLine` is one complete line of the hypervisor, `DumpNoise` what may come between the digits of a dump: a blank or such a
line, whose text may be anything, more digits and another tag included.

- `removeXenLines_drop`: a hypervisor line goes, up to its newline, whatever follows.
- `joined_digits`: so the digits of a noisy dump come back, and only they.
- `hexDump_noisy`: `hex_dump` undoes the noise, and refuses a dump that lost a digit.
-/
import DrtmTest.Console
import DrtmTest.Core.Noise

namespace DrtmTest.HexDump

open DrtmTest.Text DrtmTest.Console DrtmTest.Noise

/-- a complete line of the hypervisor -/
inductive XenLine : List Char → Prop
  | line (text : List Char) : '\n' ∉ text → XenLine (xenTag ++ text ++ ['\n'])

inductive DumpNoise : List Char → Prop
  | blank (c : Char) : isSpace c = true → DumpNoise [c]
  | xen (p : List Char) : XenLine p → DumpNoise p

/-- a hex digit for `n` in either case -/
def IsDigit (n : ℕ) (c : Char) : Prop := c = Nat.digitChar n ∨ c = (Nat.digitChar n).toUpper

/-- the two numbers a byte's digits stand for -/
def nibbles (b : Bytes) : List ℕ := b.flatMap fun x => [x.toNat / 16, x.toNat % 16]

/-- the digits spell the bytes, each in either case -/
def Spells (digits : List Char) (b : Bytes) : Prop := List.Forall₂ IsDigit (nibbles b) digits

/-! ## Hypervisor lines -/

theorem removeXenLines_keep {c : Char} (hc : c ≠ '(') (rest : List Char) :
    removeXenLines (c :: rest) = c :: removeXenLines rest := by
  have hno : ¬ xenTag <+: c :: rest := fun h => hc (List.cons_prefix_cons.1 h).1.symm
  rw [removeXenLines, removeXenFrom, if_neg hno]
  rfl

theorem removeXenFrom_dropping {text : List Char} (h : '\n' ∉ text) (rest : List Char) :
    removeXenFrom true (text ++ '\n' :: rest) = '\n' :: removeXenLines rest := by
  induction text with
  | nil => rfl
  | cons c text ih =>
    rw [List.mem_cons, not_or] at h
    rw [List.cons_append, removeXenFrom, if_neg (Ne.symm h.1)]
    exact ih h.2

/-- a hypervisor line goes up to its newline, whatever follows -/
theorem removeXenLines_drop {p : List Char} (hp : XenLine p) (rest : List Char) :
    removeXenLines (p ++ rest) = '\n' :: removeXenLines rest := by
  obtain ⟨text, htext⟩ := hp
  have htag : xenTag <+: xenTag ++ text ++ ['\n'] ++ rest := by
    rw [List.append_assoc, List.append_assoc]
    exact List.prefix_append _ _
  have hline : '\n' ∉ "XEN)".toList ++ text := by
    rw [List.mem_append, not_or]
    exact ⟨by decide, htext⟩
  have hsplit : xenTag ++ text ++ ['\n'] ++ rest = '(' :: (("XEN)".toList ++ text) ++ '\n' :: rest) := by
    rw [show xenTag = '(' :: "XEN)".toList from rfl]
    simp only [List.cons_append, List.append_assoc, List.nil_append]
  rw [hsplit] at htag ⊢
  rw [removeXenLines, removeXenFrom, if_pos htag]
  exact removeXenFrom_dropping hline rest

/-! ## Digits -/

theorem IsDigit.facts {n : ℕ} (hn : n < 16) {c : Char} (h : IsDigit n c) :
    Bytes.digitVal c = some n ∧ isSpace c = false ∧ Bytes.isSpace c = false ∧ c ≠ '(' := by
  rcases h with rfl | rfl <;> interval_cases n <;> decide

theorem nibbles_lt {b : Bytes} {n : ℕ} (h : n ∈ nibbles b) : n < 16 := by
  obtain ⟨x, -, hx⟩ := List.mem_flatMap.1 h
  have := x.toNat_lt
  rcases List.mem_pair.1 hx with rfl | rfl <;> omega

theorem nibbles_length (b : Bytes) : (nibbles b).length = 2 * b.length := by
  induction b with
  | nil => rfl
  | cons x b ih =>
    rw [nibbles, List.flatMap_cons, List.length_append, ← nibbles, ih, List.length_cons]
    simp only [List.length_cons, List.length_nil]
    omega

theorem Spells.digit {digits : List Char} {b : Bytes} (h : Spells digits b) {c : Char} (hc : c ∈ digits) :
    ∃ n < 16, IsDigit n c := by
  obtain ⟨i, hi, rfl⟩ := List.getElem_of_mem hc
  have hlt : i < (nibbles b).length := by rw [h.length_eq]; exact hi
  exact ⟨(nibbles b)[i], nibbles_lt (List.getElem_mem hlt), (List.forall₂_iff_get.1 h).2 i hlt hi⟩

theorem fromHexChars_spells {digits : List Char} {b : Bytes} (h : Spells digits b) : Bytes.fromHexChars digits = some b := by
  induction b generalizing digits with
  | nil => cases h; rfl
  | cons x b ih =>
    have hx := x.toNat_lt
    rcases h with _ | @⟨_, c, _, _, hc, h⟩
    rcases h with _ | @⟨_, d, _, digits, hd, h⟩
    obtain ⟨hhi, -, hblank, -⟩ := hc.facts (by omega)
    obtain ⟨hlo, -⟩ := hd.facts (by omega)
    have hval : UInt8.ofNat (16 * (x.toNat / 16) + x.toNat % 16) = x := by
      rw [Nat.div_add_mod]
      exact UInt8.ofNat_toNat
    simp only [Bytes.fromHexChars, hblank, hhi, hlo, ih h, hval, Option.map_some, Bool.false_eq_true, if_false]

/-- an odd number of digits is refused -/
theorem fromHexChars_odd {digits : List Char} (hblank : ∀ c ∈ digits, Bytes.isSpace c = false)
    (hodd : digits.length % 2 = 1) : Bytes.fromHexChars digits = none := by
  induction digits using Bytes.fromHexChars.induct with
  | case1 => cases hodd
  | case2 c hc => rw [hblank c List.mem_cons_self] at hc; cases hc
  | case3 c hc => rw [Bytes.fromHexChars, if_neg hc]
  | case4 c d cs hc _ => rw [hblank c List.mem_cons_self] at hc; cases hc
  | case5 c d cs hc hi lo hhi hlo ih =>
    have hrest := ih (fun x hx => hblank x (List.mem_cons_of_mem _ (List.mem_cons_of_mem _ hx))) (by
      simp only [List.length_cons] at hodd
      omega)
    simp only [Bytes.fromHexChars, if_neg hc, hhi, hlo, hrest, Option.map_none]
  | case6 c d cs hc hno => simp only [Bytes.fromHexChars, if_neg hc]

/-! ## A noisy dump -/

/-- the digits of a noisy text come back, and only they -/
theorem joined_digits {digits raw : List Char} (h : Sprinkled DumpNoise digits raw)
    (hdigit : ∀ c ∈ digits, isSpace c = false ∧ c ≠ '(') : (removeXenLines raw).filter (fun c => !isSpace c) = digits := by
  have hkeep : ∀ c ∈ digits, ∀ rest, (removeXenLines (c :: rest)).filter (fun c => !isSpace c) =
      c :: (removeXenLines rest).filter (fun c => !isSpace c) := by
    intro c hc rest
    rw [removeXenLines_keep (hdigit c hc).2, List.filter_cons_of_pos (by rw [(hdigit c hc).1]; rfl)]
  have hdrop : ∀ p, DumpNoise p → ∀ rest, (removeXenLines (p ++ rest)).filter (fun c => !isSpace c) =
      (removeXenLines rest).filter (fun c => !isSpace c) := by
    intro p hp rest
    rcases hp with ⟨c, hc⟩ | ⟨_, hp⟩
    · have hparen : c ≠ '(' := by
        rintro rfl
        exact absurd hc (by decide)
      rw [List.singleton_append, removeXenLines_keep hparen, List.filter_cons_of_neg (by rw [hc]; exact Bool.false_ne_true)]
    · rw [removeXenLines_drop hp, List.filter_cons_of_neg (by decide)]
  have hall := h.cleaned (f := fun cs => (removeXenLines cs).filter fun c => !isSpace c) hkeep hdrop []
  rw [List.append_nil] at hall
  exact hall.trans (List.append_nil digits)

/-- **`hex_dump` undoes a noisy dump.** For all bytes, their digits in either case and any blanks and hypervisor lines
anywhere between these, the bytes come back. With one of the digits missing there is a `ValueError`. -/
theorem hexDump_noisy (b : Bytes) (digits : List Char) (hdigits : Spells digits b) (raw : List Char) :
    (Sprinkled DumpNoise digits raw → hexDump raw = some b) ∧
      ∀ i < digits.length, Sprinkled DumpNoise (digits.eraseIdx i) raw → hexDump raw = none := by
  have hclass : ∀ c ∈ digits, isSpace c = false ∧ c ≠ '(' := fun c hc => by
    obtain ⟨n, hn, hd⟩ := hdigits.digit hc
    exact ⟨(hd.facts hn).2.1, (hd.facts hn).2.2.2⟩
  refine ⟨fun h => ?_, fun i hi h => ?_⟩
  · rw [hexDump, joined_digits h hclass, fromHexChars_spells hdigits]
  · have hkept : ∀ c ∈ digits.eraseIdx i, c ∈ digits := fun c hc => (List.eraseIdx_sublist digits i).subset hc
    rw [hexDump, joined_digits h fun c hc => hclass c (hkept c hc)]
    refine fromHexChars_odd (fun c hc => ?_) ?_
    · obtain ⟨n, hn, hd⟩ := hdigits.digit (hkept c hc)
      exact (hd.facts hn).2.2.1
    · have hlength := nibbles_length b
      rw [hdigits.length_eq] at hlength
      rw [List.length_eraseIdx_of_lt hi]
      omega

/-- a dump with the hypervisor's watchdog between the two digits of a byte -/
def splitByte : List Char := "00f(XEN) [  108.008517] uart interrupt taking more than 4ms (0xff)\nF 10".toList

theorem hexDump_noisy_split_byte :
    hexDump splitByte = some [0x00, 0xFF, 0x10] ∧ hexDump (splitByte.eraseIdx 0) = none := by
  have hdigits : Spells ['0', '0', 'f', 'F', '1', '0'] [0x00, 0xFF, 0x10] :=
    .cons (Or.inl rfl) (.cons (Or.inl rfl) (.cons (Or.inl rfl) (.cons (Or.inr rfl) (.cons (Or.inl rfl)
      (.cons (Or.inl rfl) .nil)))))
  have hline : XenLine (xenTag ++ " [  108.008517] uart interrupt taking more than 4ms (0xff)".toList ++ ['\n']) :=
    .line _ (by decide +kernel)
  have hnoise : Sprinkled DumpNoise ['F', '1', '0']
      (xenTag ++ " [  108.008517] uart interrupt taking more than 4ms (0xff)".toList ++ ['\n'] ++ ['F', ' ', '1', '0']) :=
    .piece (DumpNoise.xen _ hline) (.keep 'F' (.piece (DumpNoise.blank ' ' (by decide)) (.refl _)))
  have htext : splitByte = '0' :: '0' :: 'f' ::
      (xenTag ++ " [  108.008517] uart interrupt taking more than 4ms (0xff)".toList ++ ['\n'] ++ ['F', ' ', '1', '0']) := by
    decide +kernel
  rw [htext]
  exact ⟨(hexDump_noisy _ _ hdigits _).1 (.keep '0' (.keep '0' (.keep 'f' hnoise))),
    (hexDump_noisy _ _ hdigits _).2 0 (by decide) (.keep '0' (.keep 'f' hnoise))⟩

end DrtmTest.HexDump
