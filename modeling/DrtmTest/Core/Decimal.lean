/-
Numbers as decimal text, in both directions.

- `zeroPadded`: `f"{n:0{w}d}"`. Its characters are decimal digits that spell the number (`number_zeroPadded`), `w` of them
  where the number has no more (`zeroPadded_length`).
- `int`: Python's `int` of a text, `none` for `ValueError`. It undoes `str` of a number up to the limit on the digits
  (`int_toDigits`).
- `str`: Python's `str` of a number, with the same limit.
-/
import DrtmTest.Core.Text

namespace DrtmTest.Decimal

open DrtmTest.Text

/-! ## Digits -/

theorem decimalVal_digitChar {d : ℕ} (h : d < 10) : decimalVal d.digitChar = some d := by
  interval_cases d <;> rfl

theorem number_snoc (cs : List Char) (c : Char) : number (cs ++ [c]) = 10 * number cs + (decimalVal c).getD 0 := by
  rw [number, List.foldl_append]
  rfl

theorem number_zeros (k : ℕ) (cs : List Char) : number (List.replicate k '0' ++ cs) = number cs := by
  induction k with
  | zero => rfl
  | succ k ih => exact ih

theorem isDecimal_toDigits {n : ℕ} {c : Char} (h : c ∈ Nat.toDigits 10 n) : isDecimal c = true := by
  induction n using Nat.strong_induction_on with
  | _ n ih =>
    by_cases hn : n < 10
    · rw [Nat.toDigits_of_lt_base hn, List.mem_singleton] at h
      rw [h, isDecimal, decimalVal_digitChar hn]
      rfl
    · rw [Nat.toDigits_of_base_le (by norm_num) (Nat.le_of_not_lt hn), List.mem_append, List.mem_singleton] at h
      rcases h with h | h
      · exact ih (n / 10) (Nat.div_lt_self (by omega) (by norm_num)) h
      · rw [h, isDecimal, decimalVal_digitChar (Nat.mod_lt n (by norm_num))]
        rfl

theorem number_toDigits (n : ℕ) : number (Nat.toDigits 10 n) = n := by
  induction n using Nat.strong_induction_on with
  | _ n ih =>
    by_cases hn : n < 10
    · rw [Nat.toDigits_of_lt_base hn, ← List.nil_append [n.digitChar], number_snoc, decimalVal_digitChar hn]
      exact Nat.zero_add n
    · have hlast : decimalVal (n % 10).digitChar = some (n % 10) := decimalVal_digitChar (Nat.mod_lt n (by norm_num))
      rw [Nat.toDigits_of_base_le (by norm_num) (Nat.le_of_not_lt hn), number_snoc,
        ih (n / 10) (Nat.div_lt_self (by omega) (by norm_num)), hlast]
      exact Nat.div_add_mod n 10

/-! ## A number at a fixed width -/

/-- `f"{n:0{width}d}"` -/
def zeroPadded (width n : ℕ) : List Char :=
  List.replicate (width - (Nat.toDigits 10 n).length) '0' ++ Nat.toDigits 10 n

theorem isDecimal_zeroPadded {width n : ℕ} {c : Char} (h : c ∈ zeroPadded width n) : isDecimal c = true := by
  rcases List.mem_append.1 h with h | h
  · rw [List.eq_of_mem_replicate h]
    decide
  · exact isDecimal_toDigits h

theorem number_zeroPadded (width n : ℕ) : number (zeroPadded width n) = n := by
  rw [zeroPadded, number_zeros, number_toDigits]

theorem zeroPadded_length {width n : ℕ} (hwidth : 0 < width) (hn : n < 10 ^ width) : (zeroPadded width n).length = width := by
  have hle := (Nat.length_toDigits_le_iff (by norm_num) hwidth).2 hn
  rw [zeroPadded, List.length_append, List.length_replicate]
  omega

/-! ## `int` -/

/-- what `int` skips around a number: it has the separators 0x1C to 0x1F for no blanks -/
def isIntSpace (c : Char) : Bool := isSpace c && !(28 ≤ c.toNat && c.toNat ≤ 31)

/-- the digits of a numeral, single underscores between them left out -/
def numeral : List Char → Option (List Char)
  | [] => none
  | [c] => if isDecimal c then some [c] else none
  | c :: '_' :: cs => if isDecimal c then (numeral cs).map (c :: ·) else none
  | c :: cs => if isDecimal c then (numeral cs).map (c :: ·) else none

/-- the number of a numeral that has at most `limit` digits -/
def natural (limit : ℕ) (cs : List Char) : Option ℕ :=
  (numeral cs).bind fun digits => if digits.length ≤ limit then some (number digits) else none

/-- `int` of a text, `none` for `ValueError` -/
def int (limit : ℕ) (text : List Char) : Option ℤ :=
  match stripOf isIntSpace text with
  | '-' :: cs => (natural limit cs).map fun n => -(n : ℤ)
  | '+' :: cs => (natural limit cs).map fun n => (n : ℤ)
  | cs => (natural limit cs).map fun n => (n : ℤ)

/-- `str` of a number, `none` for `ValueError` -/
def str (limit : ℕ) (n : ℤ) : Option String :=
  if (Nat.toDigits 10 n.natAbs).length ≤ limit then some (toString n) else none

theorem numeral_decimals {cs : List Char} (hne : cs ≠ []) (h : ∀ c ∈ cs, isDecimal c = true) : numeral cs = some cs := by
  induction cs with
  | nil => exact absurd rfl hne
  | cons c cs ih =>
    have hc : isDecimal c = true := h c List.mem_cons_self
    cases cs with
    | nil => rw [numeral, if_pos hc]
    | cons d cs =>
      have hd : d ≠ '_' := by
        rintro rfl
        exact absurd (h '_' (List.mem_cons_of_mem c List.mem_cons_self)) (by decide)
      have hrest := ih (List.cons_ne_nil d cs) fun e he => h e (List.mem_cons_of_mem c he)
      rw [numeral, if_pos hc, hrest]
      · rfl
      · exact List.cons_ne_nil d cs
      · exact fun _ heq => hd (List.cons.inj heq).1

theorem not_isIntSpace {c : Char} (h : isDecimal c = true) : ¬ isIntSpace c = true := by
  intro hs
  exact not_space_of_decimal h (Bool.and_eq_true .. ▸ hs).1

/-- a numeral without blanks around it -/
theorem int_decimals {cs : List Char} (hne : cs ≠ []) (h : ∀ c ∈ cs, isDecimal c = true) (limit : ℕ) :
    int limit cs = if cs.length ≤ limit then some (number cs : ℤ) else none := by
  have hkeep : stripOf isIntSpace cs = cs :=
    stripOf_eq_self fun c hc => Bool.eq_false_iff.2 (not_isIntSpace (h c hc))
  obtain ⟨c, ds, rfl⟩ := List.exists_cons_of_ne_nil hne
  have hminus : c ≠ '-' := by
    rintro rfl
    exact absurd (h '-' List.mem_cons_self) (by decide)
  have hplus : c ≠ '+' := by
    rintro rfl
    exact absurd (h '+' List.mem_cons_self) (by decide)
  rw [int, hkeep]
  split
  · rename_i heq
    exact absurd (List.cons.inj heq).1 hminus
  · rename_i heq
    exact absurd (List.cons.inj heq).1 hplus
  · rw [natural, numeral_decimals hne h, Option.bind_some]
    split_ifs <;> rfl

/-- **`int` undoes `str`** of a number that has no more digits than the limit, and refuses a longer one. -/
theorem int_toDigits (limit n : ℕ) :
    int limit (Nat.toDigits 10 n) = if (Nat.toDigits 10 n).length ≤ limit then some (n : ℤ) else none := by
  rw [int_decimals Nat.toDigits_ne_nil (fun _ => isDecimal_toDigits), number_toDigits]

end DrtmTest.Decimal
