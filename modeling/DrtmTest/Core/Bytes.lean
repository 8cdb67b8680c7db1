/-
Byte strings: slices, little-endian integers read at an offset, and their spelling in hex digits.

- `slice`, `unpackFrom`: `raw[a:b]` clamps to the end of the buffer, a read of an integer past the end fails.
- `Holds raw off b`: the bytes `b` stand in `raw` at `off`. `holds_append` splits what stands at an offset, and
  `unpackFrom_of_holds`, `slice_of_holds` read one piece of it; a parser's proof walks an encoding with these three.
- `toHex`, `fromHex`: two lower-case digits a byte, and the reading of digits in either case with blanks between pairs
  (`fromHex_toHex`).
- `hexNat`: a number in hex digits (`hexNat_injective`).
-/
import Mathlib.Data.List.Infix
import Mathlib.Tactic

namespace DrtmTest

abbrev Bytes := List UInt8

namespace Bytes

/-! ## Little-endian integers -/

/-- the `w` low bytes of `n`, the lowest first -/
def le : ℕ → ℕ → Bytes
  | 0, _ => []
  | w + 1, n => UInt8.ofNat (n % 256) :: le w (n / 256)

def ofLe : Bytes → ℕ
  | [] => 0
  | b :: bs => b.toNat + 256 * ofLe bs

@[simp] theorem le_length (w n : ℕ) : (le w n).length = w := by
  induction w generalizing n with
  | zero => rfl
  | succ w ih => simp [le, ih]

theorem ofLe_le (w n : ℕ) (h : n < 256 ^ w) : ofLe (le w n) = n := by
  induction w generalizing n with
  | zero => simp at h; simp [le, ofLe, h]
  | succ w ih =>
    have hd : n / 256 < 256 ^ w := by
      rw [Nat.div_lt_iff_lt_mul (by norm_num), ← pow_succ]
      exact h
    have hb : (UInt8.ofNat (n % 256)).toNat = n % 256 := UInt8.toNat_ofNat_of_lt' (Nat.mod_lt n (by norm_num))
    rw [le, ofLe, ih _ hd, hb]
    omega

theorem ofLe_lt (b : Bytes) : ofLe b < 256 ^ b.length := by
  induction b with
  | nil => exact Nat.one_pos
  | cons x b ih =>
    have hx : x.toNat < 256 := x.toNat_lt
    rw [ofLe, List.length_cons, pow_succ]
    omega

theorem le_ofLe (b : Bytes) : le b.length (ofLe b) = b := by
  induction b with
  | nil => rfl
  | cons x b ih =>
    have hx : x.toNat < 256 := x.toNat_lt
    have hmod : (x.toNat + 256 * ofLe b) % 256 = x.toNat := by omega
    have hdiv : (x.toNat + 256 * ofLe b) / 256 = ofLe b := by omega
    rw [List.length_cons, ofLe, le, hmod, hdiv, ih, UInt8.ofNat_toNat]

/-! ## Slices and reads at an offset -/

/-- `raw[a:b]`, for `a` and `b` not negative -/
def slice (raw : Bytes) (a b : ℕ) : Bytes := (raw.drop a).take (b - a)

/-- the `w`-byte little-endian integer at `off`, `none` when the buffer ends before it -/
def unpackFrom (w : ℕ) (raw : Bytes) (off : ℕ) : Option ℕ :=
  if off + w ≤ raw.length then some (ofLe (slice raw off (off + w))) else none

/-- the bytes `b` stand in `raw` at `off` -/
def Holds (raw : Bytes) (off : ℕ) (b : Bytes) : Prop := b <+: raw.drop off

theorem holds_zero (b post : Bytes) : Holds (b ++ post) 0 b := List.prefix_append b post

theorem holds_append {raw : Bytes} {off : ℕ} {a b : Bytes} :
    Holds raw off (a ++ b) ↔ Holds raw off a ∧ Holds raw (off + a.length) b := by
  unfold Holds
  constructor
  · rintro ⟨post, h⟩
    refine ⟨⟨b ++ post, by rw [← h, List.append_assoc]⟩, post, ?_⟩
    rw [← List.drop_drop, ← h, List.append_assoc, List.drop_left]
  · rintro ⟨⟨post, h⟩, post', h'⟩
    rw [← List.drop_drop, ← h, List.drop_left] at h'
    exact ⟨post', by rw [← h, ← h', List.append_assoc]⟩

theorem Holds.length_le {raw : Bytes} {off : ℕ} {b : Bytes} (h : Holds raw off b) (hb : b ≠ []) :
    off + b.length ≤ raw.length := by
  have := List.IsPrefix.length_le h
  have hpos := List.length_pos_iff.2 hb
  rw [List.length_drop] at this
  omega

theorem slice_of_holds {raw : Bytes} {off : ℕ} {b : Bytes} (h : Holds raw off b) :
    slice raw off (off + b.length) = b := by
  obtain ⟨post, h⟩ := h
  rw [slice, ← h, Nat.add_sub_cancel_left, List.take_left]

theorem unpackFrom_of_holds {raw : Bytes} {off w n : ℕ} (h : Holds raw off (le w n)) (hw : 0 < w) (hn : n < 256 ^ w) :
    unpackFrom w raw off = some n := by
  have hne : le w n ≠ [] := fun hnil => by have := congrArg List.length hnil; simp at this; omega
  have hlen := h.length_le hne
  have hs := slice_of_holds h
  rw [le_length] at hlen hs
  rw [unpackFrom, if_pos hlen, hs, ofLe_le w n hn]

theorem slice_length (raw : Bytes) (a b : ℕ) : (slice raw a b).length = min (b - a) (raw.length - a) := by
  rw [slice, List.length_take, List.length_drop]

/-- a slice that ends inside a buffer is that of every longer buffer -/
theorem slice_extend {raw whole : Bytes} (h : raw <+: whole) {a b : ℕ} (hb : b ≤ raw.length) :
    slice raw a b = slice whole a b := by
  obtain ⟨post, hpost⟩ := h
  subst hpost
  by_cases ha : a ≤ raw.length
  · rw [slice, slice, List.drop_append_of_le_length ha, List.take_append_of_le_length]
    rw [List.length_drop]
    omega
  · rw [slice, slice, show b - a = 0 by omega, List.take_zero, List.take_zero]

theorem unpackFrom_extend {raw whole : Bytes} (h : raw <+: whole) {w off n : ℕ} (hr : unpackFrom w raw off = some n) :
    unpackFrom w whole off = some n := by
  unfold unpackFrom at hr ⊢
  split_ifs at hr with hlen
  have := h.length_le
  rw [if_pos (by omega), ← slice_extend h hlen]
  exact hr

/-! ## Hex digits -/

/-- two lower-case digits -/
def hexByte (b : UInt8) : List Char := [Nat.digitChar (b.toNat / 16), Nat.digitChar (b.toNat % 16)]

/-- `bytes.hex()` -/
def toHex (b : Bytes) : String := String.ofList (b.flatMap hexByte)

/-- the value of a hex digit in either case -/
def digitVal (c : Char) : Option ℕ :=
  if '0' ≤ c ∧ c ≤ '9' then some (c.toNat - '0'.toNat)
  else if 'a' ≤ c ∧ c ≤ 'f' then some (c.toNat - 'a'.toNat + 10)
  else if 'A' ≤ c ∧ c ≤ 'F' then some (c.toNat - 'A'.toNat + 10)
  else none

/-- the ASCII blanks: space, tab, newline, vertical tab, form feed, carriage return -/
def isSpace (c : Char) : Bool := c = ' ' ∨ ('\t' ≤ c ∧ c ≤ '\r')

/-- blanks are skipped between bytes, not between the two digits of one -/
def fromHexChars : List Char → Option Bytes
  | [] => some []
  | [c] => if isSpace c then some [] else none
  | c :: d :: cs =>
    if isSpace c then fromHexChars (d :: cs)
    else match digitVal c, digitVal d with
      | some hi, some lo => (fromHexChars cs).map (UInt8.ofNat (16 * hi + lo) :: ·)
      | _, _ => none

/-- `bytes.fromhex`, `none` where it raises `ValueError` -/
def fromHex (s : String) : Option Bytes := fromHexChars s.toList

theorem digitVal_digitChar (n : ℕ) (h : n < 16) : digitVal (Nat.digitChar n) = some n := by
  have : ∀ m : Fin 16, digitVal (Nat.digitChar m) = some m.val := by decide
  exact this ⟨n, h⟩

theorem isSpace_digitChar (n : ℕ) (h : n < 16) : isSpace (Nat.digitChar n) = false := by
  have : ∀ m : Fin 16, isSpace (Nat.digitChar m) = false := by decide
  exact this ⟨n, h⟩

theorem fromHexChars_hexByte (b : UInt8) (cs : List Char) :
    fromHexChars (hexByte b ++ cs) = (fromHexChars cs).map (b :: ·) := by
  have hb := b.toNat_lt
  have hhi : b.toNat / 16 < 16 := by omega
  have hlo : b.toNat % 16 < 16 := by omega
  have hval : UInt8.ofNat (16 * (b.toNat / 16) + b.toNat % 16) = b := by
    rw [Nat.div_add_mod]
    exact UInt8.ofNat_toNat
  simp only [hexByte, List.cons_append, List.nil_append, fromHexChars, isSpace_digitChar _ hhi,
    digitVal_digitChar _ hhi, digitVal_digitChar _ hlo, hval, Bool.false_eq_true, if_false]

/-- **Hex reads back.** -/
theorem fromHex_toHex (b : Bytes) : fromHex (toHex b) = some b := by
  rw [fromHex, toHex, String.toList_ofList]
  induction b with
  | nil => rfl
  | cons x b ih => rw [List.flatMap_cons, fromHexChars_hexByte, ih]; rfl

theorem toHex_length (b : Bytes) : (toHex b).length = 2 * b.length := by
  rw [toHex, String.length_ofList]
  induction b with
  | nil => rfl
  | cons x b ih =>
    rw [List.flatMap_cons, List.length_append, ih, List.length_cons]
    simp [hexByte]
    omega

/-! ## A number in hex -/

/-- the digits of `hex(n)` after its `0x` -/
def hexNat (n : ℕ) : List Char := Nat.toDigits 16 n

theorem hexNat_small (n : ℕ) (h : n < 16) : hexNat n = [Nat.digitChar n] := Nat.toDigits_of_lt_base h

theorem hexNat_step (n : ℕ) (h : 16 ≤ n) : hexNat n = hexNat (n / 16) ++ [Nat.digitChar (n % 16)] := by
  have hd : n % 16 < 16 := Nat.mod_lt n (by norm_num)
  have := Nat.toDigits_append_toDigits (b := 16) (n := n / 16) (d := n % 16) (by norm_num)
    (Nat.div_pos h (by norm_num)) hd
  rw [Nat.div_add_mod, Nat.toDigits_of_lt_base hd] at this
  exact this.symm

theorem hexNat_ne_nil (n : ℕ) : hexNat n ≠ [] := by
  by_cases h : n < 16
  · simp [hexNat_small n h]
  · simp [hexNat_step n (by omega)]

theorem digitChar_injective (m n : ℕ) (hm : m < 16) (hn : n < 16) (h : Nat.digitChar m = Nat.digitChar n) : m = n := by
  have := congrArg digitVal h
  rw [digitVal_digitChar m hm, digitVal_digitChar n hn] at this
  exact Option.some.inj this

theorem hexNat_injective (m n : ℕ) (h : hexNat m = hexNat n) : m = n := by
  induction m using Nat.strong_induction_on generalizing n with
  | _ m ih =>
    have one (a b : ℕ) (ha : a < 16) (hb : 16 ≤ b) : hexNat a ≠ hexNat b := by
      rw [hexNat_small a ha, hexNat_step b hb]
      intro he
      have hnil : [] = hexNat (b / 16) := List.append_inj_left' he rfl
      exact hexNat_ne_nil (b / 16) hnil.symm
    by_cases hm : m < 16 <;> by_cases hn : n < 16
    · rw [hexNat_small m hm, hexNat_small n hn] at h
      exact digitChar_injective m n hm hn (List.cons.inj h).1
    · exact absurd h (one m n hm (by omega))
    · exact absurd h.symm (one n m hn (by omega))
    · rw [hexNat_step m (by omega), hexNat_step n (by omega)] at h
      have hlast := digitChar_injective _ _ (Nat.mod_lt m (by norm_num)) (Nat.mod_lt n (by norm_num))
        (List.cons.inj (List.append_inj_right' h rfl)).1
      have hinit := ih (m / 16) (by omega) (n / 16) (List.append_inj_left' h rfl)
      omega

end Bytes

end DrtmTest
