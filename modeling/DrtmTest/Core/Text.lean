/-
Text and its bytes: UTF-8 in both directions, line splitting and blanks as Python's `str` has them.

- `encode`: `str.encode()`. It is a homomorphism (`encode_append`), empty on the empty text only, and an ASCII byte comes
  from its own character alone (`ascii_mem_encodeChars`), an ASCII text stands where its characters do
  (`split_of_encodeChars`).
- `decodeUtf8`: `bytes.decode()`, `none` where it raises (`decodeUtf8_encode`).
- `decodeReplace`: `bytes.decode("utf-8", "replace")`, one U+FFFD for each maximal piece of an invalid sequence. It undoes
  `encodeChars` (`decodeReplace_encodeChars`).
- `splitlines`: `str.splitlines()`, with all the breaks `str` knows. A newline ends a line whatever follows it
  (`splitlines_newline`).
- `words`: `str.split()`. A blank splits it (`words_append`).
-/
import DrtmTest.Core.Bytes
import Mathlib.Data.List.TakeWhile

namespace DrtmTest.Text

/-! ## Encoding -/

def encodeChars (cs : List Char) : Bytes := cs.flatMap String.utf8EncodeChar

/-- `str.encode()` -/
def encode (s : String) : Bytes := encodeChars s.toList

theorem encodeChars_append (a b : List Char) : encodeChars (a ++ b) = encodeChars a ++ encodeChars b :=
  List.flatMap_append

theorem encode_append (s t : String) : encode (s ++ t) = encode s ++ encode t := by
  rw [encode, String.toList_append, encodeChars_append, encode, encode]

theorem encodeChars_eq_nil {cs : List Char} : encodeChars cs = [] ↔ cs = [] := by
  cases cs with
  | nil => simp [encodeChars]
  | cons c cs => simp [encodeChars, String.utf8EncodeChar_ne_nil]

theorem encode_eq_nil {s : String} : encode s = [] ↔ s = "" := by
  rw [encode, encodeChars_eq_nil, String.toList_eq_nil_iff]

/-- an ASCII byte is in the encoding of its own character alone -/
theorem ascii_mem_encodeChar {c : Char} {b : UInt8} (hb : b.toNat < 128) (h : b ∈ String.utf8EncodeChar c) :
    c.toNat = b.toNat := by
  have hc := c.val.toNat_lt
  have byte (n : ℕ) (hn : n < 256) (hbn : b = UInt8.ofNat n) : n = b.toNat := by
    rw [hbn, UInt8.toNat_ofNat_of_lt' hn]
  change c.val.toNat = b.toNat
  unfold String.utf8EncodeChar at h
  simp only at h
  split_ifs at h
  · rw [List.mem_singleton] at h
    exact byte _ (by omega) h
  · simp only [List.mem_cons, List.not_mem_nil, or_false] at h
    rcases h with h | h <;> have := byte _ (by omega) h <;> omega
  · simp only [List.mem_cons, List.not_mem_nil, or_false] at h
    rcases h with h | h | h <;> have := byte _ (by omega) h <;> omega
  · simp only [List.mem_cons, List.not_mem_nil, or_false] at h
    rcases h with h | h | h | h <;> have := byte _ (by omega) h <;> omega

/-- a character whose encoding has an ASCII character's byte is that character -/
theorem eq_of_mem_encodeChar {c d : Char} (hc : c.toNat < 128) (h : UInt8.ofNat c.toNat ∈ String.utf8EncodeChar d) : d = c := by
  have hbyte : (UInt8.ofNat c.toNat).toNat = c.toNat := UInt8.toNat_ofNat_of_lt' (show c.toNat < 256 by omega)
  have heq := ascii_mem_encodeChar (hbyte.symm ▸ hc) h
  exact Char.toNat_inj.1 (heq.trans hbyte)

theorem ascii_mem_encodeChars {d : Char} (hd : d.toNat < 128) {cs : List Char}
    (h : UInt8.ofNat d.toNat ∈ encodeChars cs) : d ∈ cs := by
  obtain ⟨c, hc, hb⟩ := List.mem_flatMap.1 h
  rwa [← eq_of_mem_encodeChar hd hb]

theorem newline_mem_encodeChars {cs : List Char} (h : (10 : UInt8) ∈ encodeChars cs) : '\n' ∈ cs :=
  ascii_mem_encodeChars (d := '\n') (by decide) h

theorem encodeChars_cons (c : Char) (cs : List Char) : encodeChars (c :: cs) = String.utf8EncodeChar c ++ encodeChars cs :=
  List.flatMap_cons

theorem encodeChar_ascii {c : Char} (h : c.toNat < 128) : String.utf8EncodeChar c = [UInt8.ofNat c.toNat] := by
  have hle : c.val.toNat ≤ 127 := Nat.le_of_lt_succ h
  unfold String.utf8EncodeChar
  simp only [if_pos hle]
  rfl

/-- an ASCII text begins the encoding of a text that it begins -/
theorem prefix_of_encodeChars {pat : List Char} (hpat : ∀ c ∈ pat, c.toNat < 128) {cs : List Char} {b : Bytes}
    (h : encodeChars cs = encodeChars pat ++ b) : pat <+: cs := by
  induction pat generalizing cs with
  | nil => exact List.nil_prefix
  | cons c pat ih =>
    obtain ⟨hc, hpat⟩ := List.forall_mem_cons.1 hpat
    rw [encodeChars_cons, encodeChar_ascii hc, List.singleton_append, List.cons_append] at h
    cases cs with
    | nil => exact absurd h.symm (List.cons_ne_nil _ _)
    | cons d cs =>
      obtain ⟨x, xs, hx⟩ := List.exists_cons_of_ne_nil (String.utf8EncodeChar_ne_nil (c := d))
      rw [encodeChars_cons, hx, List.cons_append, List.cons.injEq] at h
      have hd : d = c := eq_of_mem_encodeChar hc (by
        rw [hx, h.1]
        exact List.mem_cons_self)
      rw [hd, encodeChar_ascii hc] at hx
      obtain ⟨-, rfl⟩ := List.cons.inj hx
      exact List.cons_prefix_cons.2 ⟨hd.symm, ih hpat h.2⟩

/-- **ASCII in UTF-8.** The bytes of an ASCII text stand in an encoding only where its characters stand. -/
theorem split_of_encodeChars {pat : List Char} (hne : pat ≠ []) (hpat : ∀ c ∈ pat, c.toNat < 128) {cs : List Char}
    {a b : Bytes} (h : encodeChars cs = a ++ (encodeChars pat ++ b)) :
    ∃ before behind, cs = before ++ (pat ++ behind) ∧ encodeChars before = a := by
  obtain ⟨p, ps, rfl⟩ := List.exists_cons_of_ne_nil hne
  have hp : p.toNat < 128 := hpat p List.mem_cons_self
  induction cs generalizing a with
  | nil =>
    rw [encodeChars_cons, encodeChar_ascii hp] at h
    exact absurd h.symm (List.append_ne_nil_of_right_ne_nil a (List.cons_ne_nil _ _))
  | cons c cs ih =>
    have hgoon : ∀ a', a = String.utf8EncodeChar c ++ a' → encodeChars cs = a' ++ (encodeChars (p :: ps) ++ b) →
        ∃ before behind, c :: cs = before ++ (p :: ps ++ behind) ∧ encodeChars before = a := by
      intro a' ha hrest
      obtain ⟨before, behind, rfl, rfl⟩ := ih hrest
      exact ⟨c :: before, behind, rfl, ha.symm⟩
    cases a with
    | nil =>
      obtain ⟨behind, hbehind⟩ := prefix_of_encodeChars hpat h
      exact ⟨[], behind, hbehind.symm, rfl⟩
    | cons x a =>
      rw [encodeChars_cons] at h
      rcases List.append_eq_append_iff.1 h with ⟨s, hs, hrest⟩ | ⟨s, hs, hrest⟩
      · exact hgoon s hs hrest
      · cases s with
        | nil => exact hgoon [] (by rw [hs, List.append_nil, List.append_nil]) hrest.symm
        | cons y s =>
          -- inside one character there is no byte of an ASCII one
          rw [encodeChars_cons, encodeChar_ascii hp] at hrest
          obtain ⟨rfl, -⟩ := List.cons.inj hrest
          have hc : c = p := eq_of_mem_encodeChar hp (hs ▸ List.mem_append_right _ List.mem_cons_self)
          rw [hc, encodeChar_ascii hp] at hs
          exact absurd (congrArg List.length hs) (by simp)

/-! ## Decoding -/

/-- `bytes.decode()`, `none` for `UnicodeDecodeError` -/
def decodeUtf8 (b : Bytes) : Option (List Char) := b.toByteArray.utf8Decode?.map Array.toList

theorem decodeUtf8_encode (cs : List Char) : decodeUtf8 (encodeChars cs) = some cs := by
  have h : (encodeChars cs).toByteArray = cs.utf8Encode := rfl
  rw [decodeUtf8, h, List.utf8Decode?_utf8Encode]
  simp

theorem encode_injective : Function.Injective encode := by
  intro s t h
  have hchars : some s.toList = some t.toList := by
    rw [← decodeUtf8_encode s.toList, ← decodeUtf8_encode t.toList]
    exact congrArg decodeUtf8 h
  exact String.toList_inj.1 (Option.some.inj hchars)

/-- a UTF-8 sequence that has begun: how many bytes it still takes, the range of the next one and the bits so far -/
structure Pending where
  need : ℕ
  lo : ℕ
  hi : ℕ
  bits : ℕ

/-- what a byte begins: a character, a sequence, or nothing valid -/
def leadByte (b : ℕ) : Option (Char ⊕ Pending) :=
  if b < 0x80 then some (.inl (Char.ofNat b))
  else if 0xC2 ≤ b ∧ b ≤ 0xDF then some (.inr ⟨1, 0x80, 0xBF, b - 0xC0⟩)
  else if b = 0xE0 then some (.inr ⟨2, 0xA0, 0xBF, 0⟩)
  else if b = 0xED then some (.inr ⟨2, 0x80, 0x9F, 0xD⟩)
  else if 0xE1 ≤ b ∧ b ≤ 0xEF then some (.inr ⟨2, 0x80, 0xBF, b - 0xE0⟩)
  else if b = 0xF0 then some (.inr ⟨3, 0x90, 0xBF, 0⟩)
  else if b = 0xF4 then some (.inr ⟨3, 0x80, 0x8F, 4⟩)
  else if 0xF1 ≤ b ∧ b ≤ 0xF3 then some (.inr ⟨3, 0x80, 0xBF, b - 0xF0⟩)
  else none

def replacement : Char := '\uFFFD'

/-- decoding with the sequence that has begun, if any -/
def decodeReplaceFrom : Option Pending → Bytes → List Char
  | none, [] => []
  | some _, [] => [replacement]
  | pending, b :: bs =>
    let fresh (_ : Unit) : List Char := match leadByte b.toNat with
      | some (.inl c) => c :: decodeReplaceFrom none bs
      | some (.inr p) => decodeReplaceFrom (some p) bs
      | none => replacement :: decodeReplaceFrom none bs
    match pending with
    | none => fresh ()
    | some p =>
      if p.lo ≤ b.toNat ∧ b.toNat ≤ p.hi then
        let bits := 64 * p.bits + (b.toNat - 0x80)
        if p.need = 1 then Char.ofNat bits :: decodeReplaceFrom none bs
        else decodeReplaceFrom (some ⟨p.need - 1, 0x80, 0xBF, bits⟩) bs
      else replacement :: fresh ()

/-- `bytes.decode("utf-8", "replace")` -/
def decodeReplace (b : Bytes) : List Char := decodeReplaceFrom none b

theorem ofNat_toNat_of_lt {n : ℕ} (h : n < 256) : (UInt8.ofNat n).toNat = n := UInt8.toNat_ofNat_of_lt' h

theorem decodeReplaceFrom_lead {n : ℕ} (hn : n < 256) {p : Pending} (h : leadByte n = some (.inr p)) (bs : Bytes) :
    decodeReplaceFrom none (UInt8.ofNat n :: bs) = decodeReplaceFrom (some p) bs := by
  simp only [decodeReplaceFrom, ofNat_toNat_of_lt hn, h]

/-- the last byte of a sequence ends a character -/
theorem decodeReplaceFrom_last {lo hi : ℕ} (bits x : ℕ) (hlo : lo ≤ x % 64 + 128) (hhi : x % 64 + 128 ≤ hi)
    (bs : Bytes) :
    decodeReplaceFrom (some ⟨1, lo, hi, bits⟩) (UInt8.ofNat (x % 64 + 128) :: bs) =
      Char.ofNat (64 * bits + x % 64) :: decodeReplaceFrom none bs := by
  simp only [decodeReplaceFrom, ofNat_toNat_of_lt (show x % 64 + 128 < 256 by omega), if_pos (And.intro hlo hhi),
    if_true, Nat.add_sub_cancel]

/-- a byte before the last adds its six bits -/
theorem decodeReplaceFrom_more {lo hi : ℕ} (need bits x : ℕ) (hlo : lo ≤ x % 64 + 128) (hhi : x % 64 + 128 ≤ hi)
    (bs : Bytes) :
    decodeReplaceFrom (some ⟨need + 2, lo, hi, bits⟩) (UInt8.ofNat (x % 64 + 128) :: bs) =
      decodeReplaceFrom (some ⟨need + 1, 128, 191, 64 * bits + x % 64⟩) bs := by
  simp only [decodeReplaceFrom, ofNat_toNat_of_lt (show x % 64 + 128 < 256 by omega), if_pos (And.intro hlo hhi),
    if_neg (show ¬ need + 2 = 1 by omega), Nat.add_sub_cancel]
  rfl

/-- the first byte of a sequence of three -/
theorem leadByte_three {n : ℕ} (hn : n < 16) : ∃ lo hi, leadByte (n + 0xE0) = some (.inr ⟨2, lo, hi, n⟩) ∧
    lo ≤ 160 ∧ (n ≠ 0 → lo = 128) ∧ 159 ≤ hi ∧ (n ≠ 13 → hi = 191) := by
  interval_cases n <;> exact ⟨_, _, rfl, by decide, by decide, by decide, by decide⟩

/-- the first byte of a sequence of four -/
theorem leadByte_four {n : ℕ} (hn : n < 5) : ∃ lo hi, leadByte (n + 0xF0) = some (.inr ⟨3, lo, hi, n⟩) ∧
    lo ≤ 144 ∧ (n ≠ 0 → lo = 128) ∧ 143 ≤ hi ∧ (n ≠ 4 → hi = 191) := by
  interval_cases n <;> exact ⟨_, _, rfl, by decide, by decide, by decide, by decide⟩

theorem decodeReplaceFrom_encodeChar (c : Char) (bs : Bytes) :
    decodeReplaceFrom none (String.utf8EncodeChar c ++ bs) = c :: decodeReplaceFrom none bs := by
  have hvalid : c.val.toNat < 0xD800 ∨ 0xDFFF < c.val.toNat ∧ c.val.toNat < 0x110000 := c.valid
  have hchar : ∀ n, n = c.val.toNat → Char.ofNat n = c := fun n h => h ▸ Char.ofNat_toNat c
  unfold String.utf8EncodeChar
  generalize c.val.toNat = v at hvalid hchar
  simp only
  split_ifs with h1 h2 h3
  · have hlead : leadByte v = some (.inl (Char.ofNat v)) := by rw [leadByte, if_pos (by omega)]
    simp only [List.cons_append, List.nil_append, decodeReplaceFrom, ofNat_toNat_of_lt (show v < 256 by omega), hlead,
      hchar v rfl]
  · have hlead : leadByte (v / 64 % 0x20 + 0xc0) = some (.inr ⟨1, 0x80, 0xBF, v / 64⟩) := by
      rw [leadByte, if_neg (by omega), if_pos (by omega), show v / 64 % 0x20 + 0xc0 - 0xC0 = v / 64 by omega]
    rw [List.cons_append, decodeReplaceFrom_lead (by omega) hlead, List.cons_append, List.nil_append,
      decodeReplaceFrom_last _ v (by omega) (by omega), hchar _ (by omega)]
  · obtain ⟨lo, hi, hlead, hlo, hlo', hhi, hhi'⟩ := leadByte_three (Nat.mod_lt (v / 4096) (by decide))
    rw [List.cons_append, decodeReplaceFrom_lead (by omega) hlead, List.cons_append, List.cons_append, List.nil_append,
      decodeReplaceFrom_more 0 _ (v / 64) (by omega) (by omega), decodeReplaceFrom_last _ v (by omega) (by omega),
      hchar _ (by omega)]
  · obtain ⟨lo, hi, hlead, hlo, hlo', hhi, hhi'⟩ := leadByte_four (show v / 262144 % 8 < 5 by omega)
    rw [List.cons_append, decodeReplaceFrom_lead (by omega) hlead, List.cons_append, List.cons_append, List.cons_append,
      List.nil_append, decodeReplaceFrom_more 1 _ (v / 4096) (by omega) (by omega),
      decodeReplaceFrom_more 0 _ (v / 64) (by omega) (by omega), decodeReplaceFrom_last _ v (by omega) (by omega),
      hchar _ (by omega)]

/-- Decoding undoes encoding. -/
theorem decodeReplace_encodeChars (cs : List Char) : decodeReplace (encodeChars cs) = cs := by
  induction cs with
  | nil => rfl
  | cons c cs ih => exact (decodeReplaceFrom_encodeChar c (encodeChars cs)).trans (congrArg (c :: ·) ih)

/-! ## Blanks and lines -/

/-- `str.isspace` of one character -/
def isSpace (c : Char) : Bool :=
  let n := c.toNat
  (9 ≤ n ∧ n ≤ 13) ∨ (28 ≤ n ∧ n ≤ 32) ∨ n = 0x85 ∨ n = 0xA0 ∨ n = 0x1680 ∨ (0x2000 ≤ n ∧ n ≤ 0x200A) ∨ n = 0x2028 ∨
    n = 0x2029 ∨ n = 0x202F ∨ n = 0x205F ∨ n = 0x3000

/-- the zeros of the decimal digits, each with its nine others behind it -/
def decimalZeros : List ℕ :=
  [0x30, 0x660, 0x6F0, 0x7C0, 0x966, 0x9E6, 0xA66, 0xAE6, 0xB66, 0xBE6, 0xC66, 0xCE6, 0xD66, 0xDE6, 0xE50, 0xED0, 0xF20,
    0x1040, 0x1090, 0x17E0, 0x1810, 0x1946, 0x19D0, 0x1A80, 0x1A90, 0x1B50, 0x1BB0, 0x1C40, 0x1C50, 0xA620, 0xA8D0, 0xA900,
    0xA9D0, 0xA9F0, 0xAA50, 0xABF0, 0xFF10, 0x104A0, 0x10D30, 0x11066, 0x110F0, 0x11136, 0x111D0, 0x112F0, 0x11450, 0x114D0,
    0x11650, 0x116C0, 0x11730, 0x118E0, 0x11950, 0x11C50, 0x11D50, 0x11DA0, 0x11F50, 0x16A60, 0x16AC0, 0x16B50, 0x1D7CE,
    0x1D7D8, 0x1D7E2, 0x1D7EC, 0x1D7F6, 0x1E140, 0x1E2F0, 0x1E4F0, 0x1E950, 0x1FBF0]

/-- the value of a decimal digit of any script, as `int` and `\d` have them -/
def decimalVal (c : Char) : Option ℕ :=
  (decimalZeros.find? fun z => z ≤ c.toNat ∧ c.toNat ≤ z + 9).map (c.toNat - ·)

def isDecimal (c : Char) : Bool := (decimalVal c).isSome

/-- the number decimal digits spell -/
def number (ds : List Char) : ℕ := ds.foldl (fun n c => 10 * n + (decimalVal c).getD 0) 0

theorem isDecimal_iff {c : Char} : isDecimal c = true ↔ ∃ z ∈ decimalZeros, z ≤ c.toNat ∧ c.toNat ≤ z + 9 := by
  rw [isDecimal, decimalVal, Option.isSome_map, List.find?_isSome]
  simp only [decide_eq_true_eq]

/-- no decimal digit stands between two codes that lie between two rows of digits -/
theorem isDecimal_between {c : Char} (lo hi : ℕ) (hrows : ∀ z ∈ decimalZeros, z + 9 < lo ∨ hi < z) (hlo : lo ≤ c.toNat)
    (hhi : c.toNat ≤ hi) : isDecimal c = false := by
  by_contra h
  obtain ⟨z, hz, hle, hge⟩ := isDecimal_iff.1 (eq_true_of_ne_false h)
  have := hrows z hz
  omega

theorem isDecimal_of_isSpace {c : Char} (h : isSpace c = true) : isDecimal c = false := by
  simp only [isSpace, decide_eq_true_eq] at h
  rcases h with h | h | h | h | h | h | h | h | h | h | h
  · exact isDecimal_between 9 13 (by decide) h.1 h.2
  · exact isDecimal_between 28 32 (by decide) h.1 h.2
  · exact isDecimal_between 0x85 0x85 (by decide) h.ge h.le
  · exact isDecimal_between 0xA0 0xA0 (by decide) h.ge h.le
  · exact isDecimal_between 0x1680 0x1680 (by decide) h.ge h.le
  · exact isDecimal_between 0x2000 0x200A (by decide) h.1 h.2
  · exact isDecimal_between 0x2028 0x2028 (by decide) h.ge h.le
  · exact isDecimal_between 0x2029 0x2029 (by decide) h.ge h.le
  · exact isDecimal_between 0x202F 0x202F (by decide) h.ge h.le
  · exact isDecimal_between 0x205F 0x205F (by decide) h.ge h.le
  · exact isDecimal_between 0x3000 0x3000 (by decide) h.ge h.le

theorem not_space_of_decimal {c : Char} (h : isDecimal c = true) : ¬ isSpace c = true := fun hs => by
  rw [isDecimal_of_isSpace hs] at h
  cases h

/-- `str.strip()` -/
def strip (cs : List Char) : List Char := ((cs.dropWhile isSpace).reverse.dropWhile isSpace).reverse

/-- `str.strip(chars)`, for the characters of `p` -/
def stripOf (p : Char → Bool) (cs : List Char) : List Char := ((cs.dropWhile p).reverse.dropWhile p).reverse

/-- what is behind the run at the head -/
theorem drop_takeWhile (p : Char → Bool) (cs : List Char) : cs.drop (cs.takeWhile p).length = cs.dropWhile p := by
  have h : (cs.takeWhile p ++ cs.dropWhile p).drop (cs.takeWhile p).length = cs.dropWhile p := List.drop_left
  rwa [List.takeWhile_append_dropWhile] at h

theorem takeWhile_stop {p : Char → Bool} {z : Char} (hz : p z = false) (s b : List Char) :
    (s ++ z :: b).takeWhile p = s.takeWhile p := by
  induction s with
  | nil => rw [List.nil_append, List.takeWhile_cons_of_neg (by rw [hz]; exact Bool.false_ne_true)]; rfl
  | cons c s ih =>
    rw [List.cons_append, List.takeWhile_cons, List.takeWhile_cons, ih]

theorem dropWhile_stop {p : Char → Bool} {z : Char} (hz : p z = false) (s b : List Char) :
    (s ++ z :: b).dropWhile p = s.dropWhile p ++ z :: b := by
  induction s with
  | nil => rw [List.nil_append, List.dropWhile_cons_of_neg (by rw [hz]; exact Bool.false_ne_true)]; rfl
  | cons c s ih =>
    rw [List.cons_append, List.dropWhile_cons, List.dropWhile_cons, ih]
    split <;> rfl

section Run

variable {p : Char → Bool} {s : List Char} {z : Char}

/-- a run of a class ends at the first character out of it -/
theorem takeWhile_run (hs : ∀ c ∈ s, p c = true) (hz : p z = false) (b : List Char) : (s ++ z :: b).takeWhile p = s := by
  rw [takeWhile_stop hz, List.takeWhile_eq_self_iff.2 hs]

theorem dropWhile_run (hs : ∀ c ∈ s, p c = true) (hz : p z = false) (b : List Char) :
    (s ++ z :: b).dropWhile p = z :: b := by
  rw [dropWhile_stop hz, List.dropWhile_eq_nil_iff.2 hs, List.nil_append]

end Run

theorem strip_split (cs : List Char) :
    ∃ u v, cs = u ++ (strip cs ++ v) ∧ (∀ c ∈ u, isSpace c = true) ∧ ∀ c ∈ v, isSpace c = true := by
  have hback := List.takeWhile_append_dropWhile (p := isSpace) (l := (cs.dropWhile isSpace).reverse)
  refine ⟨cs.takeWhile isSpace, ((cs.dropWhile isSpace).reverse.takeWhile isSpace).reverse, ?_,
    fun c hc => List.mem_takeWhile_imp hc, fun c hc => List.mem_takeWhile_imp (List.mem_reverse.1 hc)⟩
  rw [strip, ← List.reverse_append, hback, List.reverse_reverse, List.takeWhile_append_dropWhile]

/-- stripping takes what is around a text that neither begins nor ends with such a character -/
theorem stripOf_around {p : Char → Bool} {u core v : List Char} (hu : ∀ c ∈ u, p c = true) (hv : ∀ c ∈ v, p c = true)
    (hhead : ∀ c ∈ core.head?, p c = false) (hlast : ∀ c ∈ core.getLast?, p c = false) :
    stripOf p (u ++ (core ++ v)) = core := by
  have hv' : ∀ c ∈ v.reverse, p c = true := fun c hc => hv c (List.mem_reverse.1 hc)
  have hfront : (u ++ (core ++ v)).dropWhile p = if core = [] then [] else core ++ v := by
    rw [List.dropWhile_append_of_pos hu]
    rcases core with _ | ⟨c, core⟩
    · exact List.dropWhile_eq_nil_iff.2 hv
    · rw [if_neg (List.cons_ne_nil c core), List.cons_append,
        List.dropWhile_cons_of_neg (Bool.eq_false_iff.1 (hhead c rfl))]
  rw [stripOf, hfront]
  split_ifs with hnil
  · rw [hnil]
    rfl
  · obtain ⟨front, c, rfl⟩ := (List.eq_nil_or_concat' core).resolve_left hnil
    have hc : p c = false := hlast c (by rw [List.getLast?_concat]; rfl)
    rw [List.reverse_append, List.dropWhile_append_of_pos hv', List.reverse_concat,
      List.dropWhile_cons_of_neg (Bool.eq_false_iff.1 hc), List.reverse_cons, List.reverse_reverse]

theorem stripOf_eq_self {p : Char → Bool} {cs : List Char} (h : ∀ c ∈ cs, p c = false) : stripOf p cs = cs := by
  have hstrip := stripOf_around (List.forall_mem_nil _) (List.forall_mem_nil _)
    (fun c hc => h c (List.mem_of_mem_head? hc)) (fun c hc => h c (List.mem_of_mem_getLast? hc))
  rwa [List.nil_append, List.append_nil] at hstrip

theorem strip_blanks {u core v : List Char} (hu : ∀ c ∈ u, isSpace c = true) (hv : ∀ c ∈ v, isSpace c = true)
    (hhead : ∀ c ∈ core.head?, isSpace c = false) (hlast : ∀ c ∈ core.getLast?, isSpace c = false) :
    strip (u ++ (core ++ v)) = core := stripOf_around hu hv hhead hlast

/-- the characters `str.splitlines` ends a line at -/
def isLineBreak (c : Char) : Bool :=
  let n := c.toNat
  (10 ≤ n ∧ n ≤ 13) ∨ (28 ≤ n ∧ n ≤ 30) ∨ n = 0x85 ∨ n = 0x2028 ∨ n = 0x2029

/-- `cur` is the line that has begun; a carriage return before a newline is part of its break -/
def splitlinesFrom : List Char → List Char → List (List Char)
  | cur, [] => if cur = [] then [] else [cur]
  | cur, c :: cs =>
    if c = '\r' ∧ cs.head? = some '\n' then splitlinesFrom cur cs
    else if isLineBreak c then cur :: splitlinesFrom [] cs
    else splitlinesFrom (cur ++ [c]) cs

/-- `str.splitlines()` -/
def splitlines (cs : List Char) : List (List Char) := splitlinesFrom [] cs

theorem splitlinesFrom_newline (cur a b : List Char) :
    splitlinesFrom cur (a ++ '\n' :: b) = splitlinesFrom cur (a ++ ['\n']) ++ splitlines b := by
  induction a generalizing cur with
  | nil => simp [splitlinesFrom, splitlines, isLineBreak]
  | cons c a ih =>
    have hhead : (a ++ '\n' :: b).head? = (a ++ ['\n']).head? := by cases a <;> rfl
    simp only [List.cons_append, splitlinesFrom, hhead]
    split_ifs
    · exact ih cur
    · rw [ih [], List.cons_append]
    · exact ih (cur ++ [c])

/-- A newline ends a line, whatever follows it. -/
theorem splitlines_newline (a b : List Char) : splitlines (a ++ '\n' :: b) = splitlines (a ++ ['\n']) ++ splitlines b :=
  splitlinesFrom_newline [] a b

/-- what is no line break stands on some line -/
theorem mem_splitlinesFrom {c : Char} (hc : isLineBreak c = false) {cur cs : List Char} (h : c ∈ cur ∨ c ∈ cs) :
    ∃ l ∈ splitlinesFrom cur cs, c ∈ l := by
  induction cs generalizing cur with
  | nil =>
    have hcur : c ∈ cur := h.resolve_right List.not_mem_nil
    refine ⟨cur, ?_, hcur⟩
    rw [splitlinesFrom, if_neg (List.ne_nil_of_mem hcur)]
    exact List.mem_singleton_self cur
  | cons d cs ih =>
    rw [List.mem_cons] at h
    rw [splitlinesFrom]
    split_ifs with hr hb
    · have hne : c ≠ d := by
        rintro rfl
        rw [hr.1] at hc
        exact absurd hc (by decide)
      exact ih (h.imp_right fun h => h.resolve_left hne)
    · have hne : c ≠ d := by
        rintro rfl
        rw [hb] at hc
        cases hc
      rcases h with h | h | h
      · exact ⟨cur, List.mem_cons_self, h⟩
      · exact absurd h hne
      · obtain ⟨l, hl, hm⟩ := ih (Or.inr h)
        exact ⟨l, List.mem_cons_of_mem _ hl, hm⟩
    · refine ih ?_
      rcases h with h | h | h
      · exact Or.inl (List.mem_append_left _ h)
      · exact Or.inl (List.mem_append_right _ (List.mem_singleton.2 h))
      · exact Or.inr h

theorem mem_splitlines {c : Char} (hc : isLineBreak c = false) {cs : List Char} (h : c ∈ cs) :
    ∃ l ∈ splitlines cs, c ∈ l :=
  mem_splitlinesFrom hc (Or.inr h)

/-- no line has a line break in it -/
theorem splitlinesFrom_plain {cur cs : List Char} (hcur : ∀ c ∈ cur, isLineBreak c = false) :
    ∀ l ∈ splitlinesFrom cur cs, ∀ c ∈ l, isLineBreak c = false := by
  induction cs generalizing cur with
  | nil =>
    intro l hl
    rw [splitlinesFrom] at hl
    split_ifs at hl
    · cases hl
    · exact List.mem_singleton.1 hl ▸ hcur
  | cons d cs ih =>
    intro l hl
    rw [splitlinesFrom] at hl
    split_ifs at hl with hr hb
    · exact ih hcur l hl
    · rcases List.mem_cons.1 hl with rfl | hl
      · exact hcur
      · exact ih (List.forall_mem_nil _) l hl
    · refine ih (fun c hc => ?_) l hl
      rcases List.mem_append.1 hc with hc | hc
      · exact hcur c hc
      · exact List.mem_singleton.1 hc ▸ Bool.eq_false_iff.2 hb

theorem splitlines_plain {cs l : List Char} (h : l ∈ splitlines cs) : ∀ c ∈ l, isLineBreak c = false :=
  splitlinesFrom_plain (List.forall_mem_nil _) l h

theorem splitlinesFrom_line {l : List Char} (h : ∀ c ∈ l, isLineBreak c = false) (cur cs : List Char) :
    splitlinesFrom cur (l ++ '\n' :: cs) = (cur ++ l) :: splitlines cs := by
  induction l generalizing cur with
  | nil => simp [splitlinesFrom, splitlines, isLineBreak]
  | cons c l ih =>
    have hc := h c List.mem_cons_self
    have hne : c ≠ '\r' := by
      rintro rfl
      exact absurd hc (by decide)
    rw [List.cons_append, splitlinesFrom, if_neg (fun h => hne h.1), if_neg (Bool.eq_false_iff.1 hc),
      ih fun d hd => h d (List.mem_cons_of_mem c hd), List.append_assoc]
    rfl

/-- lines that each end in a newline -/
theorem splitlines_unlines {ls : List (List Char)} (h : ∀ l ∈ ls, ∀ c ∈ l, isLineBreak c = false) :
    splitlines (ls.flatMap fun l => l ++ ['\n']) = ls := by
  induction ls with
  | nil => rfl
  | cons l ls ih =>
    rw [List.flatMap_cons, List.append_assoc, splitlines, List.singleton_append,
      splitlinesFrom_line (h l List.mem_cons_self), ih fun m hm => h m (List.mem_cons_of_mem l hm)]
    rfl

theorem isSpace_of_isLineBreak {c : Char} (h : isLineBreak c = true) : isSpace c = true := by
  simp only [isLineBreak, isSpace, decide_eq_true_eq] at h ⊢
  omega

/-! ## Words -/

/-- `str.split()` -/
def words (cs : List Char) : List (List Char) := (cs.splitOnP isSpace).filter (· ≠ [])

theorem words_append (w : List Char) {z : Char} (hz : isSpace z = true) (b : List Char) :
    words (w ++ z :: b) = words w ++ words b := by
  rw [words, List.splitOnP_append_cons _ _ hz, List.filter_append, words, words]

theorem words_word {w : List Char} (hne : w ≠ []) (h : ∀ c ∈ w, isSpace c = false) : words w = [w] := by
  rw [words, List.splitOnP_eq_singleton h, List.filter_cons_of_pos (by simpa using hne), List.filter_nil]

/-- blanks before a text are no words of it -/
theorem words_blanks {u : List Char} (hu : ∀ c ∈ u, isSpace c = true) (b : List Char) : words (u ++ b) = words b := by
  induction u with
  | nil => rfl
  | cons z u ih =>
    have hz : isSpace z = true := hu z List.mem_cons_self
    rw [List.cons_append, ← List.nil_append (z :: (u ++ b)), words_append [] hz,
      ih fun c hc => hu c (List.mem_cons_of_mem z hc)]
    rfl

end DrtmTest.Text
