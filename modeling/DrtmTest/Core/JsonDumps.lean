/-
JSON texts as Python's `json.dumps(value, indent=2)` writes them, and what `json.loads` makes of them.

A dict has each key once, and a number is the literal Python gives it.

- `string_dumps`: a string written is read back, whatever follows it.
- `value_dumps`: so is every value, at any depth.
- `loads_dumps`: `json.loads` undoes `json.dumps`, of what is not too deep nor too long for it.
-/
import DrtmTest.Core.JsonReads

namespace DrtmTest.Json

/-! ## Strings -/

/-- the UTF-16 code units of a character -/
def units (c : Char) : List ℕ :=
  if c.toNat < 0x10000 then [c.toNat]
  else [0xD800 + (c.toNat - 0x10000) / 0x400, 0xDC00 + (c.toNat - 0x10000) % 0x400]

/-- a character is no surrogate -/
theorem char_cases (c : Char) : c.toNat < 0xD800 ∨ 0xDFFF < c.toNat ∧ c.toNat < 0x110000 := c.valid

theorem hexVal_digitChar {n : ℕ} (h : n < 16) : hexVal n.digitChar = some n := by
  interval_cases n <;> rfl

theorem scanString_unicode {n : ℕ} (hn : n < 65536) (acc : List ℕ) (cs : List Char) :
    scanString acc ('\\' :: 'u' :: hex4 n ++ cs) = scanString (acc ++ [n]) cs := by
  have hdigit : ∀ m : ℕ, hexVal (m % 16).digitChar = some (m % 16) := fun m =>
    hexVal_digitChar (Nat.mod_lt m (by norm_num))
  have hsum : 4096 * (n / 4096 % 16) + 256 * (n / 256 % 16) + 16 * (n / 16 % 16) + n % 16 = n := by omega
  simp only [hex4, List.cons_append, List.nil_append, scanString, hdigit, hsum]

theorem scanString_char (c : Char) (acc : List ℕ) (cs : List Char) :
    scanString acc (dumpsChar c ++ cs) = scanString (acc ++ units c) cs := by
  have hcases := char_cases c
  unfold dumpsChar
  simp only
  split
  iterate 7 rfl
  rename_i hquote hback hnewline hreturn htab hfeed hbackspace
  split_ifs with hplain hbmp
  · have hlow : ¬ (c.toNat < 0x20 ∨ c = '\\') := fun h => by
      rcases h with h | h
      · omega
      · exact hback h
    have hunits : units c = [c.toNat] := if_pos (by omega)
    rw [List.singleton_append, hunits, scanString]
    · rw [if_neg hlow]
    · exact hquote
    · exact fun _ _ _ _ _ h => (hback h).elim
    · exact fun _ _ h => (hback h).elim
  · have hunits : units c = [c.toNat] := if_pos hbmp
    rw [hunits]
    exact scanString_unicode hbmp acc cs
  · have hunits : units c = [0xD800 + (c.toNat - 0x10000) / 0x400, 0xDC00 + (c.toNat - 0x10000) % 0x400] := if_neg hbmp
    rw [hunits, List.append_assoc, scanString_unicode (by omega), scanString_unicode (by omega), List.append_assoc]
    rfl

theorem scanString_dumps (cs : List Char) (acc : List ℕ) (rest : List Char) :
    scanString acc (cs.flatMap dumpsChar ++ '"' :: rest) = some (acc ++ cs.flatMap units, rest) := by
  induction cs generalizing acc with
  | nil => rw [List.flatMap_nil, List.nil_append, scanString, List.flatMap_nil, List.append_nil]
  | cons c cs ih =>
    rw [List.flatMap_cons, List.append_assoc, scanString_char, ih, List.flatMap_cons, List.append_assoc]

theorem joinSurrogates_units (cs : List Char) : joinSurrogates (cs.flatMap units) = cs := by
  induction cs with
  | nil => rfl
  | cons c cs ih =>
    have hcases := char_cases c
    rw [List.flatMap_cons]
    by_cases hbmp : c.toNat < 0x10000
    · have hunits : units c = [c.toNat] := if_pos hbmp
      have hself : ¬ (0xD800 ≤ c.toNat ∧ c.toNat ≤ 0xDFFF) := by omega
      rw [hunits, List.singleton_append]
      cases hrest : cs.flatMap units with
      | nil =>
        rw [hrest] at ih
        rw [joinSurrogates, if_neg hself, Char.ofNat_toNat, ← ih]
        rfl
      | cons m ms =>
        have hpair : ¬ (0xD800 ≤ c.toNat ∧ c.toNat ≤ 0xDBFF ∧ 0xDC00 ≤ m ∧ m ≤ 0xDFFF) := by omega
        rw [hrest] at ih
        rw [joinSurrogates, if_neg hpair, if_neg hself, Char.ofNat_toNat, ih]
    · have hunits : units c = [0xD800 + (c.toNat - 0x10000) / 0x400, 0xDC00 + (c.toNat - 0x10000) % 0x400] := if_neg hbmp
      have hsum : 0x10000 + 0x400 * (0xD800 + (c.toNat - 0x10000) / 0x400 - 0xD800) +
          (0xDC00 + (c.toNat - 0x10000) % 0x400 - 0xDC00) = c.toNat := by omega
      rw [hunits, List.cons_append, List.singleton_append, joinSurrogates, if_pos (by omega), hsum, Char.ofNat_toNat, ih]

/-- A string written is read back, whatever follows it. -/
theorem string_dumps (s : String) (rest : List Char) :
    string (s.toList.flatMap dumpsChar ++ '"' :: rest) = some (s, rest) := by
  rw [string, scanString_dumps, List.nil_append, Option.map_some, joinSurrogates_units, String.ofList_toList]

/-! ## Numbers -/

/-- the literal reads as itself -/
def readsNumber (limits : Limits) (literal : String) : Bool :=
  match number limits literal.toList with
  | .ok (.num l, []) => l = literal
  | _ => false

theorem number_of_reads {limits : Limits} {literal : String} (h : readsNumber limits literal = true) :
    number limits literal.toList = .ok (.num literal, []) := by
  unfold readsNumber at h
  split at h
  · rename_i hread
    rw [hread, of_decide_eq_true h]
  · cases h

theorem toDigits_head {n : ℕ} (hn : n ≠ 0) : (Nat.toDigits 10 n).head? ≠ some '0' := by
  induction n using Nat.strong_induction_on with
  | _ n ih =>
    by_cases hlt : n < 10
    · rw [Nat.toDigits_of_lt_base hlt]
      interval_cases n <;> simp_all
    · have hhead := ih (n / 10) (Nat.div_lt_self (by omega) (by norm_num)) (by omega)
      rw [Nat.toDigits_of_base_le (by norm_num) (Nat.le_of_not_lt hlt), List.head?_append_of_ne_nil _ Nat.toDigits_ne_nil]
      exact hhead

theorem isDigit_of_mem_toDigits {n : ℕ} {c : Char} (hc : c ∈ Nat.toDigits 10 n) : isDigit c = true := by
  have hdigit := Nat.isDigit_of_mem_toDigits (by norm_num) (by norm_num) hc
  simpa [isDigit, Char.isDigit, Char.le_def] using hdigit

theorem digits_toDigits (n : ℕ) {rest : List Char} (hrest : ∀ c ∈ rest.head?, isDigit c = false) :
    digits (Nat.toDigits 10 n ++ rest) = (Nat.toDigits 10 n, rest) := by
  have hall : ∀ c ∈ Nat.toDigits 10 n, isDigit c = true := fun c => isDigit_of_mem_toDigits
  have hnone : rest.takeWhile isDigit = [] ∧ rest.dropWhile isDigit = rest := by
    cases rest with
    | nil => exact ⟨rfl, rfl⟩
    | cons c rest =>
      have hc : ¬ isDigit c = true := by simp [hrest c rfl]
      exact ⟨List.takeWhile_cons_of_neg hc, List.dropWhile_cons_of_neg hc⟩
  rw [digits, List.takeWhile_append_of_pos hall, List.dropWhile_append_of_pos hall, hnone.1, hnone.2, List.append_nil]

theorem integer_toDigits (n : ℕ) (rest : List Char) (hrest : ∀ c ∈ rest.head?, isDigit c = false) :
    integer (Nat.toDigits 10 n ++ rest) = some (Nat.toDigits 10 n, rest) := by
  by_cases hn : n = 0
  · subst hn
    rfl
  · unfold integer
    split
    · rename_i heq
      have hhead := toDigits_head hn
      rw [← List.head?_append_of_ne_nil _ Nat.toDigits_ne_nil, heq] at hhead
      exact absurd rfl hhead
    · rw [digits_toDigits n hrest, if_neg Nat.toDigits_ne_nil]

theorem toDigits_not_minus (n : ℕ) (rest : List Char) : (Nat.toDigits 10 n ++ rest).head? ≠ some '-' := fun heq => by
  rw [List.head?_append_of_ne_nil _ Nat.toDigits_ne_nil] at heq
  cases isDigit_of_mem_toDigits (List.mem_of_mem_head? heq)

/-- an integer as Python writes it -/
theorem readsNumber_nat {limits : Limits} {n : ℕ} (h : (toString n).length ≤ limits.digits) :
    readsNumber limits (toString n) = true := by
  have htext : (toString n).toList = Nat.toDigits 10 n := Nat.toList_repr
  have hback : String.ofList (Nat.toDigits 10 n) = toString n := by rw [← htext, String.ofList_toList]
  have hshort : ¬ limits.digits < (Nat.toDigits 10 n).length := by
    rw [← htext, String.length_toList]
    exact Nat.not_lt.2 h
  have hminus := toDigits_not_minus n []
  have hinteger := integer_toDigits n [] fun c hc => by cases hc
  rw [List.append_nil] at hminus hinteger
  unfold readsNumber
  rw [htext, number_plain limits hminus, unsigned, hinteger]
  simp [fraction, exponent, hback, hshort]

/-- a whole number of seconds as Python writes a float -/
theorem readsNumber_whole (limits : Limits) (n : ℕ) : readsNumber limits (toString n ++ ".0") = true := by
  have htext : (toString n ++ ".0").toList = Nat.toDigits 10 n ++ ['.', '0'] := by
    rw [String.toList_append]
    exact congrArg (· ++ ['.', '0']) Nat.toList_repr
  have hback : String.ofList (Nat.toDigits 10 n ++ ['.', '0']) = toString n ++ ".0" := by rw [← htext, String.ofList_toList]
  have hinteger := integer_toDigits n ['.', '0'] fun c hc => by
    cases hc
    rfl
  have hfraction : fraction ['.', '0'] = (['.', '0'], []) := by decide
  unfold readsNumber
  rw [htext, number_plain limits (toDigits_not_minus n _), unsigned, hinteger]
  simp [hfraction, exponent, hback]

/-! ## Values -/

/-- a line of its own, at a depth -/
def newline (depth : ℕ) : List Char := '\n' :: List.replicate (2 * depth) ' '

mutual

/-- a value at a depth, `indent` being 2 -/
def dumpsAt (depth : ℕ) : Json → List Char
  | .null => "null".toList
  | .bool true => "true".toList
  | .bool false => "false".toList
  | .num literal => literal.toList
  | .str s => dumpsString s
  | .arr [] => "[]".toList
  | .arr (v :: vs) => '[' :: dumpsItems (depth + 1) (v :: vs) ++ newline depth ++ [']']
  | .obj [] => "\x7b\x7d".toList
  | .obj (f :: fs) => '\x7b' :: dumpsFields (depth + 1) (f :: fs) ++ newline depth ++ ['\x7d']

/-- the items of a list, each on a line -/
def dumpsItems (depth : ℕ) : List Json → List Char
  | [] => []
  | [v] => newline depth ++ dumpsAt depth v
  | v :: vs => newline depth ++ dumpsAt depth v ++ ',' :: dumpsItems depth vs

def dumpsFields (depth : ℕ) : List (String × Json) → List Char
  | [] => []
  | [(key, v)] => newline depth ++ dumpsString key ++ ':' :: ' ' :: dumpsAt depth v
  | (key, v) :: fs => newline depth ++ dumpsString key ++ ':' :: ' ' :: dumpsAt depth v ++ ',' :: dumpsFields depth fs

end

/-- `json.dumps(value, indent=2)` -/
def dumps (v : Json) : List Char := dumpsAt 0 v

mutual

/-- what a value of Python's is: its numbers are numbers, a dict has each key once, and it is nested no deeper than `room` -/
def Valid (limits : Limits) : ℕ → Json → Prop
  | _, .num literal => literal ∈ ["NaN", "Infinity", "-Infinity"] ∨ readsNumber limits literal = true
  | room, .arr items => 0 < room ∧ ValidItems limits (room - 1) items
  | room, .obj fields => 0 < room ∧ (fields.map Prod.fst).Nodup ∧ ValidFields limits (room - 1) fields
  | _, _ => True

def ValidItems (limits : Limits) : ℕ → List Json → Prop
  | _, [] => True
  | room, v :: vs => Valid limits room v ∧ ValidItems limits room vs

def ValidFields (limits : Limits) : ℕ → List (String × Json) → Prop
  | _, [] => True
  | room, (_, v) :: fs => Valid limits room v ∧ ValidFields limits room fs

end

/-! ## How a value starts -/

theorem value_number {limits : Limits} {literal : String}
    (h : literal ∈ ["NaN", "Infinity", "-Infinity"] ∨ readsNumber limits literal = true) {rest : List Char} (hrest : Ends rest)
    (n room : ℕ) : value limits (n + 1) room (literal.toList ++ rest) = .ok (.num literal, rest) := by
  have hread : value limits 1 room literal.toList = .ok (.num literal, []) := by
    rcases h with h | h
    · simp only [List.mem_cons, List.not_mem_nil, or_false] at h
      rcases h with rfl | rfl | rfl <;> rfl
    · have hnumber := number_of_reads h
      have hnone := constant_number hnumber []
      obtain ⟨c, ds, hcs, hc⟩ := number_starts hnumber
      rw [List.append_nil] at hnone
      rw [hcs] at hnumber hnone ⊢
      have hplain : c ≠ '"' ∧ c ≠ '\x7b' ∧ c ≠ '[' := by
        rcases hc with hc | ⟨rfl, -⟩
        · exact ⟨(ne_of_isDigit hc (by decide)).symm, (ne_of_isDigit hc (by decide)).symm,
            (ne_of_isDigit hc (by decide)).symm⟩
        · decide
      rw [value_plain hplain.1 hplain.2.1 hplain.2.2, hnone]
      exact hnumber
  exact value_append (le_refl limits.digits) 1 (n + 1) room room _ _ rest hread (Nat.le_add_left 1 n) le_rfl hrest

/-- a value starts with no blank, and does not close a list -/
theorem dumpsAt_starts (depth : ℕ) {limits : Limits} {room : ℕ} {v : Json} (h : Valid limits room v) :
    ∃ c cs, dumpsAt depth v = c :: cs ∧ isBlank c = false ∧ c ≠ ']' ∧ c ≠ '\uFEFF' := by
  match v with
  | .null => exact ⟨'n', "ull".toList, rfl, rfl, by decide, by decide⟩
  | .bool true => exact ⟨'t', "rue".toList, rfl, rfl, by decide, by decide⟩
  | .bool false => exact ⟨'f', "alse".toList, rfl, rfl, by decide, by decide⟩
  | .str s => exact ⟨'"', _, rfl, rfl, by decide, by decide⟩
  | .arr [] => exact ⟨'[', "]".toList, rfl, rfl, by decide, by decide⟩
  | .arr (_ :: _) => exact ⟨'[', _, rfl, rfl, by decide, by decide⟩
  | .obj [] => exact ⟨'\x7b', "\x7d".toList, rfl, rfl, by decide, by decide⟩
  | .obj (_ :: _) => exact ⟨'\x7b', _, rfl, rfl, by decide, by decide⟩
  | .num literal =>
    rw [dumpsAt]
    rcases h with h | h
    · simp only [List.mem_cons, List.not_mem_nil, or_false] at h
      rcases h with rfl | rfl | rfl
      · exact ⟨'N', "aN".toList, rfl, rfl, by decide, by decide⟩
      · exact ⟨'I', "nfinity".toList, rfl, rfl, by decide, by decide⟩
      · exact ⟨'-', "Infinity".toList, rfl, rfl, by decide, by decide⟩
    · obtain ⟨c, ds, hcs, hc⟩ := number_starts (number_of_reads h)
      refine ⟨c, ds, hcs, ?_⟩
      rcases hc with hc | ⟨rfl, -⟩
      · have hblank : ∀ d : Char, isDigit d = false → c ≠ d := fun d hd => (ne_of_isDigit hc hd).symm
        refine ⟨?_, hblank ']' (by decide), hblank _ (by decide)⟩
        simp [isBlank, hblank ' ' (by decide), hblank '\t' (by decide), hblank '\n' (by decide), hblank '\r' (by decide)]
      · decide

/-! ## The round trip -/

theorem skipBlanks_newline (depth : ℕ) (cs : List Char) : skipBlanks (newline depth ++ cs) = skipBlanks cs := by
  have hblanks : ∀ k : ℕ, skipBlanks (List.replicate k ' ' ++ cs) = skipBlanks cs := fun k => by
    induction k with
    | zero => rfl
    | succ k ih => exact ih
  exact hblanks (2 * depth)

theorem skipBlanks_dumpsAt (depth : ℕ) {limits : Limits} {room : ℕ} {v : Json} (h : Valid limits room v) (cs : List Char) :
    skipBlanks (dumpsAt depth v ++ cs) = dumpsAt depth v ++ cs := by
  obtain ⟨c, ds, heq, hc, -⟩ := dumpsAt_starts depth h
  rw [heq, List.cons_append, skipBlanks, List.dropWhile_cons_of_neg (by rw [hc]; exact Bool.false_ne_true)]

theorem ends_newline (depth : ℕ) (cs : List Char) : Ends (newline depth ++ cs) := fun c hc => by
  cases hc
  rfl

theorem ends_comma (cs : List Char) : Ends (',' :: cs) := fun c hc => by
  cases hc
  rfl

theorem upsert_new {key : String} {v : Json} {fields : List (String × Json)} (h : key ∉ fields.map Prod.fst) :
    Dict.upsert key v fields = fields ++ [(key, v)] := by
  induction fields with
  | nil => rfl
  | cons f fields ih =>
    rw [List.map_cons, List.mem_cons, not_or] at h
    rw [Dict.upsert, if_neg (Ne.symm h.1), ih h.2, List.cons_append]

theorem dumpsItems_more (depth : ℕ) (v w : Json) (ws : List Json) :
    dumpsItems depth (v :: w :: ws) = newline depth ++ (dumpsAt depth v ++ ',' :: dumpsItems depth (w :: ws)) := by
  rw [dumpsItems, List.append_assoc]
  exact List.cons_ne_nil w ws

/-- a field on its line, behind the line's start -/
def dumpsField (depth : ℕ) (f : String × Json) : List Char := dumpsString f.1 ++ ':' :: ' ' :: dumpsAt depth f.2

theorem dumpsFields_one (depth : ℕ) (f : String × Json) : dumpsFields depth [f] = newline depth ++ dumpsField depth f := by
  rw [dumpsFields, dumpsField, List.append_assoc]

theorem dumpsFields_more (depth : ℕ) (f g : String × Json) (gs : List (String × Json)) :
    dumpsFields depth (f :: g :: gs) = newline depth ++ (dumpsField depth f ++ ',' :: dumpsFields depth (g :: gs)) := by
  rw [dumpsFields, dumpsField]
  · simp only [List.append_assoc, List.cons_append]
  · exact List.cons_ne_nil g gs

theorem skipBlanks_dumpsField (depth : ℕ) (f : String × Json) (cs : List Char) :
    skipBlanks (dumpsField depth f ++ cs) = dumpsField depth f ++ cs := rfl

theorem dumpsItems_head (depth : ℕ) {limits : Limits} {room : ℕ} {v : Json} {vs : List Json} (h : Valid limits room v)
    (cs : List Char) :
    (skipBlanks (dumpsItems depth (v :: vs) ++ cs)).head? ≠ some ']' := by
  obtain ⟨c, ds, heq, -, hc, -⟩ := dumpsAt_starts depth h
  have hhead : ∀ es : List Char, (dumpsAt depth v ++ es).head? ≠ some ']' := fun es hes => by
    rw [heq] at hes
    exact hc (Option.some.inj hes)
  cases vs with
  | nil =>
    rw [dumpsItems, List.append_assoc, skipBlanks_newline, skipBlanks_dumpsAt depth h]
    exact hhead _
  | cons w ws =>
    rw [dumpsItems_more, List.append_assoc, List.append_assoc, skipBlanks_newline, skipBlanks_dumpsAt depth h]
    exact hhead _

theorem dumpsFields_head (depth : ℕ) (f : String × Json) (fs : List (String × Json)) (cs : List Char) :
    (skipBlanks (dumpsFields depth (f :: fs) ++ cs)).head? ≠ some '\x7d' := by
  cases fs with
  | nil =>
    rw [dumpsFields_one, List.append_assoc, skipBlanks_newline]
    exact fun h => by cases h
  | cons g gs =>
    rw [dumpsFields_more, List.append_assoc, skipBlanks_newline]
    exact fun h => by cases h

theorem dumpsAt_arr (depth : ℕ) (v : Json) (vs : List Json) :
    dumpsAt depth (.arr (v :: vs)) = '[' :: (dumpsItems (depth + 1) (v :: vs) ++ (newline depth ++ [']'])) := by
  rw [dumpsAt, List.cons_append, List.cons_append, List.append_assoc]

theorem dumpsAt_obj (depth : ℕ) (f : String × Json) (fs : List (String × Json)) :
    dumpsAt depth (.obj (f :: fs)) = '\x7b' :: (dumpsFields (depth + 1) (f :: fs) ++ (newline depth ++ ['\x7d'])) := by
  rw [dumpsAt, List.cons_append, List.cons_append, List.append_assoc]

theorem newline_length (depth : ℕ) : (newline depth).length = 2 * depth + 1 := by simp [newline]

theorem dumpsField_length (depth : ℕ) (f : String × Json) :
    (dumpsField depth f).length = (dumpsString f.1).length + 2 + (dumpsAt depth f.2).length := by
  rw [dumpsField, List.length_append, List.length_cons, List.length_cons]
  omega

theorem new_of_nodup {done fs : List (String × Json)} {f : String × Json} (h : ((done ++ f :: fs).map Prod.fst).Nodup) :
    f.1 ∉ done.map Prod.fst := by
  rw [List.map_append] at h
  exact fun hmem => List.disjoint_of_nodup_append h hmem List.mem_cons_self

theorem members_field (depth : ℕ) {limits : Limits} {room : ℕ} {f : String × Json} (h : Valid limits room f.2) {n : ℕ}
    {rest : List Char} (hv : value limits n room (dumpsAt depth f.2 ++ rest) = .ok (f.2, rest)) (done : List (String × Json)) :
    members limits (n + 1) room done (dumpsField depth f ++ rest) =
      membersBehind limits n room (Dict.upsert f.1 f.2 done) rest := by
  have hcolon : ∀ cs, skipBlanks (':' :: cs) = ':' :: cs := fun _ => rfl
  have hskip : skipBlanks (' ' :: (dumpsAt depth f.2 ++ rest)) = dumpsAt depth f.2 ++ rest := skipBlanks_dumpsAt depth h rest
  rw [dumpsField, dumpsString]
  simp only [List.cons_append, List.append_assoc, List.nil_append, members, string_dumps, hcolon, hskip, hv]
  rfl

/-- a constant written -/
theorem value_constant {limits : Limits} {name : String} {v : Json} (h : value limits 1 0 name.toList = .ok (v, []))
    {rest : List Char} (hrest : Ends rest) (n room : ℕ) : value limits (n + 1) room (name.toList ++ rest) = .ok (v, rest) :=
  value_append (le_refl limits.digits) 1 (n + 1) 0 room _ _ rest h (Nat.le_add_left 1 n) (Nat.zero_le room) hrest

mutual

theorem value_dumps (depth : ℕ) {limits : Limits} : ∀ (v : Json) (n room : ℕ) (rest : List Char), Valid limits room v →
    Ends rest → (dumpsAt depth v).length < n → value limits n room (dumpsAt depth v ++ rest) = .ok (v, rest)
  | v, 0, _, _, _, _, hn => absurd hn (Nat.not_lt_zero _)
  | .null, n + 1, room, rest, _, hrest, _ => value_constant rfl hrest n room
  | .bool true, n + 1, room, rest, _, hrest, _ => value_constant rfl hrest n room
  | .bool false, n + 1, room, rest, _, hrest, _ => value_constant rfl hrest n room
  | .num literal, n + 1, room, rest, h, hrest, _ => value_number (by rwa [Valid] at h) hrest n room
  | .str s, n + 1, room, rest, _, _, _ => by
    simp only [dumpsAt, dumpsString, List.cons_append, List.append_assoc, List.nil_append, value, string_dumps]
  | .arr items, n + 1, 0, rest, h, _, _ => absurd h.1 (Nat.lt_irrefl 0)
  | .obj fields, n + 1, 0, rest, h, _, _ => absurd h.1 (Nat.lt_irrefl 0)
  | .arr [], n + 1, room + 1, rest, _, _, _ => by simp [dumpsAt, value, skipBlanks, isBlank]
  | .arr (w :: ws), n + 1, room + 1, rest, h, _, hn => by
    rw [dumpsAt_arr, List.length_cons, List.length_append, List.length_append, newline_length] at hn
    have hitems := elements_dumps (depth + 1) depth (w :: ws) n room [] rest (List.cons_ne_nil w ws) h.2 (by omega)
    rw [dumpsAt_arr, List.cons_append, List.append_assoc, List.append_assoc, List.singleton_append,
      value_bracket (dumpsItems_head (depth + 1) h.2.1 _)]
    exact hitems
  | .obj [], n + 1, room + 1, rest, _, _, _ => by simp [dumpsAt, value, skipBlanks, isBlank]
  | .obj (f :: fs), n + 1, room + 1, rest, h, _, hn => by
    rw [dumpsAt_obj, List.length_cons, List.length_append, List.length_append, newline_length] at hn
    have hfields := members_dumps (depth + 1) depth (f :: fs) n room [] rest (List.cons_ne_nil f fs) h.2.2 h.2.1 (by omega)
    rw [dumpsAt_obj, List.cons_append, List.append_assoc, List.append_assoc, List.singleton_append,
      value_brace (dumpsFields_head (depth + 1) f fs _)]
    exact hfields

theorem elements_dumps (depth closing : ℕ) {limits : Limits} : ∀ (items : List Json) (n room : ℕ) (done : List Json)
    (rest : List Char), items ≠ [] → ValidItems limits room items → (dumpsItems depth items).length + 1 < n →
    elements limits n room done (skipBlanks (dumpsItems depth items ++ (newline closing ++ ']' :: rest))) =
      .ok (.arr (done ++ items), rest)
  | [], _, _, _, _, hne, _, _ => absurd rfl hne
  | _ :: _, 0, _, _, _, _, _, hn => absurd hn (Nat.not_lt_zero _)
  | [v], n + 1, room, done, rest, _, h, hn => by
    have hv := value_dumps depth v n room (newline closing ++ ']' :: rest) h.1 (ends_newline closing _) (by
      rw [dumpsItems, List.length_append] at hn
      omega)
    rw [dumpsItems, List.append_assoc, skipBlanks_newline, skipBlanks_dumpsAt depth h.1, elements, hv]
    simp only [skipBlanks_newline]
    rfl
  | v :: w :: ws, n + 1, room, done, rest, _, h, hn => by
    rw [dumpsItems_more, List.length_append, List.length_append, List.length_cons, newline_length] at hn
    have hv := value_dumps depth v n room (',' :: (dumpsItems depth (w :: ws) ++ (newline closing ++ ']' :: rest))) h.1
      (ends_comma _) (by omega)
    have hws := elements_dumps depth closing (w :: ws) n room (done ++ [v]) rest (List.cons_ne_nil w ws) h.2 (by omega)
    rw [List.append_assoc, List.singleton_append] at hws
    rw [dumpsItems_more, List.append_assoc, List.append_assoc, skipBlanks_newline, skipBlanks_dumpsAt depth h.1, elements,
      List.cons_append, hv]
    exact hws

theorem members_dumps (depth closing : ℕ) {limits : Limits} : ∀ (fields : List (String × Json)) (n room : ℕ)
    (done : List (String × Json)) (rest : List Char), fields ≠ [] → ValidFields limits room fields →
    ((done ++ fields).map Prod.fst).Nodup → (dumpsFields depth fields).length + 1 < n →
    members limits n room done (skipBlanks (dumpsFields depth fields ++ (newline closing ++ '\x7d' :: rest))) =
      .ok (.obj (done ++ fields), rest)
  | [], _, _, _, _, hne, _, _, _ => absurd rfl hne
  | _ :: _, 0, _, _, _, _, _, _, hn => absurd hn (Nat.not_lt_zero _)
  | [f], n + 1, room, done, rest, _, h, hnodup, hn => by
    rw [dumpsFields_one, List.length_append, dumpsField_length] at hn
    have hv := value_dumps depth f.2 n room (newline closing ++ '\x7d' :: rest) h.1 (ends_newline closing _) (by omega)
    rw [dumpsFields_one, List.append_assoc, skipBlanks_newline, skipBlanks_dumpsField, members_field depth h.1 hv,
      upsert_new (new_of_nodup hnodup), membersBehind, skipBlanks_newline]
    rfl
  | f :: g :: gs, n + 1, room, done, rest, _, h, hnodup, hn => by
    rw [dumpsFields_more, List.length_append, List.length_append, List.length_cons, newline_length, dumpsField_length] at hn
    have hv := value_dumps depth f.2 n room (',' :: (dumpsFields depth (g :: gs) ++ (newline closing ++ '\x7d' :: rest))) h.1
      (ends_comma _) (by omega)
    have hgs := members_dumps depth closing (g :: gs) n room (done ++ [f]) rest (List.cons_ne_nil g gs) h.2
      (by rwa [List.append_assoc, List.singleton_append]) (by omega)
    rw [List.append_assoc, List.singleton_append] at hgs
    rw [dumpsFields_more, List.append_assoc, List.append_assoc, skipBlanks_newline, skipBlanks_dumpsField, List.cons_append,
      members_field depth h.1 hv, upsert_new (new_of_nodup hnodup)]
    exact hgs

end

/-- **`json.loads` undoes `json.dumps`**, with the newline behind it that a file ends in. -/
theorem loads_dumps {limits : Limits} {v : Json} (h : Valid limits limits.depth v) :
    loads limits (dumps v ++ ['\n']) = .ok v := by
  obtain ⟨c, cs, hstart, -, -, hmark⟩ := dumpsAt_starts 0 h
  have hends : Ends ['\n'] := fun d hd => by
    cases hd
    rfl
  have hvalue := value_dumps 0 v ((dumpsAt 0 v ++ ['\n']).length + 1) limits.depth ['\n'] h hends (by
    rw [List.length_append]
    omega)
  rw [loads, dumps, skipBlanks_dumpsAt 0 h, hvalue, hstart, List.cons_append, List.head?_cons, if_neg]
  · rfl
  · exact fun heq => hmark (Option.some.inj heq)

/-- A list in a dict, two deep. -/
example : String.ofList (dumps (.obj [("a", .arr [.null, .num "1.5"]), ("b", .obj [])])) =
    "\x7b\n  \"a\": [\n    null,\n    1.5\n  ],\n  \"b\": \x7b\x7d\n\x7d" := by
  decide +kernel

end DrtmTest.Json
