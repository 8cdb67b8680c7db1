/-
What `json.loads` reads, it reads under wider limits and whatever follows it.

- `number_append`: a number is read up to what no number goes on into.
- `value_append`: so is every value, at any depth.
- `loads_surrounded`: the limits never change what is read, nor do spaces around the text.
-/
import DrtmTest.Core.Json

namespace DrtmTest.Json

open Text

/-! ## Numbers -/

/-- what a number goes on with -/
def goesOn (c : Char) : Bool := isDigit c || c = '.' || c = 'e' || c = 'E' || c = '+' || c = '-'

/-- what no number goes on into -/
def Ends (rest : List Char) : Prop := ∀ c ∈ rest.head?, goesOn c = false

theorem digits_append (cs : List Char) {rest : List Char} (h : Ends rest) : digits (cs ++ rest) = ((digits cs).1, (digits cs).2 ++ rest) := by
  have hnone : rest.takeWhile isDigit = [] ∧ rest.dropWhile isDigit = rest := by
    cases rest with
    | nil => exact ⟨rfl, rfl⟩
    | cons c rest =>
      have hc : goesOn c = false := h _ rfl
      have hdigit : ¬ isDigit c = true := fun hd => by simp [goesOn, hd] at hc
      exact ⟨List.takeWhile_cons_of_neg hdigit, List.dropWhile_cons_of_neg hdigit⟩
  induction cs with
  | nil => simp only [digits, List.nil_append, hnone, List.takeWhile_nil, List.dropWhile_nil]
  | cons c cs ih =>
    simp only [digits, Prod.mk.injEq] at ih ⊢
    cases hc : isDigit c with
    | true => simp only [List.cons_append, List.takeWhile_cons, List.dropWhile_cons, hc, if_true, ih, and_self]
    | false =>
      simp only [List.cons_append, List.takeWhile_cons, List.dropWhile_cons, hc, Bool.false_eq_true, if_false, and_self]

theorem fraction_other {c : Char} (h : c ≠ '.') (cs : List Char) : fraction (c :: cs) = ([], c :: cs) := by
  unfold fraction
  split
  · rename_i heq
    exact absurd (List.cons.inj heq).1 h
  · rfl

theorem fraction_append {cs rest : List Char} (h : Ends rest) :
    fraction (cs ++ rest) = ((fraction cs).1, (fraction cs).2 ++ rest) := by
  cases cs with
  | nil =>
    cases rest with
    | nil => rfl
    | cons c rest =>
      have hc : goesOn c = false := h _ rfl
      exact fraction_other (fun heq => by simp [goesOn, heq] at hc) rest
  | cons c cs =>
    by_cases hdot : c = '.'
    · subst hdot
      simp only [List.cons_append, fraction, digits_append cs h]
      split_ifs <;> rfl
    · rw [List.cons_append, fraction_other hdot, fraction_other hdot]
      rfl

theorem exponent_other {c : Char} (h : goesOn c = false) (cs : List Char) : exponent (c :: cs) = ([], c :: cs) := by
  have hne : ¬ (c = 'e' ∨ c = 'E') := fun heq => by
    rcases heq with rfl | rfl <;> cases h
  cases cs with
  | nil => rfl
  | cons d cs => rw [exponent, if_neg hne]

/-- the mark of an exponent with nothing behind it -/
theorem exponent_bare (e : Char) {rest : List Char} (h : Ends rest) : exponent (e :: rest) = ([], e :: rest) := by
  cases rest with
  | nil => rfl
  | cons s rest =>
    have hs : goesOn s = false := h _ rfl
    have hsign : ¬ (s = '+' ∨ s = '-') := fun heq => by
      rcases heq with rfl | rfl <;> cases hs
    have hdigits : (digits (s :: rest)).1 = [] := List.takeWhile_cons_of_neg fun hd => by simp [goesOn, hd] at hs
    rw [exponent, if_neg hsign, if_pos hdigits]
    split_ifs <;> rfl

theorem exponent_append {cs rest : List Char} (h : Ends rest) :
    exponent (cs ++ rest) = ((exponent cs).1, (exponent cs).2 ++ rest) := by
  match cs with
  | [] =>
    cases rest with
    | nil => rfl
    | cons c rest => exact exponent_other (h _ rfl) rest
  | [e] => exact exponent_bare e h
  | e :: s :: cs =>
    have hdigits := digits_append cs h
    have hdigits' := digits_append (s :: cs) h
    rw [List.cons_append] at hdigits'
    simp only [List.cons_append, exponent, hdigits, hdigits']
    split_ifs <;> rfl

theorem integer_append {cs rest : List Char} (h : Ends rest) :
    integer (cs ++ rest) = (integer cs).map fun r => (r.1, r.2 ++ rest) := by
  have hdigits := digits_append cs h
  have hread : ∀ ds : List Char, ds.head? ≠ some '0' →
      integer ds = if (digits ds).1 = [] then none else some (digits ds) := by
    intro ds hds
    unfold integer
    split
    · rename_i heq
      exact absurd rfl hds
    · rfl
  cases cs with
  | nil =>
    cases rest with
    | nil => rfl
    | cons c rest =>
      have hc : goesOn c = false := h _ rfl
      have hzero : (c :: rest).head? ≠ some '0' := fun heq => by
        rw [Option.some.inj heq] at hc
        cases hc
      rw [List.nil_append, hread _ hzero]
      rw [List.nil_append] at hdigits
      rw [hdigits]
      rfl
  | cons c cs =>
    by_cases hzero : c = '0'
    · subst hzero
      rfl
    · have hhead : ∀ ds : List Char, (c :: ds).head? ≠ some '0' := fun _ heq => hzero (Option.some.inj heq)
      rw [List.cons_append, hread _ (hhead _), hread _ (hhead _), ← List.cons_append, hdigits]
      split_ifs <;> rfl

/-- a number behind its sign -/
def unsigned (limits : Limits) (sign cs : List Char) : Except JsonError (Json × List Char) :=
  match integer cs with
  | none => .error .decode
  | some (int, cs) =>
    if (fraction cs).1 = [] ∧ (exponent (fraction cs).2).1 = [] ∧ limits.digits < int.length then .error .valueError
    else .ok (.num (String.ofList (sign ++ int ++ (fraction cs).1 ++ (exponent (fraction cs).2).1)),
      (exponent (fraction cs).2).2)

theorem number_plain (limits : Limits) {cs : List Char} (h : cs.head? ≠ some '-') :
    number limits cs = unsigned limits [] cs := by
  unfold number
  split
  rename_i heq
  split at heq
  · exact absurd rfl h
  · cases heq
    rfl

/-- The number at the start of a text is read whatever follows it, and under wider limits. -/
theorem unsigned_append {limits wider : Limits} (hle : limits.digits ≤ wider.digits) {sign cs rest : List Char}
    {r : Json × List Char} (h : unsigned limits sign cs = .ok r) (hrest : Ends rest) :
    unsigned wider sign (cs ++ rest) = .ok (r.1, r.2 ++ rest) := by
  unfold unsigned at h
  split at h
  · cases h
  · rename_i int more hint
    split_ifs at h with hlong
    cases h
    have hshort : ¬ ((fraction more).1 = [] ∧ (exponent (fraction more).2).1 = [] ∧ wider.digits < int.length) :=
      fun hlong' => hlong ⟨hlong'.1, hlong'.2.1, lt_of_le_of_lt hle hlong'.2.2⟩
    simp only [unsigned, integer_append hrest, hint, Option.map_some, fraction_append hrest, exponent_append hrest,
      if_neg hshort]

theorem number_append {limits wider : Limits} (hle : limits.digits ≤ wider.digits) {cs rest : List Char}
    {r : Json × List Char} (h : number limits cs = .ok r) (hrest : Ends rest) :
    number wider (cs ++ rest) = .ok (r.1, r.2 ++ rest) := by
  cases cs with
  | nil => cases h
  | cons c cs =>
    by_cases hminus : c = '-'
    · subst hminus
      exact unsigned_append hle h hrest
    · have hhead : ∀ ds : List Char, (c :: ds).head? ≠ some '-' := fun _ heq => hminus (Option.some.inj heq)
      rw [number_plain limits (hhead cs)] at h
      rw [List.cons_append, number_plain wider (hhead _), ← List.cons_append]
      exact unsigned_append hle h hrest

/-! ## How a value starts -/

theorem integer_digit {cs : List Char} {r : List Char × List Char} (h : integer cs = some r) :
    ∃ c ds, cs = c :: ds ∧ isDigit c = true := by
  unfold integer at h
  split at h
  · rename_i ds
    exact ⟨'0', ds, rfl, by decide⟩
  · split_ifs at h with hnone
    cases cs with
    | nil => exact absurd rfl hnone
    | cons c ds =>
      refine ⟨c, ds, rfl, ?_⟩
      by_contra hc
      exact hnone (List.takeWhile_cons_of_neg hc)

/-- a number starts with a digit, or with a minus and a digit -/
theorem number_starts {limits : Limits} {cs : List Char} {r : Json × List Char} (h : number limits cs = .ok r) :
    ∃ c ds, cs = c :: ds ∧ (isDigit c = true ∨ c = '-' ∧ ∃ d es, ds = d :: es ∧ isDigit d = true) := by
  have hdigit : ∀ {sign ds : List Char}, unsigned limits sign ds = .ok r → ∃ d es, ds = d :: es ∧ isDigit d = true := by
    intro sign ds hread
    unfold unsigned at hread
    split at hread
    · cases hread
    · rename_i hint
      exact integer_digit hint
  by_cases hminus : cs.head? = some '-'
  · obtain ⟨ds, rfl⟩ := List.head?_eq_some_iff.1 hminus
    exact ⟨'-', ds, rfl, .inr ⟨rfl, hdigit h⟩⟩
  · rw [number_plain limits hminus] at h
    obtain ⟨c, ds, rfl, hc⟩ := hdigit h
    exact ⟨c, ds, rfl, .inl hc⟩

theorem ne_of_isDigit {c : Char} (h : isDigit c = true) {d : Char} (hd : isDigit d = false) : d ≠ c := by
  rintro rfl
  rw [h] at hd
  cases hd

theorem constant_number {limits : Limits} {cs : List Char} {r : Json × List Char} (h : number limits cs = .ok r)
    (rest : List Char) :
    constant (cs ++ rest) = none := by
  obtain ⟨c, ds, rfl, hc | ⟨rfl, d, es, rfl, hd⟩⟩ := number_starts h
  · have hne := fun {d : Char} => ne_of_isDigit hc (d := d)
    simp [constant, constants, List.cons_prefix_cons, hne (d := 'n') (by decide), hne (d := 't') (by decide), hne (d := 'f') (by decide),
      hne (d := 'N') (by decide), hne (d := 'I') (by decide), hne (d := '-') (by decide)]
  · simp [constant, constants, List.cons_prefix_cons, ne_of_isDigit hd (d := 'I') (by decide)]

theorem value_plain {c : Char} (hquote : c ≠ '"') (hbrace : c ≠ '\x7b') (hbracket : c ≠ '[') (limits : Limits) (n depth : ℕ)
    (cs : List Char) :
    value limits (n + 1) depth (c :: cs) = (constant (c :: cs)).elim (number limits (c :: cs)) .ok := by
  unfold value
  split
  · rename_i heq
    cases heq
  · rename_i heq
    exact absurd (List.cons.inj heq).1 hquote
  · rename_i heq
    exact absurd (List.cons.inj heq).1 hbrace
  · rename_i heq
    exact absurd (List.cons.inj heq).1 hbracket
  · cases constant (c :: cs) <;> rfl

/-! ## Values read -/

theorem scanString_append {acc : List ℕ} {cs : List Char} {r : List ℕ × List Char} (h : scanString acc cs = some r)
    (rest : List Char) : scanString acc (cs ++ rest) = some (r.1, r.2 ++ rest) := by
  fun_induction scanString acc cs with
  | case1 => cases h
  | case2 acc cs =>
    cases h
    rfl
  | case3 acc a b c d cs w x y z ha hb hc hd ih =>
    simpa only [List.cons_append, scanString, ha, hb, hc, hd] using ih h
  | case4 => cases h
  | case5 acc c cs hshort e he ih =>
    have hu : c ≠ 'u' := fun heq => by
      rw [heq] at he
      cases he
    rw [List.cons_append, List.cons_append, scanString, he]
    · exact ih h
    · exact fun _ _ _ _ _ heq => (hu heq).elim
  | case6 => cases h
  | case7 => cases h
  | case8 acc c cs hquote hunicode hescape hlow ih =>
    rw [List.cons_append, scanString, if_neg hlow]
    · exact ih h
    · exact hquote
    · exact fun _ _ _ _ _ heq => (hlow (.inr heq)).elim
    · exact fun _ _ heq => (hlow (.inr heq)).elim

theorem string_append {cs : List Char} {r : String × List Char} (h : string cs = some r) (rest : List Char) :
    string (cs ++ rest) = some (r.1, r.2 ++ rest) := by
  obtain ⟨scanned, hscan, rfl⟩ := Option.map_eq_some_iff.1 h
  rw [string, scanString_append hscan]
  rfl

theorem constants_prefix_free : ∀ a ∈ constants.map Prod.fst, ∀ b ∈ constants.map Prod.fst, a.toList <+: b.toList → a = b := by
  decide

theorem constant_append {cs : List Char} {r : Json × List Char} (h : constant cs = some r) (rest : List Char) :
    constant (cs ++ rest) = some (r.1, r.2 ++ rest) := by
  unfold constant at h ⊢
  obtain ⟨before, ⟨name, v⟩, behind, hall, hname, hbefore⟩ := List.findSome?_eq_some_iff.1 h
  have hmem : ∀ c ∈ before, c.1 ∈ constants.map Prod.fst := fun c hc =>
    List.mem_map_of_mem (hall ▸ List.mem_append_left _ hc)
  have hmem' : name ∈ constants.map Prod.fst :=
    List.mem_map_of_mem (f := Prod.fst) (a := (name, v)) (hall ▸ List.mem_append_right _ List.mem_cons_self)
  simp only [Option.ite_none_right_eq_some] at hname
  obtain ⟨hname, heq⟩ := hname
  cases heq
  refine List.findSome?_eq_some_iff.2 ⟨before, (name, v), behind, hall, ?_, fun c hc => ?_⟩
  · have hlong := hname.length_le
    simp only [hname.trans (List.prefix_append cs rest), if_true, List.drop_append_of_le_length hlong]
  · -- another name at the start of the longer text begins this one, or this one it
    have hnot := hbefore c hc
    simp only [ite_eq_right_iff, reduceCtorEq] at hnot ⊢
    intro hlonger
    have hsame : c.1 = name := by
      rcases List.prefix_or_prefix_of_prefix hlonger (hname.trans (List.prefix_append cs rest)) with hle | hge
      · exact constants_prefix_free _ (hmem c hc) _ hmem' hle
      · exact (constants_prefix_free _ hmem' _ (hmem c hc) hge).symm
    exact hnot (hsame ▸ hname)

theorem skipBlanks_append {cs : List Char} (h : skipBlanks cs ≠ []) (rest : List Char) :
    skipBlanks (cs ++ rest) = skipBlanks cs ++ rest := by
  rw [skipBlanks, List.dropWhile_append, if_neg]
  · rfl
  · rwa [List.isEmpty_iff]

/-- what follows a value stands behind it: a bracket, or a field's or an item's comma -/
theorem skipBlanks_cons {cs ds : List Char} {c : Char} (h : skipBlanks cs = c :: ds) (rest : List Char) :
    skipBlanks (cs ++ rest) = c :: (ds ++ rest) := by
  rw [skipBlanks_append (h ▸ List.cons_ne_nil c ds), h, List.cons_append]

theorem value_bracket {cs : List Char} (h : (skipBlanks cs).head? ≠ some ']') (limits : Limits) (n depth : ℕ) :
    value limits (n + 1) (depth + 1) ('[' :: cs) = elements limits n depth [] (skipBlanks cs) := by
  rw [value, if_neg (Nat.succ_ne_zero depth)]
  split
  · rename_i heq
    rw [heq] at h
    exact absurd rfl h
  · rfl

theorem value_brace {cs : List Char} (h : (skipBlanks cs).head? ≠ some '\x7d') (limits : Limits) (n depth : ℕ) :
    value limits (n + 1) (depth + 1) ('\x7b' :: cs) = members limits n depth [] (skipBlanks cs) := by
  rw [value, if_neg (Nat.succ_ne_zero depth)]
  split
  · rename_i heq
    rw [heq] at h
    exact absurd rfl h
  · rfl

/-- how an object goes on behind a field -/
def membersBehind (limits : Limits) (n depth : ℕ) (fields : List (String × Json)) (rest : List Char) :
    Except JsonError (Json × List Char) :=
  match skipBlanks rest with
  | ',' :: cs => members limits n depth fields (skipBlanks cs)
  | '\x7d' :: cs => .ok (.obj fields, cs)
  | _ => .error .decode

/-- how an array goes on behind an item -/
def elementsBehind (limits : Limits) (n depth : ℕ) (items : List Json) (rest : List Char) :
    Except JsonError (Json × List Char) :=
  match skipBlanks rest with
  | ',' :: cs => elements limits n depth items (skipBlanks cs)
  | ']' :: cs => .ok (.arr items, cs)
  | _ => .error .decode

/-- an array read is an item read, and how it goes on -/
theorem elements_ok {limits : Limits} {n depth : ℕ} {items : List Json} {cs : List Char} {r : Json × List Char}
    (h : elements limits n depth items cs = .ok r) :
    ∃ m v rest, n = m + 1 ∧ value limits m depth cs = .ok (v, rest) ∧
      elementsBehind limits m depth (items ++ [v]) rest = .ok r := by
  cases n with
  | zero => cases h
  | succ m =>
    rw [elements] at h
    split at h
    · cases h
    · rename_i v rest hv
      exact ⟨m, v, rest, rfl, hv, h⟩

/-- an object read is a key, a colon and a value read, and how it goes on -/
theorem members_ok {limits : Limits} {n depth : ℕ} {fields : List (String × Json)} {cs : List Char} {r : Json × List Char}
    (h : members limits n depth fields cs = .ok r) :
    ∃ m ds key behind more v rest, n = m + 1 ∧ cs = '"' :: ds ∧ string ds = some (key, behind) ∧
      skipBlanks behind = ':' :: more ∧ value limits m depth (skipBlanks more) = .ok (v, rest) ∧
      membersBehind limits m depth (Dict.upsert key v fields) rest = .ok r := by
  unfold members at h
  split at h
  · rename_i m ds
    split at h
    · cases h
    · rename_i key behind hkey
      split at h
      · rename_i more hmore
        split at h
        · cases h
        · rename_i v rest hv
          exact ⟨m, ds, key, behind, more, v, rest, rfl, rfl, hkey, hmore, hv, h⟩
      · cases h
  · cases h

theorem head?_append_of_ne_nil {cs : List Char} (h : cs ≠ []) {c : Char} (hc : cs.head? ≠ some c) (rest : List Char) :
    (cs ++ rest).head? ≠ some c := by
  rwa [List.head?_append_of_ne_nil cs h]

mutual

/-- **A value is read whatever follows it**, and under wider limits. -/
theorem value_append {limits wider : Limits} (hle : limits.digits ≤ wider.digits) : ∀ (n m depth room : ℕ) (cs : List Char)
    (r : Json × List Char) (rest : List Char), value limits n depth cs = .ok r → n ≤ m → depth ≤ room → Ends rest →
    value wider m room (cs ++ rest) = .ok (r.1, r.2 ++ rest)
  | 0, _, _, _, _, _, _, h, _, _, _ => by cases h
  | n + 1, 0, _, _, _, _, _, _, hn, _, _ => absurd hn (Nat.not_succ_le_zero n)
  | n + 1, m + 1, _, _, [], _, _, h, _, _, _ => by cases h
  | n + 1, m + 1, depth, room, c :: cs, r, rest, h, hn, hroom, hrest => by
    by_cases hquote : c = '"'
    · subst hquote
      rw [value] at h
      split at h
      · rename_i s ds hs
        cases h
        rw [List.cons_append, value, string_append hs]
      · cases h
    by_cases hbrace : c = '\x7b'
    · subst hbrace
      cases depth with
      | zero => cases h
      | succ depth =>
        obtain ⟨room, rfl⟩ := Nat.exists_eq_succ_of_ne_zero (Nat.ne_of_gt (Nat.lt_of_lt_of_le (Nat.succ_pos depth) hroom))
        by_cases hempty : (skipBlanks cs).head? = some '\x7d'
        · obtain ⟨ds, hds⟩ := List.head?_eq_some_iff.1 hempty
          rw [value, if_neg (Nat.succ_ne_zero depth), hds] at h
          cases h
          rw [List.cons_append, value, if_neg (Nat.succ_ne_zero room), skipBlanks_cons hds]
          rfl
        · rw [value_brace hempty] at h
          obtain ⟨-, ds, -, -, -, -, -, -, hds, -⟩ := members_ok h
          have hne : skipBlanks cs ≠ [] := hds ▸ List.cons_ne_nil _ _
          have hskip := skipBlanks_append hne rest
          rw [List.cons_append, value_brace (hskip ▸ head?_append_of_ne_nil hne hempty rest), hskip]
          exact members_append hle n m depth room [] (skipBlanks cs) r rest h (by omega) (by omega) hrest
    by_cases hbracket : c = '['
    · subst hbracket
      cases depth with
      | zero => cases h
      | succ depth =>
        obtain ⟨room, rfl⟩ := Nat.exists_eq_succ_of_ne_zero (Nat.ne_of_gt (Nat.lt_of_lt_of_le (Nat.succ_pos depth) hroom))
        by_cases hempty : (skipBlanks cs).head? = some ']'
        · obtain ⟨ds, hds⟩ := List.head?_eq_some_iff.1 hempty
          rw [value, if_neg (Nat.succ_ne_zero depth), hds] at h
          cases h
          rw [List.cons_append, value, if_neg (Nat.succ_ne_zero room), skipBlanks_cons hds]
          rfl
        · rw [value_bracket hempty] at h
          obtain ⟨k, v, behind, -, hv, -⟩ := elements_ok h
          obtain ⟨c, ds, hds, -⟩ := value_starts hv
          have hne : skipBlanks cs ≠ [] := hds ▸ List.cons_ne_nil _ _
          have hskip := skipBlanks_append hne rest
          rw [List.cons_append, value_bracket (hskip ▸ head?_append_of_ne_nil hne hempty rest), hskip]
          exact elements_append hle n m depth room [] (skipBlanks cs) r rest h (by omega) (by omega) hrest
    rw [value_plain hquote hbrace hbracket] at h
    rw [List.cons_append, value_plain hquote hbrace hbracket, ← List.cons_append]
    cases hconstant : constant (c :: cs) with
    | some found =>
      rw [hconstant] at h
      cases h
      rw [constant_append hconstant]
      rfl
    | none =>
      rw [hconstant] at h
      have hnumber : number limits (c :: cs) = .ok r := h
      rw [constant_number hnumber]
      exact number_append hle hnumber hrest

theorem members_append {limits wider : Limits} (hle : limits.digits ≤ wider.digits) : ∀ (n m depth room : ℕ)
    (fields : List (String × Json)) (cs : List Char) (r : Json × List Char) (rest : List Char),
    members limits n depth fields cs = .ok r → n ≤ m → depth ≤ room → Ends rest →
    members wider m room fields (cs ++ rest) = .ok (r.1, r.2 ++ rest)
  | 0, _, _, _, _, _, _, _, h, _, _, _ => by cases h
  | n + 1, 0, _, _, _, _, _, _, _, hn, _, _ => absurd hn (Nat.not_succ_le_zero n)
  | n + 1, m + 1, depth, room, fields, cs, r, rest, h, hn, hroom, hrest => by
    obtain ⟨_, ds, key, behind, more, v, last, heq, rfl, hkey, hmore, hv, hbehind⟩ := members_ok h
    cases heq
    have hne : skipBlanks more ≠ [] := by
      obtain ⟨c, es, hes, -⟩ := value_starts hv
      exact hes ▸ List.cons_ne_nil c es
    have hv' := value_append hle n m depth room _ _ rest hv (by omega) hroom hrest
    rw [List.cons_append, members, string_append hkey]
    simp only [skipBlanks_cons hmore, skipBlanks_append hne, hv']
    unfold membersBehind at hbehind
    split at hbehind
    · rename_i es hes
      obtain ⟨_, fs, -, -, -, -, -, -, hfs, -⟩ := members_ok hbehind
      rw [skipBlanks_cons hes]
      simp only [skipBlanks_append (hfs ▸ List.cons_ne_nil _ fs)]
      exact members_append hle n m depth room _ _ r rest hbehind (by omega) hroom hrest
    · rename_i es hes
      cases hbehind
      rw [skipBlanks_cons hes]
      rfl
    · cases hbehind

theorem elements_append {limits wider : Limits} (hle : limits.digits ≤ wider.digits) : ∀ (n m depth room : ℕ)
    (items : List Json) (cs : List Char) (r : Json × List Char) (rest : List Char),
    elements limits n depth items cs = .ok r → n ≤ m → depth ≤ room → Ends rest →
    elements wider m room items (cs ++ rest) = .ok (r.1, r.2 ++ rest)
  | 0, _, _, _, _, _, _, _, h, _, _, _ => by cases h
  | n + 1, 0, _, _, _, _, _, _, _, hn, _, _ => absurd hn (Nat.not_succ_le_zero n)
  | n + 1, m + 1, depth, room, items, cs, r, rest, h, hn, hroom, hrest => by
    obtain ⟨_, v, last, heq, hv, hbehind⟩ := elements_ok h
    cases heq
    have hv' := value_append hle n m depth room _ _ rest hv (by omega) hroom hrest
    rw [elements, hv']
    simp only
    unfold elementsBehind at hbehind
    split at hbehind
    · rename_i es hes
      obtain ⟨_, w, more, -, hw, -⟩ := elements_ok hbehind
      obtain ⟨c, fs, hfs, -⟩ := value_starts hw
      rw [skipBlanks_cons hes]
      simp only [skipBlanks_append (hfs ▸ List.cons_ne_nil c fs)]
      exact elements_append hle n m depth room _ _ r rest hbehind (by omega) hroom hrest
    · rename_i es hes
      cases hbehind
      rw [skipBlanks_cons hes]
      rfl
    · cases hbehind

end

/-! ## Texts read -/

/-- a text has one value, within any limits and with any fuel -/
theorem value_unique {limits other : Limits} {n m depth room : ℕ} {cs : List Char} {r r' : Json × List Char}
    (h : value limits n depth cs = .ok r) (h' : value other m room cs = .ok r') : r = r' := by
  have hends : Ends [] := fun c hc => by cases hc
  have hleft : limits.digits ≤ (⟨limits.digits + other.digits, 0⟩ : Limits).digits := Nat.le_add_right _ _
  have hright : other.digits ≤ (⟨limits.digits + other.digits, 0⟩ : Limits).digits := Nat.le_add_left _ _
  have hw := value_append hleft n (n + m) depth (depth + room) cs r [] h (Nat.le_add_right _ _) (Nat.le_add_right _ _) hends
  have hw' := value_append hright m (n + m) room (depth + room) cs r' [] h' (Nat.le_add_left _ _) (Nat.le_add_left _ _) hends
  rw [hw] at hw'
  simpa [Prod.ext_iff] using hw'

theorem goesOn_of_isSpace {c : Char} (h : isSpace c = true) : goesOn c = false := by
  have hne := ne_of_isSpace h
  simp [goesOn, isDigit_of_isSpace h, (hne '.' (by decide)).symm, (hne 'e' (by decide)).symm, (hne 'E' (by decide)).symm,
    (hne '+' (by decide)).symm, (hne '-' (by decide)).symm]

/-- of spaces before a value all are blanks, or one that is none ends the reading -/
theorem skipBlanks_spaces {pre : List Char} (h : ∀ c ∈ pre, isSpace c = true) (cs : List Char) :
    skipBlanks (pre ++ cs) = skipBlanks cs ∨ ∃ c ds, skipBlanks (pre ++ cs) = c :: ds ∧ isSpace c = true := by
  induction pre with
  | nil => exact .inl rfl
  | cons c pre ih =>
    cases hc : isBlank c with
    | true =>
      rw [List.cons_append, skipBlanks, List.dropWhile_cons_of_pos hc]
      exact ih fun d hd => h d (List.mem_cons_of_mem c hd)
    | false =>
      rw [List.cons_append, skipBlanks, List.dropWhile_cons_of_neg (by rw [hc]; exact Bool.false_ne_true)]
      exact .inr ⟨c, pre ++ cs, rfl, h c List.mem_cons_self⟩

/-- The limits never change what is read, nor do spaces around the text. -/
theorem loads_surrounded {limits other : Limits} {pre cs post : List Char} {v w : Json}
    (hpre : ∀ c ∈ pre, isSpace c = true) (hpost : ∀ c ∈ post, isSpace c = true)
    (h : loads limits (pre ++ (cs ++ post)) = .ok v) (h' : loads other cs = .ok w) : v = w := by
  obtain ⟨-, rest, hv, -⟩ := loads_eq_ok h
  obtain ⟨-, rest', hw, -⟩ := loads_eq_ok h'
  obtain ⟨c, ds, hcs, -⟩ := value_starts hw
  have hends : Ends post := fun d hd => goesOn_of_isSpace (hpost d (List.mem_of_mem_head? hd))
  have hskip : skipBlanks (cs ++ post) = skipBlanks cs ++ post := skipBlanks_append (hcs ▸ List.cons_ne_nil c ds) post
  have hlonger := value_append (le_refl other.digits) _ _ _ _ _ _ post hw le_rfl le_rfl hends
  rcases skipBlanks_spaces hpre (cs ++ post) with heq | ⟨d, es, heq, hd⟩
  · rw [heq, hskip] at hv
    exact (Prod.mk.inj (value_unique hv hlonger)).1
  · obtain ⟨e, fs, hes, he⟩ := value_starts hv
    rw [heq] at hes
    cases hes
    rw [hd] at he
    cases he

end DrtmTest.Json
