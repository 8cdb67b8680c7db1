/-
JSON texts as Python's `json.loads` reads them: `loads` is total, with the exception where `json.loads` raises one, that of
the first place in the text that is wrong.

A number keeps its literal. An object keeps the last value of a repeated key, in the place of the first. The two halves
of an escaped surrogate pair make one character, a half alone reads as U+FFFD. `NaN` and the infinities are accepted, a
control character inside a string is not.

`Limits` is what the interpreter sets: `int` takes no literal of more digits (4300 unless configured), and an object or
array inside as many others as there is stack left for is a `RecursionError`.

- `loads_not_blank`: a text that reads as a value is not blank.

The recursion is on a fuel argument. Every nested call starts behind a character already read, so the length of the
text is fuel enough.
-/
import DrtmTest.Core.Dict
import DrtmTest.Core.Text

namespace DrtmTest

inductive Json where
  | null
  | bool (b : Bool)
  | num (literal : String)
  | str (s : String)
  | arr (items : List Json)
  | obj (fields : List (String × Json))

/-- what `json.loads` raises -/
inductive JsonError where
  /-- `JSONDecodeError` -/
  | decode
  /-- an integer of more digits than `int` takes -/
  | valueError
  /-- objects and arrays nested too deep -/
  | recursionError
deriving DecidableEq

namespace Json

structure Limits where
  /-- `sys.get_int_max_str_digits()` -/
  digits : ℕ
  /-- the nested calls the stack has room for -/
  depth : ℕ

/-- the blanks JSON allows between tokens -/
def isBlank (c : Char) : Bool := c = ' ' ∨ c = '\t' ∨ c = '\n' ∨ c = '\r'

def skipBlanks (cs : List Char) : List Char := cs.dropWhile isBlank

def isDigit (c : Char) : Bool := '0' ≤ c ∧ c ≤ '9'

def hexVal (c : Char) : Option ℕ :=
  if '0' ≤ c ∧ c ≤ '9' then some (c.toNat - '0'.toNat)
  else if 'a' ≤ c ∧ c ≤ 'f' then some (c.toNat - 'a'.toNat + 10)
  else if 'A' ≤ c ∧ c ≤ 'F' then some (c.toNat - 'A'.toNat + 10)
  else none

/-- the escapes of one character -/
def escape (c : Char) : Option ℕ :=
  match c with
  | '"' => some 0x22
  | '\\' => some 0x5C
  | '/' => some 0x2F
  | 'b' => some 8
  | 'f' => some 12
  | 'n' => some 10
  | 'r' => some 13
  | 't' => some 9
  | _ => none

/-- a string behind its opening quote: code points, surrogates not yet joined, and what follows the closing quote -/
def scanString (acc : List ℕ) : List Char → Option (List ℕ × List Char)
  | [] => none
  | '"' :: cs => some (acc, cs)
  | '\\' :: 'u' :: a :: b :: c :: d :: cs =>
    match hexVal a, hexVal b, hexVal c, hexVal d with
    | some a, some b, some c, some d => scanString (acc ++ [4096 * a + 256 * b + 16 * c + d]) cs
    | _, _, _, _ => none
  | '\\' :: c :: cs =>
    match escape c with
    | some e => scanString (acc ++ [e]) cs
    | none => none
  | c :: cs => if c.toNat < 0x20 ∨ c = '\\' then none else scanString (acc ++ [c.toNat]) cs

def joinSurrogates : List ℕ → List Char
  | [] => []
  | [n] => [if 0xD800 ≤ n ∧ n ≤ 0xDFFF then '\uFFFD' else Char.ofNat n]
  | n :: m :: ns =>
    if 0xD800 ≤ n ∧ n ≤ 0xDBFF ∧ 0xDC00 ≤ m ∧ m ≤ 0xDFFF then
      Char.ofNat (0x10000 + 0x400 * (n - 0xD800) + (m - 0xDC00)) :: joinSurrogates ns
    else (if 0xD800 ≤ n ∧ n ≤ 0xDFFF then '\uFFFD' else Char.ofNat n) :: joinSurrogates (m :: ns)

def string (cs : List Char) : Option (String × List Char) :=
  (scanString [] cs).map fun r => (String.ofList (joinSurrogates r.1), r.2)

/-- the digits the text starts with -/
def digits (cs : List Char) : List Char × List Char := (cs.takeWhile isDigit, cs.dropWhile isDigit)

/-- a fraction or an exponent, when one stands whole at the start of the text -/
def fraction : List Char → List Char × List Char
  | '.' :: cs => if (digits cs).1 = [] then ([], '.' :: cs) else ('.' :: (digits cs).1, (digits cs).2)
  | cs => ([], cs)

def exponent : List Char → List Char × List Char
  | e :: s :: cs =>
    if e = 'e' ∨ e = 'E' then
      if s = '+' ∨ s = '-' then
        if (digits cs).1 = [] then ([], e :: s :: cs) else (e :: s :: (digits cs).1, (digits cs).2)
      else if (digits (s :: cs)).1 = [] then ([], e :: s :: cs)
      else (e :: (digits (s :: cs)).1, (digits (s :: cs)).2)
    else ([], e :: s :: cs)
  | cs => ([], cs)

/-- an integer without a leading zero -/
def integer : List Char → Option (List Char × List Char)
  | '0' :: cs => some (['0'], cs)
  | cs => if (digits cs).1 = [] then none else some (digits cs)

/-- `parse_int` where there is neither fraction nor exponent, `parse_float` else, which takes any number of digits -/
def number (limits : Limits) (cs : List Char) : Except JsonError (Json × List Char) :=
  let (sign, cs) := match cs with
    | '-' :: cs => (['-'], cs)
    | cs => ([], cs)
  match integer cs with
  | none => .error .decode
  | some (int, cs) =>
    let (frac, cs) := fraction cs
    let (exp, cs) := exponent cs
    if frac = [] ∧ exp = [] ∧ limits.digits < int.length then .error .valueError
    else .ok (.num (String.ofList (sign ++ int ++ frac ++ exp)), cs)

/-- the constants of the grammar -/
def constants : List (String × Json) :=
  [("null", .null), ("true", .bool true), ("false", .bool false), ("NaN", .num "NaN"), ("Infinity", .num "Infinity"),
    ("-Infinity", .num "-Infinity")]

/-- a constant at the start of the text -/
def constant (cs : List Char) : Option (Json × List Char) :=
  constants.findSome? fun (name, v) => if name.toList <+: cs then some (v, cs.drop name.toList.length) else none

mutual

/-- a value, inside so many fewer objects and arrays as `depth` is below the limit -/
def value (limits : Limits) : ℕ → ℕ → List Char → Except JsonError (Json × List Char)
  | 0, _, _ => .error .decode
  | _ + 1, _, '"' :: cs =>
    match string cs with
    | some (s, cs) => .ok (.str s, cs)
    | none => .error .decode
  | n + 1, depth, '{' :: cs =>
    if depth = 0 then .error .recursionError
    else match skipBlanks cs with
      | '}' :: cs => .ok (.obj [], cs)
      | cs => members limits n (depth - 1) [] cs
  | n + 1, depth, '[' :: cs =>
    if depth = 0 then .error .recursionError
    else match skipBlanks cs with
      | ']' :: cs => .ok (.arr [], cs)
      | cs => elements limits n (depth - 1) [] cs
  | _ + 1, _, cs =>
    match constant cs with
    | some r => .ok r
    | none => number limits cs

/-- the rest of an object from a key on -/
def members (limits : Limits) : ℕ → ℕ → List (String × Json) → List Char → Except JsonError (Json × List Char)
  | n + 1, depth, fields, '"' :: cs =>
    match string cs with
    | none => .error .decode
    | some (key, cs) =>
      match skipBlanks cs with
      | ':' :: cs =>
        match value limits n depth (skipBlanks cs) with
        | .error e => .error e
        | .ok (v, cs) =>
          match skipBlanks cs with
          | ',' :: cs => members limits n depth (Dict.upsert key v fields) (skipBlanks cs)
          | '}' :: cs => .ok (.obj (Dict.upsert key v fields), cs)
          | _ => .error .decode
      | _ => .error .decode
  | _, _, _, _ => .error .decode

/-- the rest of an array from an item on -/
def elements (limits : Limits) : ℕ → ℕ → List Json → List Char → Except JsonError (Json × List Char)
  | 0, _, _, _ => .error .decode
  | n + 1, depth, items, cs =>
    match value limits n depth cs with
    | .error e => .error e
    | .ok (v, cs) =>
      match skipBlanks cs with
      | ',' :: cs => elements limits n depth (items ++ [v]) (skipBlanks cs)
      | ']' :: cs => .ok (.arr (items ++ [v]), cs)
      | _ => .error .decode

end

/-- `json.loads` -/
def loads (limits : Limits) (cs : List Char) : Except JsonError Json :=
  if cs.head? = some '\uFEFF' then .error .decode
  else match value limits (cs.length + 1) limits.depth (skipBlanks cs) with
    | .ok (v, rest) => if skipBlanks rest = [] then .ok v else .error .decode
    | .error e => .error e

/-! ## Strings written -/

/-- four hex digits -/
def hex4 (n : ℕ) : List Char :=
  [Nat.digitChar (n / 4096 % 16), Nat.digitChar (n / 256 % 16), Nat.digitChar (n / 16 % 16), Nat.digitChar (n % 16)]

/-- one character of a string as `json.dumps` writes it, in ASCII -/
def dumpsChar (c : Char) : List Char :=
  let n := c.toNat
  match c with
  | '"' => ['\\', '"']
  | '\\' => ['\\', '\\']
  | '\n' => ['\\', 'n']
  | '\r' => ['\\', 'r']
  | '\t' => ['\\', 't']
  | '\x0c' => ['\\', 'f']
  | '\x08' => ['\\', 'b']
  | _ =>
    if 0x20 ≤ n ∧ n ≤ 0x7E then [c]
    else if n < 0x10000 then '\\' :: 'u' :: hex4 n
    else '\\' :: 'u' :: hex4 (0xD800 + (n - 0x10000) / 0x400) ++ '\\' :: 'u' :: hex4 (0xDC00 + (n - 0x10000) % 0x400)

/-- `json.dumps` of a string -/
def dumpsString (s : String) : List Char := '"' :: s.toList.flatMap dumpsChar ++ ['"']

example : dumpsString "a\"\né✅" = "\"a\\\"\\n\\u00e9\\u2705\"".toList := by decide

/-! ## Blank texts -/

open Text

theorem isDigit_of_isSpace {c : Char} (hc : isSpace c = true) : isDigit c = false := by
  cases h : isDigit c with
  | false => rfl
  | true =>
    simp only [isSpace, isDigit, Char.le_def, UInt32.le_iff_toNat_le, decide_eq_true_eq] at hc h
    change _ ≤ c.toNat ∧ c.toNat ≤ _ at h
    simp only [Char.reduceVal, UInt32.reduceToNat] at h
    omega

theorem ne_of_isSpace {c : Char} (hc : isSpace c = true) (d : Char) (hd : isSpace d = false) : d ≠ c := by
  rintro rfl
  rw [hc] at hd
  cases hd

theorem constant_space {c : Char} {cs : List Char} (hc : isSpace c = true) : constant (c :: cs) = none := by
  have hne := ne_of_isSpace hc
  simp [constant, constants, List.cons_prefix_cons, hne 'n' (by decide), hne 't' (by decide), hne 'f' (by decide),
    hne 'N' (by decide), hne 'I' (by decide), hne '-' (by decide)]

theorem integer_space {c : Char} {cs : List Char} (hc : isSpace c = true) : integer (c :: cs) = none := by
  unfold integer
  split
  · rename_i heq
    exact absurd (List.head_eq_of_cons_eq heq).symm (ne_of_isSpace hc '0' (by decide))
  · simp [digits, isDigit_of_isSpace hc]

theorem number_space {limits : Limits} {c : Char} {cs : List Char} (hc : isSpace c = true) :
    number limits (c :: cs) = .error .decode := by
  unfold number
  split
  rename_i h
  split at h
  · rename_i heq
    exact absurd (List.head_eq_of_cons_eq heq).symm (ne_of_isSpace hc '-' (by decide))
  · cases h
    rw [integer_space hc]

/-- a blank starts no value: each kind of value starts with a character of its own -/
theorem value_space {limits : Limits} {n depth : ℕ} {c : Char} {cs : List Char} (hc : isSpace c = true) :
    value limits (n + 1) depth (c :: cs) = .error .decode := by
  have hne := ne_of_isSpace hc
  unfold value
  split
  · rfl
  · rename_i heq
    exact absurd (List.head_eq_of_cons_eq heq).symm (hne '"' (by decide))
  · rename_i heq
    exact absurd (List.head_eq_of_cons_eq heq).symm (hne '{' (by decide))
  · rename_i heq
    exact absurd (List.head_eq_of_cons_eq heq).symm (hne '[' (by decide))
  · rw [constant_space hc]
    exact number_space hc

/-- a value starts with no space -/
theorem value_starts {limits : Limits} {n depth : ℕ} {cs : List Char} {r : Json × List Char}
    (h : value limits n depth cs = .ok r) : ∃ c ds, cs = c :: ds ∧ isSpace c = false := by
  cases n with
  | zero => cases h
  | succ n =>
    cases cs with
    | nil => cases h
    | cons c ds =>
      refine ⟨c, ds, rfl, ?_⟩
      cases hc : isSpace c with
      | false => rfl
      | true =>
        rw [value_space hc] at h
        cases h

/-- the value a text is, and where it stands -/
theorem loads_eq_ok {limits : Limits} {cs : List Char} {v : Json} (h : loads limits cs = .ok v) :
    cs.head? ≠ some '\uFEFF' ∧
      ∃ rest, value limits (cs.length + 1) limits.depth (skipBlanks cs) = .ok (v, rest) ∧ skipBlanks rest = [] := by
  unfold loads at h
  split_ifs at h with hmark
  refine ⟨hmark, ?_⟩
  split at h
  · rename_i w rest hvalue
    split_ifs at h with hrest
    cases h
    exact ⟨rest, hvalue, hrest⟩
  · cases h

/-- a text that reads as a value has more than spaces in it -/
theorem loads_not_blank {limits : Limits} {cs : List Char} {v : Json} (h : loads limits cs = .ok v) :
    ∃ c ∈ cs, isSpace c = false := by
  obtain ⟨-, rest, hvalue, -⟩ := loads_eq_ok h
  obtain ⟨c, ds, heq, hc⟩ := value_starts hvalue
  refine ⟨c, (List.dropWhile_suffix isBlank).subset ?_, hc⟩
  rw [← skipBlanks, heq]
  exact List.mem_cons_self

end Json

end DrtmTest
