/-
The leftmost occurrence of a pattern in a list, and what a growing buffer can know of it.

- `find`: the index of the leftmost occurrence (`find_eq_some`, `find_eq_none`).
- `find_extend`, `find_restrict`: an occurrence found in a prefix of a stream is the leftmost of the whole stream, and
  the leftmost of the stream is found in every prefix that holds it to its end. So a search that waits for more input
  never has to take an answer back.
- `ends`: how much of a buffer the leftmost occurrence needs.
- `cut`, `cuts`: the slices a cursor returns that moves behind each pattern in turn. They are a prefix of the stream
  (`cuts_flatten`).
- `whole_pieces`: in a sequence of pieces that end in a mark, what ends in the mark is whole pieces.
- `occurrences`: how often one pattern can be cut off (`le_occurrences`, `occurrences_eq`).
- `appearances`: where the pattern appears from a position on, leftmost first and without overlap. A search from behind
  the last one found finds the next (`appearances_found`, `appearances_none`).
-/
import Mathlib.Data.List.Infix
import Mathlib.Tactic

namespace DrtmTest.Find

variable {α : Type}

/-- the pattern stands in the buffer at `i` -/
def At (pat buf : List α) (i : ℕ) : Prop := i ≤ buf.length ∧ pat <+: buf.drop i

theorem At.le {pat buf : List α} {i : ℕ} (h : At pat buf i) : i + pat.length ≤ buf.length := by
  have hlen := h.2.length_le
  have := h.1
  rw [List.length_drop] at hlen
  omega

theorem at_succ {pat xs : List α} {x : α} {i : ℕ} : At pat (x :: xs) (i + 1) ↔ At pat xs i := by
  simp [At]

theorem At.extend {pat buf stream : List α} {i : ℕ} (hp : buf <+: stream) (h : At pat buf i) : At pat stream i :=
  ⟨h.1.trans hp.length_le, h.2.trans (hp.drop i)⟩

theorem At.restrict {pat buf stream : List α} {i : ℕ} (hp : buf <+: stream) (h : At pat stream i)
    (hlen : i + pat.length ≤ buf.length) : At pat buf i := by
  refine ⟨by omega, List.prefix_of_prefix_length_le h.2 (hp.drop i) ?_⟩
  rw [List.length_drop]
  omega

/-! ## Pieces that end in a mark -/

/-- a list that ends in its only `x` -/
def EndsIn (x : α) (piece : List α) : Prop := ∃ body, piece = body ++ [x] ∧ x ∉ body

/-- what begins a sequence of such pieces and ends in a mark itself is a number of whole pieces -/
theorem whole_pieces {x : α} {pieces : List (List α)} (hpieces : ∀ p ∈ pieces, EndsIn x p) {pre rest : List α}
    (h : pre ++ rest = pieces.flatten) (hlast : pre = [] ∨ pre.getLast? = some x) :
    ∃ k, pre = (pieces.take k).flatten ∧ rest = (pieces.drop k).flatten := by
  induction pieces generalizing pre with
  | nil => exact ⟨0, (List.append_eq_nil_iff.1 h).1, (List.append_eq_nil_iff.1 h).2⟩
  | cons p ps ih =>
    obtain ⟨body, hp, hx⟩ := hpieces p List.mem_cons_self
    rw [List.flatten_cons] at h
    rcases List.append_eq_append_iff.1 h with ⟨tail, hpre, hrest⟩ | ⟨pre', rfl, hps⟩
    · -- the whole of `pre` is in the first piece
      rcases hlast with rfl | hlast
      · exact ⟨0, rfl, h⟩
      · cases tail with
        | nil =>
          rw [List.append_nil] at hpre
          exact ⟨1, by simp [hpre], by simpa using hrest⟩
        | cons t ts =>
          obtain ⟨front, hfront⟩ := List.getLast?_eq_some_iff.1 hlast
          have hbody : x ∈ body := by
            have hsplit : body ++ [x] = front ++ [x] ++ t :: ts := by rw [← hp, hpre, hfront]
            have hlen := congrArg List.length hsplit
            simp only [List.length_append, List.length_cons, List.length_nil] at hlen
            have hmem : (body ++ [x])[front.length]? = some x := by simp [hsplit]
            rw [List.getElem?_append_left (by omega)] at hmem
            exact List.mem_of_getElem? hmem
          exact absurd hbody hx
    · have hlast' : pre' = [] ∨ pre'.getLast? = some x := by
        rcases pre'.eq_nil_or_concat with hnil | ⟨front, y, hy⟩
        · exact Or.inl hnil
        · rw [List.concat_eq_append] at hy
          simpa [hy, ← List.append_assoc] using hlast
      obtain ⟨k, hk, hk'⟩ := ih (fun q hq => hpieces q (List.mem_cons_of_mem p hq)) hps.symm hlast'
      exact ⟨k + 1, by rw [hk]; rfl, hk'⟩

/-! ## The leftmost occurrence -/

variable [DecidableEq α]

/-- the index of the leftmost occurrence -/
def find (pat : List α) : List α → Option ℕ
  | [] => if pat = [] then some 0 else none
  | x :: xs => if pat <+: x :: xs then some 0 else (find pat xs).map (· + 1)

theorem find_eq_some {pat buf : List α} {i : ℕ} : find pat buf = some i ↔ At pat buf i ∧ ∀ j < i, ¬ At pat buf j := by
  induction buf generalizing i with
  | nil =>
    simp only [find, At, List.length_nil, Nat.le_zero, List.drop_nil, List.prefix_nil]
    split_ifs with h
    · simp only [Option.some.injEq]
      constructor
      · rintro rfl; exact ⟨⟨rfl, h⟩, by simp⟩
      · rintro ⟨⟨rfl, -⟩, -⟩; rfl
    · simp [h]
  | cons x xs ih =>
    simp only [find]
    split_ifs with h
    · have h0 : At pat (x :: xs) 0 := ⟨Nat.zero_le _, h⟩
      constructor
      · rintro heq; cases heq; exact ⟨h0, by simp⟩
      · rintro ⟨-, hmin⟩
        cases i with
        | zero => rfl
        | succ i => exact absurd h0 (hmin 0 (Nat.succ_pos i))
    · have h0 : ¬ At pat (x :: xs) 0 := fun h' => h h'.2
      cases i with
      | zero => simp [h0]
      | succ i =>
        rw [Option.map_eq_some_iff]
        constructor
        · rintro ⟨k, hk, heq⟩
          cases heq
          obtain ⟨hat, hmin⟩ := ih.1 hk
          refine ⟨at_succ.2 hat, fun j hj => ?_⟩
          cases j with
          | zero => exact h0
          | succ j => exact fun hj' => hmin j (by omega) (at_succ.1 hj')
        · rintro ⟨hat, hmin⟩
          exact ⟨i, ih.2 ⟨at_succ.1 hat, fun j hj hj' => hmin (j + 1) (by omega) (at_succ.2 hj')⟩, rfl⟩

theorem find_eq_none {pat buf : List α} : find pat buf = none ↔ ∀ i, ¬ At pat buf i := by
  constructor
  · intro h i
    induction i using Nat.strong_induction_on with
    | _ i ih =>
      intro hat
      rw [find_eq_some.2 ⟨hat, ih⟩] at h
      cases h
  · intro h
    cases hf : find pat buf with
    | none => rfl
    | some i => exact absurd (find_eq_some.1 hf).1 (h i)

/-! ## Prefixes of a stream -/

/-- an occurrence found in a prefix is the leftmost of the stream -/
theorem find_extend {pat buf stream : List α} {i : ℕ} (hp : buf <+: stream) (h : find pat buf = some i) :
    find pat stream = some i := by
  obtain ⟨hat, hmin⟩ := find_eq_some.1 h
  refine find_eq_some.2 ⟨hat.extend hp, fun j hj hj' => hmin j hj (hj'.restrict hp ?_)⟩
  have := hat.le
  omega

/-- the leftmost occurrence of the stream is found in a prefix that holds it -/
theorem find_restrict {pat buf stream : List α} {i : ℕ} (hp : buf <+: stream) (h : find pat stream = some i)
    (hlen : i + pat.length ≤ buf.length) : find pat buf = some i := by
  obtain ⟨hat, hmin⟩ := find_eq_some.1 h
  exact find_eq_some.2 ⟨hat.restrict hp hlen, fun j hj hj' => hmin j hj (hj'.extend hp)⟩

/-- how many elements of the stream the leftmost occurrence takes, `none` when there is none -/
def ends (pat stream : List α) : Option ℕ := (find pat stream).map (· + pat.length)

theorem ends_eq_some {pat stream : List α} {e : ℕ} :
    ends pat stream = some e ↔ ∃ i, find pat stream = some i ∧ i + pat.length = e := by
  simp [ends, Option.map_eq_some_iff]

theorem ends_le {pat stream : List α} {e : ℕ} (h : ends pat stream = some e) : e ≤ stream.length := by
  obtain ⟨i, hi, rfl⟩ := ends_eq_some.1 h
  exact (find_eq_some.1 hi).1.le

/-- a prefix finds the pattern exactly from `ends` on -/
theorem find_isSome_extend {pat buf stream : List α} (hp : buf <+: stream) :
    (find pat buf).isSome ↔ ∃ e, ends pat stream = some e ∧ e ≤ buf.length := by
  constructor
  · intro h
    obtain ⟨i, hi⟩ := Option.isSome_iff_exists.1 h
    exact ⟨i + pat.length, ends_eq_some.2 ⟨i, find_extend hp hi, rfl⟩, (find_eq_some.1 hi).1.le⟩
  · rintro ⟨e, he, hle⟩
    obtain ⟨i, hi, rfl⟩ := ends_eq_some.1 he
    rw [find_restrict hp hi hle]
    rfl

/-! ## Cutting a stream behind its patterns -/

/-- the stream up to the end of the leftmost occurrence, and what follows -/
def cut (pat stream : List α) : Option (List α × List α) :=
  (ends pat stream).map fun e => (stream.take e, stream.drop e)

theorem cut_found {pat stream : List α} {i : ℕ} (h : find pat stream = some i) :
    cut pat stream = some (stream.take (i + pat.length), stream.drop (i + pat.length)) := by
  rw [cut, ends_eq_some.2 ⟨i, h, rfl⟩, Option.map_some]

theorem cut_append {pat stream slice rest : List α} (h : cut pat stream = some (slice, rest)) :
    slice ++ rest = stream := by
  obtain ⟨e, -, he⟩ := Option.map_eq_some_iff.1 h
  cases he
  exact List.take_append_drop e stream

/-- what a prefix cuts off, the stream cuts off -/
theorem cut_extend {pat buf stream slice rest : List α} (hp : buf <+: stream)
    (h : cut pat buf = some (slice, rest)) : cut pat stream = some (slice, stream.drop slice.length) := by
  obtain ⟨e, he, heq⟩ := Option.map_eq_some_iff.1 h
  cases heq
  have hle : e ≤ buf.length := ends_le he
  obtain ⟨i, hi, rfl⟩ := ends_eq_some.1 he
  have hs : ends pat stream = some (i + pat.length) := ends_eq_some.2 ⟨i, find_extend hp hi, rfl⟩
  obtain ⟨more, rfl⟩ := hp
  rw [cut, hs, List.length_take, Nat.min_eq_left hle, Option.map_some, List.take_append_of_le_length hle]

theorem cut_more {pat stream slice rest : List α} (h : cut pat stream = some (slice, rest)) (more : List α) :
    cut pat (stream ++ more) = some (slice, rest ++ more) := by
  rw [cut_extend (List.prefix_append stream more) h, ← cut_append h, List.append_assoc, List.drop_left]

/-- a pattern whose first element is new is cut off where that element is -/
theorem cut_fresh {x : α} {before : List α} (hx : x ∉ before) (pat after : List α) :
    cut (x :: pat) (before ++ x :: pat ++ after) = some (before ++ x :: pat, after) := by
  have hfind : find (x :: pat) (before ++ x :: pat ++ after) = some before.length := by
    refine find_eq_some.2 ⟨⟨by simp, ?_⟩, fun j hj hat => hx ?_⟩
    · rw [List.append_assoc, List.drop_left]
      exact List.prefix_append _ _
    · obtain ⟨more, hmore⟩ := hat.2
      have hget : (before ++ x :: pat ++ after)[j]? = some x := by
        rw [← List.head?_drop, ← hmore]
        rfl
      rw [List.append_assoc, List.getElem?_append_left hj] at hget
      exact List.mem_of_getElem? hget
  rw [cut_found hfind, ← List.length_append, List.take_left, List.drop_left]

/-- without its first element there is no pattern -/
theorem cut_none {x : α} {stream : List α} (hx : x ∉ stream) (pat : List α) : cut (x :: pat) stream = none := by
  have hfind : find (x :: pat) stream = none := by
    refine find_eq_none.2 fun i hat => hx ?_
    obtain ⟨more, hmore⟩ := hat.2
    have hmem : x ∈ x :: pat ++ more := List.mem_cons_self
    rw [hmore] at hmem
    exact List.mem_of_mem_drop hmem
  rw [cut, ends, hfind]
  rfl

theorem cut_missing {pat stream : List α} (h : find pat stream = none) : cut pat stream = none := by
  rw [cut, ends, h]
  rfl

/-- a pattern whose first element comes once is cut off where it stands, if what is before holds none -/
theorem cut_first {x : α} {pat before : List α} (hx : x ∉ pat) (hb : find (x :: pat) before = none) (after : List α) :
    cut (x :: pat) (before ++ x :: pat ++ after) = some (before ++ x :: pat, after) := by
  have hfind : find (x :: pat) (before ++ x :: pat ++ after) = some before.length := by
    refine find_eq_some.2 ⟨⟨by simp, ?_⟩, fun j hj hat => ?_⟩
    · rw [List.append_assoc, List.drop_left]
      exact List.prefix_append _ _
    · rcases Nat.lt_or_ge before.length (j + (x :: pat).length) with hlong | hshort
      · -- it would end inside the pattern, whose first element is its own
        obtain ⟨more, hmore⟩ := hat.2
        have hget : (x :: pat ++ more)[before.length - j]? = some x := by
          rw [hmore, List.getElem?_drop, Nat.add_sub_cancel' hj.le, List.append_assoc,
            List.getElem?_append_right le_rfl, Nat.sub_self]
          rfl
        obtain ⟨d, hd⟩ := Nat.exists_eq_add_of_lt hj
        rw [show before.length - j = d + 1 by omega, List.cons_append, List.getElem?_cons_succ,
          List.getElem?_append_left (by simp only [List.length_cons] at hlong; omega)] at hget
        exact hx (List.mem_of_getElem? hget)
      · rw [List.append_assoc] at hat
        exact find_eq_none.1 hb j (hat.restrict (List.prefix_append _ _) hshort)
  rw [cut_found hfind, ← List.length_append, List.take_left, List.drop_left]

/-- one slice for each pattern, `none` when one does not occur in what is left -/
def cuts (stream : List α) : List (List α) → Option (List (List α))
  | [] => some []
  | pat :: pats =>
    match cut pat stream with
    | none => none
    | some (slice, rest) => (cuts rest pats).map (slice :: ·)

theorem cuts_extend {buf stream : List α} {pats slices : List (List α)} (hp : buf <+: stream)
    (h : cuts buf pats = some slices) : cuts stream pats = some slices := by
  induction pats generalizing buf stream slices with
  | nil => exact h
  | cons pat pats ih =>
    simp only [cuts] at h ⊢
    split at h
    · cases h
    · rename_i slice rest hc
      obtain ⟨tail, ht, rfl⟩ := Option.map_eq_some_iff.1 h
      have hrest : rest <+: stream.drop slice.length := by
        obtain ⟨more, rfl⟩ := hp
        rw [← cut_append hc, List.append_assoc, List.drop_left]
        exact List.prefix_append _ _
      rw [cut_extend hp hc]
      simp only [ih hrest ht, Option.map_some]

theorem cuts_flatten {stream : List α} {pats slices : List (List α)} (h : cuts stream pats = some slices) :
    slices.flatten <+: stream := by
  induction pats generalizing stream slices with
  | nil => cases h; exact List.nil_prefix
  | cons pat pats ih =>
    simp only [cuts] at h
    split at h
    · cases h
    · rename_i slice rest hc
      obtain ⟨tail, ht, rfl⟩ := Option.map_eq_some_iff.1 h
      rw [List.flatten_cons, ← cut_append hc]
      exact (List.prefix_append_right_inj slice).2 (ih ht)

theorem cut_rest {pat stream slice rest : List α} (h : cut pat stream = some (slice, rest)) :
    rest = stream.drop slice.length := by
  rw [← cut_append h, List.drop_left]

theorem cuts_append (stream : List α) (pats more : List (List α)) :
    cuts stream (pats ++ more) = (cuts stream pats).bind fun slices =>
      (cuts (stream.drop slices.flatten.length) more).map (slices ++ ·) := by
  induction pats generalizing stream with
  | nil => simp [cuts]
  | cons pat pats ih =>
    simp only [List.cons_append, cuts]
    cases hc : cut pat stream with
    | none => rfl
    | some p =>
      obtain ⟨slice, rest⟩ := p
      simp only [ih, cut_rest hc]
      cases cuts (stream.drop slice.length) pats with
      | none => rfl
      | some slices =>
        simp [List.drop_drop, Function.comp_def]

/-! ## Counting a pattern -/

/-- how many occurrences a cursor finds one behind the other -/
def occurrences (pat stream : List α) : ℕ :=
  Nat.findGreatest (fun k => (cuts stream (List.replicate k pat)).isSome) stream.length

theorem cuts_replicate_le {pat stream : List α} (hne : pat ≠ []) {k : ℕ}
    (h : (cuts stream (List.replicate k pat)).isSome) : k ≤ stream.length := by
  induction k generalizing stream with
  | zero => exact Nat.zero_le _
  | succ k ih =>
    simp only [List.replicate_succ, cuts] at h
    split at h
    · cases h
    · rename_i slice rest hc
      rw [Option.isSome_map] at h
      have hk := ih h
      obtain ⟨e, he, heq⟩ := Option.map_eq_some_iff.1 hc
      cases heq
      obtain ⟨i, -, rfl⟩ := ends_eq_some.1 he
      have hle := ends_le he
      have hpos := List.length_pos_iff.2 hne
      rw [List.length_drop] at hk
      omega

theorem le_occurrences {pat stream : List α} (hne : pat ≠ []) {k : ℕ}
    (h : (cuts stream (List.replicate k pat)).isSome) : k ≤ occurrences pat stream :=
  Nat.le_findGreatest (cuts_replicate_le hne h) h

/-- **Every occurrence is used up.** When `k` are cut off and what is left holds none, there were `k`. -/
theorem occurrences_eq {pat stream : List α} (hne : pat ≠ []) {slices : List (List α)}
    (h : cuts stream (List.replicate slices.length pat) = some slices)
    (hnone : find pat (stream.drop slices.flatten.length) = none) : occurrences pat stream = slices.length := by
  refine le_antisymm ?_ (le_occurrences hne (by rw [h]; rfl))
  have hspec : (cuts stream (List.replicate (occurrences pat stream) pat)).isSome :=
    Nat.findGreatest_spec (P := fun k => (cuts stream (List.replicate k pat)).isSome) (Nat.zero_le _) rfl
  by_contra hlt
  obtain ⟨d, hd⟩ := Nat.exists_eq_add_of_lt (Nat.lt_of_not_le hlt)
  have hstuck : cut pat (stream.drop slices.flatten.length) = none := by
    rw [cut, ends, hnone]
    rfl
  rw [hd, Nat.add_assoc, List.replicate_add, cuts_append, h, Option.bind_some, List.replicate_succ] at hspec
  simp only [cuts, hstuck, Option.map_none, Option.isSome_none] at hspec
  cases hspec

/-! ## Every appearance -/

/-- `i` is the index of the head, and `skip` elements are still part of an appearance -/
def appearancesFrom (pat : List α) : ℕ → ℕ → List α → List ℕ
  | _, _, [] => []
  | i, skip + 1, _ :: xs => appearancesFrom pat (i + 1) skip xs
  | i, 0, x :: xs =>
    if pat <+: x :: xs then i :: appearancesFrom pat (i + 1) (pat.length - 1) xs else appearancesFrom pat (i + 1) 0 xs

/-- where the pattern appears from `start` on, leftmost first and without overlap -/
def appearances (pat stream : List α) (start : ℕ) : List ℕ := appearancesFrom pat start 0 (stream.drop start)

theorem appearancesFrom_skip (pat : List α) (i skip : ℕ) (xs : List α) :
    appearancesFrom pat i skip xs = appearancesFrom pat (i + skip) 0 (xs.drop skip) := by
  induction skip generalizing i xs with
  | zero => rfl
  | succ skip ih =>
    cases xs with
    | nil => rfl
    | cons x xs =>
      rw [appearancesFrom, ih, Nat.add_right_comm]
      rfl

theorem appearancesFrom_found {pat xs : List α} (hpat : pat ≠ []) {i j : ℕ} (h : find pat xs = some j) :
    appearancesFrom pat i 0 xs = (i + j) :: appearancesFrom pat (i + j + pat.length) 0 (xs.drop (j + pat.length)) := by
  obtain ⟨n, hn⟩ := Nat.exists_eq_succ_of_ne_zero (mt List.length_eq_zero_iff.1 hpat)
  induction xs generalizing i j with
  | nil => rw [find, if_neg hpat] at h; cases h
  | cons x xs ih =>
    rw [find] at h
    rw [appearancesFrom]
    split_ifs at h ⊢ with hp
    · cases h
      rw [appearancesFrom_skip, hn, Nat.zero_add, List.drop_succ_cons, Nat.succ_sub_one, Nat.add_assoc, Nat.add_comm 1]
      rfl
    · obtain ⟨k, hk, rfl⟩ := Option.map_eq_some_iff.1 h
      rw [ih hk, show i + 1 + k = i + (k + 1) by omega, Nat.add_right_comm k 1, List.drop_succ_cons]

theorem appearancesFrom_none {pat xs : List α} (h : find pat xs = none) (i : ℕ) : appearancesFrom pat i 0 xs = [] := by
  induction xs generalizing i with
  | nil => rfl
  | cons x xs ih =>
    rw [find] at h
    rw [appearancesFrom]
    split_ifs at h ⊢
    exact ih (Option.map_eq_none_iff.1 h) (i + 1)

theorem appearances_found {pat stream : List α} (hpat : pat ≠ []) {start j : ℕ}
    (h : find pat (stream.drop start) = some j) :
    appearances pat stream start = (start + j) :: appearances pat stream (start + j + pat.length) := by
  rw [appearances, appearancesFrom_found hpat h, List.drop_drop, ← Nat.add_assoc]
  rfl

theorem appearances_none {pat stream : List α} {start : ℕ} (h : find pat (stream.drop start) = none) :
    appearances pat stream start = [] :=
  appearancesFrom_none h start

end DrtmTest.Find
