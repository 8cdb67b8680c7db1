/-
Insertion-ordered dictionaries: a key keeps the place of its first assignment, a later assignment replaces the value
where it stands. A `Dict` carries the proof that its keys are distinct, so a dictionary with a repeated key cannot be
built.

- `set`, `get?`, `keys`: one assignment (`get?_set`, `keys_set`).
- `update`, `filterKeys`: assignment of another dictionary's items, and the items with some keys left out.
- `ofKeys`, `index`: comprehensions over keys and over items. A later item of a key replaces the earlier, and the items
  that are `standing` are those found (`get?_index`, `getLast?_filter_iff`).
- `accumulate`: the loop `for x in l: d[key x] = f (d.get(key x, init)) x`. `keys_accumulate` gives its keys (the keys of
  `l`, first occurrences first), `get?_accumulate` gives the value of one key as the fold over the items of that key
  alone, so what is stored under one key is independent of every other key.
- `eraseDups_filterMap`, `eraseDups_eq`: a list without its repetitions is in the order of first occurrences, and that
  order and its elements determine it.
-/
import Mathlib.Data.List.Induction
import Mathlib.Data.List.Nodup
import Mathlib.Tactic

namespace DrtmTest

/-- a dictionary in insertion order -/
structure Dict (K V : Type) where
  entries : List (K × V)
  nodup : (entries.map Prod.fst).Nodup

namespace Dict

variable {K V W ι : Type}

theorem ext_entries {d e : Dict K V} (h : d.entries = e.entries) : d = e := by
  cases d; cases e; cases h; rfl

def keys (d : Dict K V) : List K := d.entries.map Prod.fst

def values (d : Dict K V) : List V := d.entries.map Prod.snd

def empty : Dict K V := ⟨[], List.nodup_nil⟩

instance : EmptyCollection (Dict K V) := ⟨empty⟩

instance : Inhabited (Dict K V) := ⟨empty⟩

instance [DecidableEq K] [DecidableEq V] : DecidableEq (Dict K V) := fun d e =>
  decidable_of_iff (d.entries = e.entries) ⟨ext_entries, fun h => by rw [h]⟩

@[simp] theorem entries_empty : (∅ : Dict K V).entries = [] := rfl

@[simp] theorem keys_empty : (∅ : Dict K V).keys = [] := rfl

theorem keys_nodup (d : Dict K V) : d.keys.Nodup := d.nodup

variable [DecidableEq K]

/-- the value under `k`, if any -/
def get? (d : Dict K V) (k : K) : Option V := d.entries.lookup k

/-- assignment on the list of entries: in place when the key is there, at the end otherwise -/
def upsert (k : K) (v : V) : List (K × V) → List (K × V)
  | [] => [(k, v)]
  | e :: l => if e.1 = k then (k, v) :: l else e :: upsert k v l

theorem upsert_keys (k : K) (v : V) (l : List (K × V)) :
    (upsert k v l).map Prod.fst = if k ∈ l.map Prod.fst then l.map Prod.fst else l.map Prod.fst ++ [k] := by
  induction l with
  | nil => simp [upsert]
  | cons e l ih =>
    simp only [upsert]
    split_ifs with h hm hm
    · simp [h]
    · simp [h] at hm
    · have hl : k ∈ l.map Prod.fst := by simpa [Ne.symm h] using hm
      rw [List.map_cons, ih, if_pos hl, List.map_cons]
    · have hl : k ∉ l.map Prod.fst := fun hk => hm (by simp only [List.map_cons]; exact List.mem_cons_of_mem _ hk)
      rw [List.map_cons, ih, if_neg hl, List.map_cons, List.cons_append]

theorem upsert_nodup (k : K) (v : V) (l : List (K × V)) (h : (l.map Prod.fst).Nodup) :
    ((upsert k v l).map Prod.fst).Nodup := by
  rw [upsert_keys]
  split_ifs with hk
  · exact h
  · rw [List.nodup_append]
    refine ⟨h, List.nodup_singleton k, fun a ha b hb => ?_⟩
    rw [List.mem_singleton] at hb
    subst hb
    exact fun hab => hk (hab ▸ ha)

theorem upsert_lookup (k k' : K) (v : V) (l : List (K × V)) :
    (upsert k v l).lookup k' = if k' = k then some v else l.lookup k' := by
  induction l with
  | nil =>
    by_cases h : k' = k
    · simp [upsert, h]
    · simp [upsert, List.lookup_cons, beq_eq_false_iff_ne.2 h, h]
  | cons e l ih =>
    simp only [upsert]
    split_ifs with h hk hk
    · simp [hk]
    · rw [List.lookup_cons, List.lookup_cons, h, beq_eq_false_iff_ne.2 hk]
    · subst hk
      rw [List.lookup_cons, beq_eq_false_iff_ne.2 (Ne.symm h), ih, if_pos rfl]
    · rw [List.lookup_cons, List.lookup_cons, ih, if_neg hk]

/-- `d[k] = v` -/
def set (d : Dict K V) (k : K) (v : V) : Dict K V := ⟨upsert k v d.entries, upsert_nodup k v d.entries d.nodup⟩

theorem get?_set (d : Dict K V) (k k' : K) (v : V) :
    (d.set k v).get? k' = if k' = k then some v else d.get? k' := upsert_lookup k k' v d.entries

theorem keys_set (d : Dict K V) (k : K) (v : V) :
    (d.set k v).keys = if k ∈ d.keys then d.keys else d.keys ++ [k] := upsert_keys k v d.entries

theorem get?_eq_none {d : Dict K V} {k : K} : d.get? k = none ↔ k ∉ d.keys := by
  rw [get?, List.lookup_eq_none_iff, keys, List.mem_map]
  constructor
  · rintro h ⟨p, hp, rfl⟩
    exact absurd (h p hp) (by simp)
  · intro h p hp
    exact bne_iff_ne.2 fun hk => h ⟨p, hp, hk.symm⟩

theorem mem_keys {d : Dict K V} {k : K} : k ∈ d.keys ↔ ∃ v, d.get? k = some v := by
  rw [← Option.isSome_iff_exists, ← not_iff_not, Option.not_isSome_iff_eq_none, get?_eq_none]

theorem lookup_of_mem {l : List (K × V)} (hl : (l.map Prod.fst).Nodup) {k : K} {v : V} (h : (k, v) ∈ l) :
    l.lookup k = some v := by
  induction l with
  | nil => simp at h
  | cons e l ih =>
    rw [List.map_cons, List.nodup_cons] at hl
    rcases List.mem_cons.1 h with rfl | h
    · simp
    · have hne : k ≠ e.1 := fun hk => hl.1 (hk ▸ List.mem_map.2 ⟨(k, v), h, rfl⟩)
      rw [List.lookup_cons, beq_eq_false_iff_ne.2 hne]
      exact ih hl.2 h

theorem mem_entries {d : Dict K V} {k : K} {v : V} : (k, v) ∈ d.entries ↔ d.get? k = some v := by
  refine ⟨lookup_of_mem d.nodup, fun h => ?_⟩
  obtain ⟨l₁, l₂, hl, -⟩ := List.lookup_eq_some_iff.1 h
  rw [hl]
  simp

theorem set_new (d : Dict K V) {k : K} (v : V) (h : k ∉ d.keys) : (d.set k v).entries = d.entries ++ [(k, v)] := by
  obtain ⟨l, hl⟩ := d
  simp only [set, keys] at h ⊢
  clear hl
  induction l with
  | nil => rfl
  | cons e l ih =>
    have he : e.1 ≠ k := fun hk => h (by simp [hk])
    rw [upsert, if_neg he, ih fun hk => h (by simp only [List.map_cons]; exact List.mem_cons_of_mem _ hk),
      List.cons_append]

/-- `d.setdefault(k, v)` -/
def setdefault (d : Dict K V) (k : K) (v : V) : Dict K V := if k ∈ d.keys then d else d.set k v

theorem keys_setdefault (d : Dict K V) (k : K) (v : V) :
    (d.setdefault k v).keys = if k ∈ d.keys then d.keys else d.keys ++ [k] := by
  rw [setdefault]
  split_ifs with h
  · rfl
  · rw [keys_set, if_neg h]

theorem get?_setdefault (d : Dict K V) (k k' : K) (v : V) :
    (d.setdefault k v).get? k' = if k' = k ∧ k ∉ d.keys then some v else d.get? k' := by
  rw [setdefault]
  by_cases h : k ∈ d.keys
  · rw [if_pos h, if_neg fun hk => hk.2 h]
  · rw [if_neg h, get?_set]
    simp only [h, not_false_eq_true, and_true]

/-- keys set by default, all to one value -/
theorem foldl_setdefault (d : Dict K V) (l : List K) (v : V) (hl : l.Nodup) :
    (l.foldl (fun d k => d.setdefault k v) d).keys = d.keys ++ l.filter (fun k => k ∉ d.keys) ∧
      ∀ k, (l.foldl (fun d k => d.setdefault k v) d).get? k = if k ∈ l ∧ k ∉ d.keys then some v else d.get? k := by
  induction l generalizing d with
  | nil => simp
  | cons x l ih =>
    obtain ⟨hx, hl⟩ := List.nodup_cons.1 hl
    obtain ⟨hkeys, hget⟩ := ih (d.setdefault x v) hl
    rw [List.foldl_cons, hkeys, keys_setdefault]
    by_cases hmem : x ∈ d.keys
    · refine ⟨?_, fun k => ?_⟩
      · simp [hmem]
      · rw [hget, get?_setdefault, keys_setdefault]
        by_cases hk : k = x
        · simp [hk, hmem]
        · simp [hk, hmem]
    · refine ⟨?_, fun k => ?_⟩
      · have hcongr : l.filter (fun k => k ∉ d.keys ++ [x]) = l.filter fun k => k ∉ d.keys :=
          List.filter_congr fun k hk => by
            have hne : k ≠ x := fun h => hx (h ▸ hk)
            simp [hne]
        rw [if_neg hmem, hcongr]
        simp [hmem]
      · rw [hget, get?_setdefault, keys_setdefault]
        by_cases hk : k = x
        · simp [hk, hmem]
        · simp [hk, hmem]

/-- the last assignment counts -/
theorem set_set (d : Dict K V) (k : K) (v w : V) : (d.set k v).set k w = d.set k w := by
  apply ext_entries
  obtain ⟨l, hl⟩ := d
  simp only [set]
  clear hl
  induction l with
  | nil => simp [upsert]
  | cons e l ih =>
    by_cases he : e.1 = k
    · rw [upsert, if_pos he, upsert, if_pos rfl, upsert, if_pos he]
    · rw [upsert, if_neg he, upsert, if_neg he, ih, upsert, if_neg he]

/-- a list with distinct keys is stored as it stands -/
theorem foldl_set_entries (d : Dict K V) (l : List (K × V)) (hl : (d.keys ++ l.map Prod.fst).Nodup) :
    (l.foldl (fun d e => d.set e.1 e.2) d).entries = d.entries ++ l := by
  induction l generalizing d with
  | nil => simp
  | cons e l ih =>
    have he : e.1 ∉ d.keys := fun h => List.disjoint_of_nodup_append hl h (by simp)
    rw [List.foldl_cons, ih, set_new d e.2 he, List.append_assoc, List.singleton_append]
    rw [keys_set, if_neg he, List.append_assoc, List.singleton_append]
    simpa using hl

/-- `{k: f(k) for k in l}` -/
def ofKeys (l : List K) (f : K → V) : Dict K V := l.foldl (fun d k => d.set k (f k)) ∅

theorem get?_ofKeys (l : List K) (f : K → V) (k : K) : (ofKeys l f).get? k = if k ∈ l then some (f k) else none := by
  induction l using List.reverseRecOn with
  | nil => rfl
  | append_singleton l x ih =>
    rw [ofKeys, List.foldl_append, ← ofKeys, List.foldl_cons, List.foldl_nil, get?_set, ih]
    by_cases h : k = x
    · simp [h]
    · simp [h]

theorem keys_ofKeys {l : List K} (h : l.Nodup) (f : K → V) : (ofKeys l f).keys = l := by
  have hkeys : (l.map fun k => (k, f k)).map Prod.fst = l := by
    rw [List.map_map]
    exact List.map_id l
  have hpairs : ofKeys l f = (l.map fun k => (k, f k)).foldl (fun d e => d.set e.1 e.2) ∅ := by
    rw [ofKeys, List.foldl_map]
  rw [hpairs, keys, foldl_set_entries ∅ _ (by rw [keys_empty, List.nil_append, hkeys]; exact h)]
  exact hkeys

/-- `{k: v for k, v in l}` -/
def ofPairs (l : List (K × V)) : Dict K V := l.foldl (fun d e => d.set e.1 e.2) ∅

/-- the last pair of a key wins -/
theorem get?_ofPairs (l : List (K × V)) (k : K) :
    (ofPairs l).get? k = ((l.filter fun e => e.1 = k).getLast?).map Prod.snd := by
  induction l using List.reverseRecOn with
  | nil => rfl
  | append_singleton l e ih =>
    rw [ofPairs, List.foldl_append, ← ofPairs, List.foldl_cons, List.foldl_nil, get?_set, ih, List.filter_append]
    by_cases h : k = e.1
    · have he : [e].filter (fun e => e.1 = k) = [e] := by simp [h]
      rw [if_pos h, he, List.getLast?_concat]
      rfl
    · have he : [e].filter (fun e => e.1 = k) = [] := by simp [Ne.symm h]
      rw [if_neg h, he, List.append_nil]

/-- `{key(x): x for x in l}` -/
def index (key : V → K) (l : List V) : Dict K V := l.foldl (fun d x => d.set (key x) x) ∅

theorem get?_index (key : V → K) (l : List V) (k : K) :
    (index key l).get? k = (l.filter fun x => key x = k).getLast? := by
  have hpairs : index key l = ofPairs (l.map fun x => (key x, x)) := by
    rw [index, ofPairs, List.foldl_map]
  rw [hpairs, get?_ofPairs, List.filter_map, List.getLast?_map, Option.map_map]
  exact congrFun Option.map_id _

/-- the items no later one of the same key replaces -/
def standing (key : ι → K) (l : List ι) : List ι := l.pwFilter fun x y => key x ≠ key y

theorem standing_eq {key : ι → K} {l : List ι} (h : (l.map key).Nodup) : standing key l = l :=
  List.pwFilter_eq_self.2 (List.pairwise_map.1 h)

theorem standing_map_nodup (key : ι → K) (l : List ι) : ((standing key l).map key).Nodup :=
  List.pairwise_map.2 (List.pairwise_pwFilter l)

theorem mem_of_mem_standing {key : ι → K} {l : List ι} {x : ι} (h : x ∈ standing key l) : x ∈ l :=
  List.pwFilter_subset l h

theorem standing_cons (key : ι → K) (a : ι) (l : List ι) :
    standing key (a :: l) = if ∀ b ∈ l, key a ≠ key b then a :: standing key l else standing key l := by
  have hall : (∀ b ∈ standing key l, key a ≠ key b) ↔ ∀ b ∈ l, key a ≠ key b := by
    refine List.forall_mem_pwFilter (fun {x y z} hxz => ?_) a l
    by_cases hxy : key x = key y
    · exact Or.inr (hxy ▸ hxz)
    · exact Or.inl hxy
  split_ifs with h
  · exact List.pwFilter_cons_of_pos (hall.2 h)
  · exact List.pwFilter_cons_of_neg (mt hall.1 h)

/-- The last item of a key is the one that stands. -/
theorem getLast?_filter_iff {key : ι → K} {l : List ι} {k : K} {x : ι} :
    (l.filter fun y => key y = k).getLast? = some x ↔ x ∈ standing key l ∧ key x = k := by
  induction l with
  | nil => simp [standing]
  | cons a l ih =>
    rw [standing_cons]
    by_cases ha : key a = k
    · rw [List.filter_cons_of_pos (by simpa using ha)]
      split_ifs with h
      · have hnil : l.filter (fun y => key y = k) = [] := by
          rw [List.filter_eq_nil_iff]
          intro y hy hk
          exact h y hy (ha.trans (of_decide_eq_true hk).symm)
        rw [hnil, List.getLast?_singleton, Option.some_inj, List.mem_cons]
        constructor
        · rintro rfl
          exact ⟨Or.inl rfl, ha⟩
        · rintro ⟨rfl | hx, hk⟩
          · rfl
          · exact absurd (ha.trans hk.symm) (h x (mem_of_mem_standing hx))
      · push Not at h
        obtain ⟨b, hb, hab⟩ := h
        have hne : l.filter (fun y => key y = k) ≠ [] :=
          List.ne_nil_of_mem (List.mem_filter.2 ⟨hb, decide_eq_true (hab.symm.trans ha)⟩)
        rw [List.getLast?_cons_of_ne_nil hne, ih]
    · rw [List.filter_cons_of_neg (by simpa using ha), ih]
      split_ifs
      · have hne (h : key x = k) : x ≠ a := fun hx => ha (hx ▸ h)
        constructor
        · rintro ⟨hx, hk⟩
          exact ⟨List.mem_cons_of_mem a hx, hk⟩
        · rintro ⟨hx, hk⟩
          exact ⟨(List.mem_cons.1 hx).resolve_left (hne hk), hk⟩
      · rfl

theorem exists_standing (key : ι → K) {l : List ι} {x : ι} (h : x ∈ l) : ∃ y ∈ standing key l, key y = key x := by
  have hmem : x ∈ l.filter fun y => key y = key x := by simpa using h
  obtain ⟨y, hy⟩ : ∃ y, (l.filter fun y => key y = key x).getLast? = some y :=
    ⟨_, List.getLast?_eq_some_getLast (List.ne_nil_of_mem hmem)⟩
  exact ⟨y, getLast?_filter_iff.1 hy⟩

/-- `d.update(e)` -/
def update (d e : Dict K V) : Dict K V := e.entries.foldl (fun d x => d.set x.1 x.2) d

theorem get?_update (d e : Dict K V) (k : K) : (d.update e).get? k = (e.get? k).or (d.get? k) := by
  obtain ⟨l, hl⟩ := e
  simp only [update, get?]
  induction l generalizing d with
  | nil => simp
  | cons x l ih =>
    rw [List.map_cons, List.nodup_cons] at hl
    rw [List.foldl_cons, ih (d.set x.1 x.2) hl.2]
    by_cases h : k = x.1
    · subst h
      have hnone : l.lookup x.1 = none := List.lookup_eq_none_iff.2 fun y hy =>
        bne_iff_ne.2 fun hk => hl.1 (List.mem_map.2 ⟨y, hy, hk.symm⟩)
      rw [hnone, Option.none_or, List.lookup_cons_self, Option.some_or]
      exact (get?_set d x.1 x.1 x.2).trans (if_pos rfl)
    · have hget : (d.set x.1 x.2).entries.lookup k = d.entries.lookup k := (get?_set d x.1 k x.2).trans (if_neg h)
      rw [hget, List.lookup_cons, beq_eq_false_iff_ne.2 h]

/-- `{k: v for k, v in d.items() if p(k)}` -/
def filterKeys (p : K → Bool) (d : Dict K V) : Dict K V where
  entries := d.entries.filter fun x => p x.1
  nodup := by
    have hsub : ((d.entries.filter fun x => p x.1).map Prod.fst).Sublist (d.entries.map Prod.fst) :=
      List.filter_sublist.map Prod.fst
    exact d.nodup.sublist hsub

theorem get?_filterKeys (p : K → Bool) (d : Dict K V) (k : K) :
    (d.filterKeys p).get? k = if p k then d.get? k else none := by
  obtain ⟨l, hl⟩ := d
  simp only [filterKeys, get?]
  clear hl
  induction l with
  | nil => simp
  | cons x l ih =>
    rw [List.filter_cons]
    by_cases h : k = x.1
    · subst h
      split_ifs with hx
      · rw [List.lookup_cons, List.lookup_cons, beq_self_eq_true]
      · rw [ih, if_neg hx]
    · have hb := beq_eq_false_iff_ne.2 h
      split_ifs with hx hk hk
      · rw [List.lookup_cons, List.lookup_cons, hb, ih, if_pos hk]
      · rw [List.lookup_cons, hb, ih, if_neg hk]
      · rw [List.lookup_cons, hb, ih, if_pos hk]
      · rw [ih, if_neg hk]

/-! ## Accumulation -/

/-- `for x in l: d[key x] = f (d.get(key x, init (key x))) x`, from the empty dictionary -/
def accumulate (key : ι → K) (init : K → V) (f : V → ι → V) (l : List ι) : Dict K V :=
  l.foldl (fun d x => d.set (key x) (f ((d.get? (key x)).getD (init (key x))) x)) ∅

theorem accumulate_snoc (key : ι → K) (init : K → V) (f : V → ι → V) (l : List ι) (x : ι) :
    accumulate key init f (l ++ [x]) = (accumulate key init f l).set (key x)
      (f (((accumulate key init f l).get? (key x)).getD (init (key x))) x) := by
  simp [accumulate, List.foldl_append]

theorem eraseDups_snoc {α : Type} [DecidableEq α] (l : List α) (a : α) :
    (l ++ [a]).eraseDups = if a ∈ l then l.eraseDups else l.eraseDups ++ [a] := by
  rw [List.eraseDups_append, List.removeAll]
  split_ifs with h
  · have hn : [a].filter (fun x => !l.elem x) = [] := by simp [h]
    rw [hn, List.eraseDups_nil, List.append_nil]
  · have hs : [a].filter (fun x => !l.elem x) = [a] := by simp [h]
    rw [hs, List.eraseDups_cons]
    simp

theorem eraseDups_nodup {α : Type} [BEq α] [LawfulBEq α] (l : List α) : l.eraseDups.Nodup := by
  induction hlen : l.length using Nat.strong_induction_on generalizing l with
  | _ n ih =>
    cases l with
    | nil => exact List.nodup_nil
    | cons a l =>
      have hle := List.length_filter_le (fun b => !b == a) l
      rw [List.length_cons] at hlen
      rw [List.eraseDups_cons, List.nodup_cons, List.mem_eraseDups]
      refine ⟨fun h => ?_, ih _ (by omega) _ rfl⟩
      have hne := (List.mem_filter.1 h).2
      rw [beq_self_eq_true] at hne
      cases hne

theorem findIdx_old {α : Type} {p : α → Bool} {l : List α} (h : ∃ x ∈ l, p x = true) (m : List α) :
    (l ++ m).findIdx p = l.findIdx p ∧ l.findIdx p < l.length := by
  have hlt := List.findIdx_lt_length_of_exists h
  rw [List.findIdx_append, if_pos hlt]
  exact ⟨rfl, hlt⟩

theorem findIdx_new {α : Type} {p : α → Bool} {l : List α} (h : ¬ ∃ x ∈ l, p x = true) {a : α} (ha : p a = true) :
    (l ++ [a]).findIdx p = l.length := by
  have hlen : l.findIdx p = l.length := List.findIdx_eq_length_of_false fun x hx => Bool.eq_false_iff.2 fun hp => h ⟨x, hx, hp⟩
  rw [List.findIdx_append, hlen, if_neg (lt_irrefl _), List.findIdx_cons, ha]
  exact Nat.zero_add _

/-- what some elements give, without repetitions, stands in the order of the first elements that give it -/
theorem eraseDups_filterMap {α β : Type} [DecidableEq α] (f : β → Option α) (l : List β) :
    (l.filterMap f).eraseDups.Pairwise fun a b =>
      l.findIdx (fun x => f x = some a) < l.findIdx fun x => f x = some b := by
  have hmem : ∀ {m : List β} {a : α}, a ∈ (m.filterMap f).eraseDups ↔ ∃ x ∈ m, decide (f x = some a) = true := by
    intro m a
    rw [List.mem_eraseDups, List.mem_filterMap]
    simp only [decide_eq_true_eq]
  induction l using List.reverseRecOn with
  | nil => exact List.Pairwise.nil
  | append_singleton l x ih =>
    have hold : ((l.filterMap f).eraseDups).Pairwise fun a b =>
        (l ++ [x]).findIdx (fun x => f x = some a) < (l ++ [x]).findIdx fun x => f x = some b := by
      apply ih.imp_of_mem
      intro a b ha hb hlt
      rwa [(findIdx_old (hmem.1 ha) [x]).1, (findIdx_old (hmem.1 hb) [x]).1]
    rw [List.filterMap_append]
    cases hx : f x with
    | none => simpa only [List.filterMap_cons, hx, List.filterMap_nil, List.append_nil] using hold
    | some b =>
      rw [show [x].filterMap f = [b] by simp only [List.filterMap_cons, hx, List.filterMap_nil], eraseDups_snoc]
      split_ifs with hin
      · exact hold
      · refine List.pairwise_append.2 ⟨hold, List.pairwise_singleton _ _, fun a ha b' hb' => ?_⟩
        obtain rfl := List.mem_singleton.1 hb'
        obtain ⟨heq, hlt⟩ := findIdx_old (hmem.1 ha) [x]
        rw [heq, findIdx_new (fun h => hin (List.mem_eraseDups.1 (hmem.2 h))) (decide_eq_true hx)]
        exact hlt

/-- what is left stands in the order of its first occurrences -/
theorem eraseDups_pairwise {α : Type} [DecidableEq α] (l : List α) :
    l.eraseDups.Pairwise fun a b => l.idxOf a < l.idxOf b := by
  have hidx : ∀ a, l.findIdx (fun x => some x = some a) = l.idxOf a := by
    intro a
    simp only [Option.some.injEq, List.idxOf, beq_eq_decide]
  have h := eraseDups_filterMap some l
  simpa only [hidx, List.filterMap_some] using h

/-- what is left is known by its elements and the order of their first occurrences -/
theorem eraseDups_eq {α : Type} [DecidableEq α] {l m : List α} (hmem : ∀ a, a ∈ l ↔ a ∈ m)
    (hfirst : m.Pairwise fun a b => l.idxOf a < l.idxOf b) : l.eraseDups = m := by
  have hnodup : m.Nodup := hfirst.imp fun hlt heq => absurd hlt (by rw [heq]; exact lt_irrefl _)
  have hperm : l.eraseDups.Perm m := by
    apply (List.perm_ext_iff_of_nodup (eraseDups_nodup l) hnodup).2
    intro a
    rw [List.mem_eraseDups, hmem]
  exact hperm.eq_of_pairwise (fun a b _ _ hab hba => absurd hba (Nat.lt_asymm hab)) (eraseDups_pairwise l) hfirst

/-- leaving out repetitions shortens every list that has one -/
theorem eraseDups_length {α : Type} [DecidableEq α] (l : List α) :
    l.eraseDups.length ≤ l.length ∧ (l.eraseDups.length = l.length ↔ l.Nodup) := by
  induction l using List.reverseRecOn with
  | nil => simp
  | append_singleton l a ih =>
    obtain ⟨hle, hiff⟩ := ih
    have hnodup : (l ++ [a]).Nodup ↔ l.Nodup ∧ a ∉ l := by
      rw [← List.concat_eq_append, List.nodup_concat]
      exact and_comm
    rw [eraseDups_snoc, hnodup, ← hiff]
    split_ifs with h
    · simp only [List.length_append, List.length_singleton, h, not_true_eq_false, and_false, iff_false]
      omega
    · simp only [List.length_append, List.length_singleton, h, not_false_eq_true, and_true]
      omega

/-- The keys are those of the items, in the order of their first occurrence. -/
theorem keys_accumulate (key : ι → K) (init : K → V) (f : V → ι → V) (l : List ι) :
    (accumulate key init f l).keys = (l.map key).eraseDups := by
  induction l using List.reverseRecOn with
  | nil => rfl
  | append_singleton l x ih =>
    rw [accumulate_snoc, keys_set, ih, List.map_append, List.map_cons, List.map_nil, eraseDups_snoc]
    simp only [List.mem_eraseDups]

/-- The value of a key is the fold over the items of that key. -/
theorem get?_accumulate (key : ι → K) (init : K → V) (f : V → ι → V) (l : List ι) (k : K) :
    (accumulate key init f l).get? k =
      if k ∈ l.map key then some ((l.filter fun x => key x = k).foldl f (init k)) else none := by
  induction l using List.reverseRecOn with
  | nil => rfl
  | append_singleton l x ih =>
    rw [accumulate_snoc, get?_set, List.filter_append, List.map_append]
    by_cases h : k = key x
    · subst h
      rw [if_pos rfl, if_pos (by simp), ih]
      have hx : List.filter (fun y => decide (key y = key x)) [x] = [x] := by simp
      rw [hx, List.foldl_append, List.foldl_cons, List.foldl_nil]
      by_cases hk : key x ∈ l.map key
      · rw [if_pos hk, Option.getD_some]
      · have hnil : l.filter (fun y => decide (key y = key x)) = [] := by
          rw [List.filter_eq_nil_iff]
          intro y hy he
          exact hk (List.mem_map.2 ⟨y, hy, by simpa using he⟩)
        rw [if_neg hk, Option.getD_none, hnil, List.foldl_nil]
    · have hx : List.filter (fun y => decide (key y = k)) [x] = [] := by simp [Ne.symm h]
      rw [if_neg h, ih, hx, List.append_nil]
      simp [h]

/-- a block of items of a new key is one entry behind the others -/
theorem accumulate_block (key : ι → K) (init : K → V) (f : V → ι → V) (l : List ι) {k : K} {block : List ι}
    (hne : block ≠ []) (hblock : ∀ x ∈ block, key x = k) (hk : k ∉ (accumulate key init f l).keys) :
    accumulate key init f (l ++ block) = (accumulate key init f l).set k (block.foldl f (init k)) := by
  induction block using List.reverseRecOn with
  | nil => exact absurd rfl hne
  | append_singleton block x ih =>
    have hx : key x = k := hblock x (by simp)
    rw [← List.append_assoc, accumulate_snoc, hx, List.foldl_append, List.foldl_cons, List.foldl_nil]
    rcases eq_or_ne block [] with rfl | hblock'
    · rw [List.append_nil, get?_eq_none.2 hk, Option.getD_none, List.foldl_nil]
    · rw [ih hblock' fun y hy => hblock y (List.mem_append_left _ hy), set_set, get?_set, if_pos rfl, Option.getD_some]

/-- items in blocks of different keys -/
theorem accumulate_blocks {α : Type} (key : ι → K) (init : K → V) (f : V → ι → V) (name : α → K) (items : α → List ι)
    {as : List α} (hnodup : (as.map name).Nodup) (hne : ∀ a ∈ as, items a ≠ []) (hkey : ∀ a ∈ as, ∀ x ∈ items a, key x = name a) :
    (accumulate key init f (as.flatMap items)).entries =
      as.map fun a => (name a, (items a).foldl f (init (name a))) := by
  induction as using List.reverseRecOn with
  | nil => rfl
  | append_singleton as a ih =>
    rw [List.map_append, List.map_cons, List.map_nil] at hnodup
    have hfresh : name a ∉ as.map name := fun h => (List.nodup_append.1 hnodup).2.2 _ h _ (List.mem_singleton_self _) rfl
    have ih := ih (List.nodup_append.1 hnodup).1 (fun b hb => hne b (List.mem_append_left _ hb)) fun b hb =>
      hkey b (List.mem_append_left _ hb)
    have hnew : name a ∉ (accumulate key init f (as.flatMap items)).keys := by
      rw [keys, ih, List.map_map]
      exact hfresh
    have hlast : a ∈ as ++ [a] := List.mem_append_right _ (List.mem_singleton_self a)
    rw [List.flatMap_append, List.flatMap_cons, List.flatMap_nil, List.append_nil,
      accumulate_block key init f _ (hne a hlast) (hkey a hlast) hnew, set_new _ _ hnew, ih, List.map_append]
    rfl

end Dict

end DrtmTest
