/-
The TCG2 encoding of an event log and its round trip through the parser.

A `Header` is a well-formed header event: 32-bit PCR, a 20-byte digest, 8 bytes of platform class and versions, banks
with pairwise distinct 16-bit ids and any 16-bit digest size, and whatever follows the bank list (in TCG2 the vendor
info with its size byte), short enough for the 32-bit size field. A `Record h` is a well-formed event under `h`: at least
one digest, each for a distinct bank `h` declares and of the size it declares, and fewer than 2^32 data bytes. Both carry
these conditions as fields.

- `algorithms_encode`: the header's bank table is read back, whatever follows the header.
- `readRecord_encode`: one record is read back from where it stands, and the offset lands behind it.
- `parse_encode`: a header, any records and any number of zeros parse to exactly those records, and `banks` lists the
  declared banks in header order.
-/
import DrtmTest.EventLog

namespace DrtmTest.Tcg2Log

open DrtmTest.Bytes DrtmTest.EventLog

/-! ## The encoding -/

structure Header where
  pcr : UInt32
  digest : Bytes
  platform : Bytes
  /-- (algorithm id, digest size) -/
  banks : List (UInt16 × UInt16)
  vendorInfo : Bytes
  digest_length : digest.length = 20
  platform_length : platform.length = 8
  distinct : (banks.map Prod.fst).Nodup
  fits : 28 + 4 * banks.length + vendorInfo.length < 2 ^ 32

def encodeBanks (banks : List (UInt16 × UInt16)) : Bytes := banks.flatMap fun b => le 2 b.1.toNat ++ le 2 b.2.toNat

/-- the Spec ID event -/
def Header.spec (h : Header) : Bytes :=
  specIdSignature ++ (h.platform ++ (le 4 h.banks.length ++ (encodeBanks h.banks ++ h.vendorInfo)))

def Header.encode (h : Header) : Bytes :=
  le 4 h.pcr.toNat ++ (le 4 evNoAction ++ (h.digest ++ (le 4 h.spec.length ++ h.spec)))

structure Record (h : Header) where
  pcr : UInt32
  type : UInt32
  /-- (algorithm id, digest) -/
  digests : List (UInt16 × Bytes)
  data : Bytes
  nonempty : digests ≠ []
  distinct : (digests.map Prod.fst).Nodup
  declared : ∀ d ∈ digests, ∃ size, (d.1, size) ∈ h.banks ∧ d.2.length = size.toNat
  small : data.length < 2 ^ 32

def encodeDigests (digests : List (UInt16 × Bytes)) : Bytes := digests.flatMap fun d => le 2 d.1.toNat ++ d.2

def Record.encode {h : Header} (r : Record h) : Bytes :=
  le 4 r.pcr.toNat ++ (le 4 r.type.toNat ++ (le 4 r.digests.length ++
    (encodeDigests r.digests ++ (le 4 r.data.length ++ r.data))))

/-- header and records, then `n` zeros -/
def encode (h : Header) (rs : List (Record h)) (n : ℕ) : Bytes :=
  h.encode ++ (rs.flatMap Record.encode ++ List.replicate n 0)

/-! ## Names -/

theorem hex_injective {m n : ℕ} (h : hex m = hex n) : m = n := by
  have := String.ofList_inj.1 h
  exact hexNat_injective m n (List.cons.inj (List.cons.inj this).2).2

/-- a listed name does not start with `0x` -/
theorem hex_ne_listed (n : ℕ) (e : ℕ × String) (he : e ∈ algNames) : hex n ≠ e.2 := by
  intro h
  have h0 : (hex n).toList.head? = some '0' := by simp [hex]
  have hs : ∀ e ∈ algNames, e.2.toList.head? = some 's' := by decide
  rw [h, hs e he] at h0
  exact absurd h0 (by decide)

theorem algName_injective {m n : ℕ} (h : algName m = algName n) : m = n := by
  have listed (k : ℕ) (s : String) (hk : algNames.lookup k = some s) : (k, s) ∈ algNames := by
    obtain ⟨l₁, l₂, hl, -⟩ := List.lookup_eq_some_iff.1 hk
    rw [hl]
    simp
  have names : ∀ d ∈ algNames, ∀ e ∈ algNames, d.2 = e.2 → d.1 = e.1 := by decide
  unfold algName at h
  cases hm : algNames.lookup m with
  | none =>
    cases hn : algNames.lookup n with
    | none => rw [hm, hn] at h; exact hex_injective h
    | some t => rw [hm, hn] at h; exact absurd h (hex_ne_listed m (n, t) (listed n t hn))
  | some s =>
    cases hn : algNames.lookup n with
    | none => rw [hm, hn] at h; exact absurd h.symm (hex_ne_listed n (m, s) (listed m s hm))
    | some t => rw [hm, hn] at h; exact names (m, s) (listed m s hm) (n, t) (listed n t hn) h

theorem toNat_injective16 {a b : UInt16} (h : a.toNat = b.toNat) : a = b := UInt16.toNat_inj.1 h

/-- a list of distinct 16-bit ids is shorter than 2^32 -/
theorem ids_length {α : Type} (l : List (UInt16 × α)) (h : (l.map Prod.fst).Nodup) : l.length < 2 ^ 32 := by
  have hnd : (l.map fun x => x.1.toNat).Nodup := by
    rw [← Function.comp_def UInt16.toNat Prod.fst, ← List.map_map]
    exact h.map fun a b => toNat_injective16
  have hsub : (l.map fun x => x.1.toNat) ⊆ List.range (2 ^ 16) := by
    intro k hk
    obtain ⟨x, -, rfl⟩ := List.mem_map.1 hk
    exact List.mem_range.2 x.1.toNat_lt
  have := (List.subperm_of_subset hnd hsub).length_le
  rw [List.length_map, List.length_range] at this
  omega

/-! ## Reading the header -/

/-- the bank table the header declares -/
def Header.table (h : Header) : Dict ℕ ℕ where
  entries := h.banks.map fun b => (b.1.toNat, b.2.toNat)
  nodup := by
    rw [List.map_map, show (Prod.fst ∘ fun b : UInt16 × UInt16 => (b.1.toNat, b.2.toNat)) = UInt16.toNat ∘ Prod.fst from
      rfl, ← List.map_map]
    exact h.distinct.map fun a b => toNat_injective16

theorem Header.table_get? {h : Header} {alg size : UInt16} (hb : (alg, size) ∈ h.banks) :
    h.table.get? alg.toNat = some size.toNat :=
  Dict.mem_entries.1 (List.mem_map.2 ⟨(alg, size), hb, rfl⟩)

theorem unpack_of_holds {raw : Bytes} {off w n : ℕ} (h : Holds raw off (le w n)) (hw : 0 < w) (hn : n < 256 ^ w) :
    unpack w raw off = .ok n := by
  rw [unpack, unpackFrom_of_holds h hw hn]

theorem encodeBanks_length (banks : List (UInt16 × UInt16)) : (encodeBanks banks).length = 4 * banks.length := by
  induction banks with
  | nil => rfl
  | cons b banks ih =>
    rw [encodeBanks, List.flatMap_cons, List.length_append, ← encodeBanks, ih]
    simp
    omega

theorem declared_encode (spec : Bytes) (banks : List (UInt16 × UInt16)) (i : ℕ) (d : Dict ℕ ℕ)
    (h : Holds spec (28 + 4 * i) (encodeBanks banks)) :
    declared spec banks.length i d = .ok (banks.foldl (fun d b => d.set b.1.toNat b.2.toNat) d) := by
  induction banks generalizing i d with
  | nil => rfl
  | cons b banks ih =>
    rw [encodeBanks, List.flatMap_cons, List.append_assoc] at h
    obtain ⟨halg, h⟩ := holds_append.1 h
    obtain ⟨hsize, hrest⟩ := holds_append.1 h
    rw [le_length] at hsize hrest
    have hr : Holds spec (28 + 4 * (i + 1)) (encodeBanks banks) := by
      rw [le_length] at hrest
      rw [show 28 + 4 * (i + 1) = 28 + 4 * i + 2 + 2 by omega]
      exact hrest
    simp only [List.length_cons, declared, unpack_of_holds halg (by norm_num) b.1.toNat_lt,
      unpack_of_holds hsize (by norm_num) b.2.toNat_lt, bind, Except.bind, List.foldl_cons]
    exact ih (i + 1) _ hr

theorem table_foldl (h : Header) : h.banks.foldl (fun d b => d.set b.1.toNat b.2.toNat) ∅ = h.table := by
  have := Dict.foldl_set_entries (∅ : Dict ℕ ℕ) h.table.entries (by simpa using h.table.nodup)
  apply Dict.ext_entries
  rw [show h.table.entries = h.banks.map fun b => (b.1.toNat, b.2.toNat) from rfl, List.foldl_map,
    Dict.entries_empty, List.nil_append] at this
  exact this

theorem signature_length : specIdSignature.length = 16 := by decide

theorem Header.spec_length (h : Header) : h.spec.length = 28 + 4 * h.banks.length + h.vendorInfo.length := by
  simp only [Header.spec, List.length_append, signature_length, h.platform_length, le_length, encodeBanks_length]
  omega

theorem Header.encode_length (h : Header) : h.encode.length = 32 + h.spec.length := by
  simp only [Header.encode, List.length_append, le_length, h.digest_length]
  omega

/-- the fields of the header event, each where it stands -/
theorem Header.holds (h : Header) (post : Bytes) :
    Holds (h.encode ++ post) 4 (le 4 evNoAction) ∧ Holds (h.encode ++ post) 28 (le 4 h.spec.length) ∧
      Holds (h.encode ++ post) 32 h.spec := by
  have h0 := holds_zero h.encode post
  conv at h0 => arg 3; rw [Header.encode]
  obtain ⟨-, h4⟩ := holds_append.1 h0
  obtain ⟨h4, h8⟩ := holds_append.1 h4
  obtain ⟨-, h28⟩ := holds_append.1 h8
  obtain ⟨h28, h32⟩ := holds_append.1 h28
  simp only [le_length, h.digest_length, Nat.zero_add, Nat.reduceAdd] at h4 h28 h32
  exact ⟨h4, h28, h32⟩

theorem unpack_spec_length (h : Header) (post : Bytes) : unpack 4 (h.encode ++ post) 28 = .ok h.spec.length :=
  unpack_of_holds (h.holds post).2.1 (by norm_num) (by rw [h.spec_length]; exact h.fits)

/-- **The bank table reads back.** -/
theorem algorithms_encode (h : Header) (post : Bytes) : algorithms (h.encode ++ post) = .ok h.table := by
  obtain ⟨h4, -, h32⟩ := h.holds post
  have hlen : ¬ (h.encode ++ post).length < 32 := by
    rw [List.length_append, h.encode_length]
    omega
  have htype := unpack_of_holds h4 (by norm_num) (by decide)
  have hspec : slice (h.encode ++ post) 32 (32 + h.spec.length) = h.spec := slice_of_holds h32
  have hs0 := holds_zero h.spec []
  conv at hs0 => arg 3; rw [Header.spec]
  rw [List.append_nil] at hs0
  obtain ⟨hsig, hs16⟩ := holds_append.1 hs0
  obtain ⟨-, hs24⟩ := holds_append.1 hs16
  obtain ⟨hcount, hs28⟩ := holds_append.1 hs24
  obtain ⟨hbanks, -⟩ := holds_append.1 hs28
  simp only [signature_length, h.platform_length, le_length, Nat.zero_add, Nat.reduceAdd] at hcount hbanks
  have hcount := unpack_of_holds hcount (by norm_num) (ids_length h.banks h.distinct)
  have hdecl := declared_encode h.spec h.banks 0 ∅ hbanks
  rw [table_foldl] at hdecl
  have hprefix : specIdSignature <+: h.spec := hsig
  simp only [algorithms, hlen, htype, unpack_spec_length, hspec, hprefix, hcount, hdecl, bind, Except.bind,
    if_false, not_true_eq_false, ne_eq]

/-! ## Reading the records -/

theorem readDigests_encode (algs : Dict ℕ ℕ) (raw : Bytes) (ds : List (UInt16 × Bytes)) (off : ℕ)
    (d : Dict String String) (h : Holds raw off (encodeDigests ds))
    (hs : ∀ x ∈ ds, algs.get? x.1.toNat = some x.2.length) :
    readDigests algs raw ds.length off d =
      .ok (ds.foldl (fun d x => d.set (algName x.1.toNat) (toHex x.2)) d, off + (encodeDigests ds).length) := by
  induction ds generalizing off d with
  | nil => rfl
  | cons x ds ih =>
    rw [encodeDigests, List.flatMap_cons, List.append_assoc] at h
    obtain ⟨halg, h⟩ := holds_append.1 h
    obtain ⟨hdig, hrest⟩ := holds_append.1 h
    rw [le_length] at hdig hrest
    have hlen : off + (encodeDigests (x :: ds)).length = off + 2 + x.2.length + (encodeDigests ds).length := by
      simp only [encodeDigests, List.flatMap_cons, List.length_append, le_length]
      omega
    simp only [List.length_cons, readDigests, unpack_of_holds halg (by norm_num) x.1.toNat_lt, bind, Except.bind,
      hs x List.mem_cons_self, slice_of_holds hdig, List.foldl_cons]
    rw [hlen]
    exact ih _ _ hrest fun y hy => hs y (List.mem_cons_of_mem x hy)

/-- the event a record is parsed to -/
def Record.toEvent {h : Header} (r : Record h) : Event where
  pcr := r.pcr.toNat
  type := r.type.toNat
  digests :=
    { entries := r.digests.map fun d => (algName d.1.toNat, toHex d.2)
      nodup := by
        rw [List.map_map, show (Prod.fst ∘ fun d : UInt16 × Bytes => (algName d.1.toNat, toHex d.2)) =
          (fun a : UInt16 => algName a.toNat) ∘ Prod.fst from rfl, ← List.map_map]
        exact r.distinct.map fun a b hab => toNat_injective16 (algName_injective hab) }
  data := r.data

theorem digests_foldl {h : Header} (r : Record h) :
    r.digests.foldl (fun d x => d.set (algName x.1.toNat) (toHex x.2)) ∅ = r.toEvent.digests := by
  have := Dict.foldl_set_entries (∅ : Dict String String) r.toEvent.digests.entries
    (by simpa using r.toEvent.digests.nodup)
  apply Dict.ext_entries
  rw [show r.toEvent.digests.entries = r.digests.map fun d => (algName d.1.toNat, toHex d.2) from rfl,
    List.foldl_map, Dict.entries_empty, List.nil_append] at this
  exact this

/-- **A record reads back** from where it stands, and the offset lands behind it. -/
theorem readRecord_encode {h : Header} (r : Record h) (raw : Bytes) (off : ℕ) (hr : Holds raw off r.encode) :
    readRecord h.table raw off = .ok (some (r.toEvent, off + r.encode.length)) := by
  rw [Record.encode] at hr
  obtain ⟨hpcr, h1⟩ := holds_append.1 hr
  obtain ⟨htype, h2⟩ := holds_append.1 h1
  obtain ⟨hcount, h3⟩ := holds_append.1 h2
  obtain ⟨hdigests, h4⟩ := holds_append.1 h3
  obtain ⟨hsize, hdata⟩ := holds_append.1 h4
  simp only [le_length, Nat.add_assoc, Nat.reduceAdd] at htype hcount hdigests hsize hdata
  simp only [← Nat.add_assoc] at hsize hdata
  have hne : r.digests.length ≠ 0 := fun h0 => r.nonempty (List.length_eq_zero_iff.1 h0)
  have hknown : ∀ x ∈ r.digests, h.table.get? x.1.toNat = some x.2.length := by
    intro x hx
    obtain ⟨size, hmem, hlen⟩ := r.declared x hx
    rw [Header.table_get? hmem, hlen]
  have hread := readDigests_encode h.table raw r.digests (off + 12) ∅ hdigests hknown
  rw [digests_foldl] at hread
  have hlen : off + r.encode.length = off + 12 + (encodeDigests r.digests).length + 4 + r.data.length := by
    simp only [Record.encode, List.length_append, le_length]
    omega
  simp only [readRecord, unpack_of_holds hpcr (by norm_num) r.pcr.toNat_lt,
    unpack_of_holds htype (by norm_num) r.type.toNat_lt,
    unpack_of_holds hcount (by norm_num) (ids_length r.digests r.distinct), hne, hread,
    unpack_of_holds hsize (by norm_num) r.small, slice_of_holds hdata, hlen, bind, Except.bind, pure, Except.pure,
    if_false]
  rfl

/-- twelve zeros are the end of the log -/
theorem parseFrom_zeros (algs : Dict ℕ ℕ) (raw : Bytes) (off : ℕ) (events : List Event)
    (h : Holds raw off (List.replicate 12 0)) : parseFrom algs raw off events = .ok events := by
  have hlen : off + 12 ≤ raw.length := h.length_le (by simp)
  rw [show List.replicate 12 (0 : UInt8) = le 4 0 ++ (le 4 0 ++ le 4 0) by decide] at h
  obtain ⟨hpcr, h1⟩ := holds_append.1 h
  obtain ⟨htype, hcount⟩ := holds_append.1 h1
  simp only [le_length, Nat.add_assoc, Nat.reduceAdd] at htype hcount
  have hread : readRecord algs raw off = .ok none := by
    simp only [readRecord, unpack_of_holds hpcr (by norm_num) (by norm_num),
      unpack_of_holds htype (by norm_num) (by norm_num), unpack_of_holds hcount (by norm_num) (by norm_num), bind,
      Except.bind, pure, Except.pure, if_true]
  rw [parseFrom_eq events hlen, hread]

/-- The loop reads the records in order and stops at the zeros. -/
theorem parseFrom_encode {h : Header} (rs : List (Record h)) (raw : Bytes) (off : ℕ) (events : List Event)
    (hr : Holds raw off (rs.flatMap Record.encode ++ List.replicate 12 0)) :
    parseFrom h.table raw off events = .ok (events ++ rs.map Record.toEvent) := by
  induction rs generalizing off events with
  | nil =>
    rw [List.map_nil, List.append_nil]
    exact parseFrom_zeros h.table raw off events hr
  | cons r rs ih =>
    rw [List.flatMap_cons, List.append_assoc] at hr
    obtain ⟨hhead, htail⟩ := holds_append.1 hr
    have hread := readRecord_encode r raw off hhead
    have hlen : off + 12 ≤ raw.length := by
      have := hhead.length_le (by simp [Record.encode, le])
      simp only [Record.encode, List.length_append, le_length] at this
      omega
    rw [parseFrom_eq events hlen, hread]
    simp only
    rw [ih _ _ htail, List.map_cons, List.append_assoc, List.singleton_append]

/-! ## The round trip -/

theorem encode_padded (h : Header) (rs : List (Record h)) (n : ℕ) :
    encode h rs n ++ padding = h.encode ++ (rs.flatMap Record.encode ++ List.replicate (n + 16) 0) := by
  rw [encode, padding, List.append_assoc, List.append_assoc, List.replicate_append_replicate]

/-- **Event log round trip.** For every header, every list of records under it and every number of zeros after them, the
encoding parses to exactly those events in order, and `banks` lists exactly the declared banks by name in header order. -/
theorem parse_encode (h : Header) (rs : List (Record h)) (n : ℕ) :
    parse (encode h rs n) = .ok (rs.map Record.toEvent) ∧
      banks (encode h rs n) = .ok (h.banks.map fun b => algName b.1.toNat) := by
  have hzeros : List.replicate (n + 16) (0 : UInt8) = List.replicate 12 0 ++ List.replicate (n + 4) 0 := by
    rw [List.replicate_append_replicate]
    congr 1
    omega
  constructor
  · have hrecords : Holds (encode h rs n ++ padding) (32 + h.spec.length)
        (rs.flatMap Record.encode ++ List.replicate 12 0) := by
      rw [encode_padded, hzeros, ← h.encode_length, Holds, List.drop_left, ← List.append_assoc]
      exact List.prefix_append _ _
    have hloop := parseFrom_encode rs _ _ [] hrecords
    have halgs : algorithms (encode h rs n ++ padding) = .ok h.table := by
      rw [encode_padded, algorithms_encode]
    have hsize : unpack 4 (encode h rs n ++ padding) 28 = .ok h.spec.length := by
      rw [encode_padded, unpack_spec_length]
    simp only [parse, halgs, hsize, hloop, bind, Except.bind, List.nil_append]
  · rw [banks, encode_padded, algorithms_encode]
    simp [bind, Except.bind, pure, Except.pure, Dict.keys, Header.table, Function.comp_def]

end DrtmTest.Tcg2Log
