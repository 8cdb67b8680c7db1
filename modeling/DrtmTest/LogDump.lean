/-
A dump of a log that dropped zero bytes from its end.

`parse` puts back 16 zeros, whatever was dropped. With the zeros the log has behind its last event, that many bytes of the
events themselves may be missing.
- `algorithms_extend`, `framesAt_extend`: what is read of a cut buffer is read of the whole one.
- `parse_buffer`: a log reads back from any number of zeros behind it, none included.
- `parse_cut`: with one byte of the last event missing, its data comes out shortened or not at all.
- `header_kept`: the bank list of a header ends within 16 bytes of its last nonzero byte, so no dump cuts it.
- `dropped_iff`: a dump parses as the full log exactly when the log has no event or at most 16 bytes of its events were
  dropped.
-/
import DrtmTest.LogRefusal

namespace DrtmTest.LogDump

open DrtmTest.Bytes DrtmTest.EventLog DrtmTest.LogFrames DrtmTest.LogRefusal DrtmTest.Tcg2Log

variable {raw whole : Bytes}

/-! ## A cut buffer -/

theorem field_extend (h : raw <+: whole) {w off : ℕ} (hlen : off + w ≤ raw.length) :
    field w raw off = field w whole off := by
  rw [field, field, slice_extend h hlen]

theorem slice_mono (h : raw <+: whole) (a b : ℕ) : slice raw a b <+: slice whole a b :=
  (h.drop a).take (b - a)

theorem spec_extend (h : raw <+: whole) (hlen : 32 ≤ raw.length) : spec raw <+: spec whole := by
  rw [spec, spec, field_extend h (by omega)]
  exact slice_mono h _ _

/-- a bank list that is there is the same in every longer buffer -/
theorem bankTable_extend (h : raw <+: whole) (hlen : 32 ≤ raw.length) (hw : HeaderWhole raw) :
    bankCount raw = bankCount whole ∧ bankTable raw = bankTable whole := by
  have hspec := spec_extend h hlen
  have hcount : bankCount raw = bankCount whole := field_extend hspec (by have := hw.1; omega)
  refine ⟨hcount, ?_⟩
  rw [bankTable, bankTable, ← hcount]
  apply List.foldl_ext
  intro d i hi
  have hi := List.mem_range.1 hi
  have hfit := hw.2
  rw [addBank, addBank, field_extend hspec (by omega), field_extend hspec (by omega)]

theorem algorithms_ok {algs : Dict ℕ ℕ} (h : algorithms raw = .ok algs) :
    ¬ HeaderForeign raw ∧ HeaderWhole raw ∧ algs = bankTable raw := by
  by_cases hf : HeaderForeign raw
  · obtain ⟨msg, he⟩ := algorithms_foreign hf
    rw [he] at h
    cases h
  by_cases hw : HeaderWhole raw
  · rw [algorithms_whole hf hw] at h
    cases h
    exact ⟨hf, hw, rfl⟩
  · rw [algorithms_cut hf hw] at h
    cases h

theorem algorithms_extend (h : raw <+: whole) {algs : Dict ℕ ℕ} (ha : algorithms raw = .ok algs) :
    algorithms whole = .ok algs := by
  obtain ⟨hf, hw, heq⟩ := algorithms_ok ha
  subst heq
  simp only [HeaderForeign, not_or, not_not] at hf
  obtain ⟨hlen, htype, hsig⟩ := hf
  have hspec := spec_extend h (by omega)
  obtain ⟨hcount, htable⟩ := bankTable_extend h (by omega) hw
  have hforeign : ¬ HeaderForeign whole := by
    simp only [HeaderForeign, not_or, not_not]
    have := h.length_le
    exact ⟨by omega, by rw [← field_extend h (by omega)]; exact htype, hsig.trans hspec⟩
  have hwhole : HeaderWhole whole := by
    have := hspec.length_le
    exact ⟨by have := hw.1; omega, by have := hw.2; omega⟩
  rw [htable]
  exact algorithms_whole hforeign hwhole

/-- a cut behind the bank list leaves the table -/
theorem algorithms_of_cut (h : raw <+: whole) {algs : Dict ℕ ℕ} (ha : algorithms whole = .ok algs)
    (hlen : 60 + 4 * bankCount whole ≤ raw.length) : algorithms raw = .ok algs := by
  obtain ⟨hf, hw, heq⟩ := algorithms_ok ha
  simp only [HeaderForeign, not_or, not_not] at hf
  have hspec := spec_extend h (by omega)
  have hspeclen : 28 + 4 * bankCount whole ≤ (spec raw).length := by
    have hsize : field 4 raw 28 = field 4 whole 28 := field_extend h (by omega)
    have hfit := hw.2
    rw [spec, slice_length] at hfit ⊢
    rw [hsize]
    omega
  have hcount : bankCount raw = bankCount whole := field_extend hspec (by omega)
  have hwhole : HeaderWhole raw := ⟨by omega, by omega⟩
  have hsig : specIdSignature <+: spec raw :=
    List.prefix_of_prefix_length_le hf.2.2 hspec (by rw [signature_length]; omega)
  have hforeign : ¬ HeaderForeign raw := by
    simp only [HeaderForeign, not_or, not_not]
    exact ⟨by omega, by rw [field_extend h (by omega)]; exact hf.2.1, hsig⟩
  rw [heq, ← (bankTable_extend h (by omega) hwhole).2]
  exact algorithms_whole hforeign hwhole

theorem slotsAt_extend (h : raw <+: whole) {algs : Dict ℕ ℕ} {off stop : ℕ} {slots : List Slot}
    (hs : SlotsAt algs raw off slots stop) : SlotsAt algs whole off slots stop := by
  induction hs with
  | nil off => exact .nil off
  | cons id known _ ih => exact .cons (unpack_extend h id) known ih

theorem framesAt_extend (h : raw <+: whole) {algs : Dict ℕ ℕ} {off stop : ℕ} {frames : List Frame}
    (hs : FramesAt algs raw off frames stop) : FramesAt algs whole off frames stop := by
  induction hs with
  | nil off => exact .nil off
  | cons head _ ih =>
    refine .cons ⟨?_, ?_, ?_, head.nonempty, slotsAt_extend h head.slots, ?_⟩ ih
    · exact unpack_extend h head.pcr
    · exact unpack_extend h head.type
    · exact unpack_extend h head.count
    · exact unpack_extend h head.size

/-! ## A log without its zeros -/

/-- the records of a log stand in it as frames, up to the end of the last -/
theorem frames_encode {h : Header} (rs : List (Record h)) (off : ℕ) (hr : Holds raw off (rs.flatMap Record.encode)) :
    ∃ frames, FramesAt h.table raw off frames (off + (rs.flatMap Record.encode).length) ∧
      frames.map (Frame.event raw) = rs.map Record.toEvent := by
  induction rs generalizing off with
  | nil => exact ⟨[], .nil off, rfl⟩
  | cons r rs ih =>
    rw [List.flatMap_cons] at hr
    obtain ⟨hhead, htail⟩ := holds_append.1 hr
    obtain ⟨f, hf, hevent, hnext⟩ := readRecord_ok (readRecord_encode r raw off hhead)
    obtain ⟨frames, hframes, hevents⟩ := ih _ htail
    refine ⟨f :: frames, .cons hf ?_, ?_⟩
    · rw [← hnext, List.flatMap_cons, List.length_append, ← Nat.add_assoc]
      exact hframes
    · rw [List.map_cons, List.map_cons, hevents, hevent]

/-- where the last event of a log ends -/
def encodedLength (h : Header) (rs : List (Record h)) : ℕ := 32 + h.spec.length + (rs.flatMap Record.encode).length

/-- header and records, and the zeros behind them in a buffer -/
def buffer (h : Header) (rs : List (Record h)) (m : ℕ) : Bytes :=
  h.encode ++ (rs.flatMap Record.encode ++ List.replicate m 0)

theorem buffer_length (h : Header) (rs : List (Record h)) (m : ℕ) :
    (buffer h rs m).length = encodedLength h rs + m := by
  rw [buffer, List.length_append, List.length_append, h.encode_length, List.length_replicate, encodedLength]
  omega

theorem buffer_frames (h : Header) (rs : List (Record h)) (m : ℕ) :
    ∃ frames, FramesAt h.table (buffer h rs m) (32 + h.spec.length) frames (encodedLength h rs) ∧
      frames.map (Frame.event (buffer h rs m)) = rs.map Record.toEvent := by
  apply frames_encode
  rw [Holds, buffer, ← h.encode_length, List.drop_left]
  exact List.prefix_append _ _

/-- any zeros end the log, whether or not they are as many as a record takes -/
theorem buffer_ends (h : Header) (rs : List (Record h)) (m : ℕ) : Ends (buffer h rs m) (encodedLength h rs) := by
  by_cases hm : m < 12
  · left
    rw [buffer_length]
    omega
  · right
    have hzeros : List.replicate m (0 : UInt8) = List.replicate 8 0 ++ (le 4 0 ++ List.replicate (m - 12) 0) := by
      rw [show le 4 0 = List.replicate 4 0 by decide, List.replicate_append_replicate, List.replicate_append_replicate]
      congr 1
      omega
    have hlen : encodedLength h rs = (h.encode ++ rs.flatMap Record.encode).length := by
      rw [List.length_append, h.encode_length, encodedLength]
    have hholds : Holds (buffer h rs m) (encodedLength h rs) (List.replicate 8 0 ++ le 4 0) := by
      rw [Holds, buffer, ← List.append_assoc, hlen, List.drop_left, hzeros, ← List.append_assoc]
      exact List.prefix_append _ _
    have hcount := (holds_append.1 hholds).2
    rw [List.length_replicate] at hcount
    exact unpack_of_holds hcount (by norm_num) (by norm_num)

theorem unpack_buffer_size (h : Header) (rs : List (Record h)) (m : ℕ) :
    unpack 4 (buffer h rs m) 28 = .ok h.spec.length := unpack_spec_length h _

/-- **A log reads back** from any number of zeros behind it. -/
theorem parse_buffer {h : Header} {rs : List (Record h)} {m : ℕ} (hraw : raw ++ padding = buffer h rs m) :
    parse raw = .ok (rs.map Record.toEvent) ∧ banks raw = .ok (h.table.keys.map algName) := by
  have halgs : algorithms (raw ++ padding) = .ok h.table := by
    rw [hraw]
    exact algorithms_encode h _
  obtain ⟨frames, hframes, hevents⟩ := buffer_frames h rs m
  constructor
  · apply parse_ok.2
    refine ⟨h.table, frames, encodedLength h rs, ⟨halgs, h.spec.length, ?_, ?_⟩, ?_, ?_⟩
    · rw [hraw]
      exact unpack_buffer_size h rs m
    · rw [hraw]
      exact hframes
    · rw [hraw]
      exact buffer_ends h rs m
    · rw [hraw, hevents]
  · rw [banks, halgs]
    rfl

/-! ## A log without the end of its last event -/

/-- a chain that is not empty ends where its last record says -/
theorem last_frame {algs : Dict ℕ ℕ} {off stop : ℕ} {frames : List Frame} (h : FramesAt algs raw off frames stop)
    (hne : frames ≠ []) : ∃ f ∈ frames, ∃ at_, FrameAt algs raw at_ f ∧ f.next = stop := by
  induction h with
  | nil off => exact absurd rfl hne
  | @cons off stop f frames head rest ih =>
    by_cases hnil : frames = []
    · subst hnil
      cases rest
      exact ⟨f, List.mem_cons_self, off, head, rfl⟩
    · obtain ⟨g, hg, hat⟩ := ih hnil
      exact ⟨g, List.mem_cons_of_mem f hg, hat⟩

/-- **A cut event is lost.** Where the buffer ends before the last event does, the parser does not return the events of
the log: its last data would be too short. -/
theorem parse_cut {h : Header} {rs : List (Record h)} (hne : rs ≠ []) (hcut : raw ++ padding <+: buffer h rs 0)
    (hlen : (raw ++ padding).length < encodedLength h rs) : parse raw ≠ .ok (rs.map Record.toEvent) := by
  intro hparse
  obtain ⟨algs, frames, stop, hreads, -, hevents⟩ := parse_ok.1 hparse
  obtain ⟨size, hsize, hframes⟩ := hreads.frames
  have halgs := algorithms_extend hcut hreads.header
  rw [show algorithms (buffer h rs 0) = .ok h.table from algorithms_encode h _] at halgs
  have hspec := (unpack_extend hcut hsize).symm.trans (unpack_buffer_size h rs 0)
  cases halgs
  cases hspec
  obtain ⟨full, hfull, hfullEvents⟩ := buffer_frames h rs 0
  have hcount : frames.length = full.length := by
    have h1 := congrArg List.length hevents
    have h2 := congrArg List.length hfullEvents
    simp only [List.length_map] at h1 h2
    omega
  obtain ⟨hfull, hstop⟩ := hfull.eq_of_length (framesAt_extend hcut hframes) hcount.symm
  subst hfull hstop
  have hnil : full ≠ [] := by
    intro hnil
    rw [hnil] at hevents
    exact hne (List.map_eq_nil_iff.1 hevents)
  obtain ⟨f, hf, off, hframe, hnext⟩ := last_frame hframes hnil
  have hsame : f.event (raw ++ padding) = f.event (buffer h rs 0) :=
    List.map_inj_left.1 (hevents.symm.trans hfullEvents.symm) f hf
  have hdata := congrArg (fun e => e.data.length) hsame
  simp only [Frame.event, slice_length, buffer_length] at hdata
  have hat := unpack_le hframe.size
  rw [Frame.next] at hdata hnext
  omega

/-! ## A header keeps its banks -/

/-- what was dropped stands behind every byte that is not zero -/
theorem kept_of_nonzero {dump a b c : Bytes} {k : ℕ} (h : dump ++ List.replicate k 0 = a ++ (b ++ c))
    (hb : ∃ x ∈ b, x ≠ 0) : a.length < dump.length := by
  rw [← Nat.not_le]
  intro hle
  obtain ⟨x, hx, hne⟩ := hb
  have hdrop : b ++ c = (List.replicate k (0 : UInt8)).drop (a.length - dump.length) := by
    have := congrArg (List.drop a.length) h
    rw [List.drop_left, List.drop_append, List.drop_eq_nil_of_le hle, List.nil_append] at this
    exact this.symm
  have hmem : x ∈ (List.replicate k (0 : UInt8)).drop (a.length - dump.length) := by
    rw [← hdrop]
    exact List.mem_append_left c hx
  exact hne (List.eq_of_mem_replicate (List.mem_of_mem_drop hmem))

theorem le_nonzero {w n : ℕ} (hn : n < 256 ^ w) (h0 : n ≠ 0) : ∃ x ∈ le w n, x ≠ 0 := by
  by_contra hall
  push Not at hall
  have hzero : ∀ (l : Bytes), (∀ x ∈ l, x = 0) → ofLe l = 0 := by
    intro l hl
    induction l with
    | nil => rfl
    | cons x l ih =>
      rw [ofLe, hl x List.mem_cons_self, ih fun y hy => hl y (List.mem_cons_of_mem x hy)]
      rfl
  exact h0 ((ofLe_le w n hn).symm.trans (hzero _ hall))

/-- the header up to its bank list -/
def lead (h : Header) : Bytes := le 4 h.pcr.toNat ++ (le 4 evNoAction ++ (h.digest ++ le 4 h.spec.length))

theorem lead_length (h : Header) : (lead h).length = 32 := by
  simp only [lead, List.length_append, le_length, h.digest_length]

theorem encode_lead (h : Header) : h.encode = lead h ++ h.spec := by
  simp only [lead, Header.encode, List.append_assoc]

theorem encodeBanks_append (a b : List (UInt16 × UInt16)) : encodeBanks (a ++ b) = encodeBanks a ++ encodeBanks b :=
  List.flatMap_append

theorem pair_nonzero {a b : UInt16 × UInt16} (hne : a.1 ≠ b.1) : ∃ x ∈ encodeBanks [a, b], x ≠ 0 := by
  by_cases ha : a.1.toNat = 0
  · have hb : b.1.toNat ≠ 0 := fun hb => hne (toNat_injective16 (ha.trans hb.symm))
    obtain ⟨x, hx, hx0⟩ := le_nonzero (w := 2) b.1.toNat_lt hb
    exact ⟨x, by simp [encodeBanks, hx], hx0⟩
  · obtain ⟨x, hx, hx0⟩ := le_nonzero (w := 2) a.1.toNat_lt ha
    exact ⟨x, by simp [encodeBanks, hx], hx0⟩

/-- Of two banks one has an id that is not zero, so a bank list reaches to its last two entries, and what 16 zeros put
back is more than those. -/
theorem header_kept (h : Header) {dump : Bytes} {k : ℕ} (hd : dump ++ List.replicate k 0 = h.encode) :
    60 + 4 * h.banks.length ≤ dump.length + 16 := by
  rw [encode_lead] at hd
  rcases List.eq_nil_or_concat' h.banks with hnil | ⟨init, last, hlast⟩
  · have hsig : h.spec = specIdSignature.take 14 ++ (specIdSignature.drop 14 ++
        (h.platform ++ (le 4 h.banks.length ++ (encodeBanks h.banks ++ h.vendorInfo)))) := by
      rw [← List.append_assoc, List.take_append_drop, Header.spec]
    rw [hsig, ← List.append_assoc] at hd
    have := kept_of_nonzero hd (by decide)
    rw [List.length_append, lead_length, List.length_take, signature_length] at this
    rw [hnil, List.length_nil]
    omega
  rcases List.eq_nil_or_concat' init with hnil | ⟨rest, previous, hprevious⟩
  · have hone : h.banks.length = 1 := by rw [hlast, hnil]; rfl
    have hcount : h.spec = (specIdSignature ++ h.platform) ++ (le 4 h.banks.length ++
        (encodeBanks h.banks ++ h.vendorInfo)) := by
      rw [Header.spec, List.append_assoc]
    rw [hcount, ← List.append_assoc] at hd
    have := kept_of_nonzero hd (le_nonzero (by rw [hone]; norm_num) (by omega))
    rw [List.length_append, List.length_append, lead_length, signature_length, h.platform_length] at this
    omega
  · have hbanks : h.banks = rest ++ [previous, last] := by rw [hlast, hprevious, List.append_assoc]; rfl
    have hlist : h.spec = (specIdSignature ++ (h.platform ++ (le 4 h.banks.length ++ encodeBanks rest))) ++
        (encodeBanks [previous, last] ++ h.vendorInfo) := by
      rw [Header.spec]
      conv => lhs; rw [hbanks, encodeBanks_append]
      simp only [hbanks, List.append_assoc]
    rw [hlist, ← List.append_assoc] at hd
    have hne : previous.1 ≠ last.1 := by
      have := h.distinct
      rw [hbanks, List.map_append] at this
      intro heq
      have hpair := List.Nodup.of_append_right this
      simp [heq] at hpair
    have := kept_of_nonzero hd (pair_nonzero hne)
    simp only [List.length_append, lead_length, signature_length, h.platform_length, le_length,
      encodeBanks_length] at this
    have hlen : h.banks.length = rest.length + 2 := by rw [hbanks, List.length_append]; rfl
    omega

theorem bankCount_encode (h : Header) : bankCount h.encode = h.banks.length := by
  have hall := h.holds []
  rw [List.append_nil] at hall
  have hlen := h.encode_length
  have hsize : field 4 h.encode 28 = h.spec.length := by
    have hread := unpack_of_holds hall.2.1 (by norm_num) (by rw [h.spec_length]; exact h.fits)
    exact Except.ok.inj ((unpack_field _ _ _ (by omega)).symm.trans hread)
  have hspec : spec h.encode = h.spec := by
    rw [spec, hsize]
    exact slice_of_holds hall.2.2
  have hs0 : Holds h.spec 0 h.spec := List.prefix_refl _
  conv at hs0 => arg 3; rw [Header.spec]
  obtain ⟨-, hs16⟩ := holds_append.1 hs0
  obtain ⟨-, hs24⟩ := holds_append.1 hs16
  obtain ⟨hcount, -⟩ := holds_append.1 hs24
  simp only [signature_length, h.platform_length, Nat.zero_add, Nat.reduceAdd] at hcount
  have hread := unpack_of_holds hcount (by norm_num) (ids_length h.banks h.distinct)
  rw [bankCount, hspec]
  exact Except.ok.inj ((unpack_field _ _ _ (by rw [h.spec_length]; omega)).symm.trans hread)

/-- a dump of a log without events keeps its bank table, however many zeros it dropped -/
theorem parse_header {h : Header} {j : ℕ} (hcut : (raw ++ padding) ++ List.replicate j 0 = h.encode)
    (hraw : raw ++ List.replicate (j + 16) 0 = h.encode) :
    parse raw = .ok [] ∧ banks raw = .ok (h.table.keys.map algName) := by
  have hpre : raw ++ padding <+: h.encode := ⟨_, hcut⟩
  have hkept := header_kept h hraw
  have hlen : (raw ++ padding).length = raw.length + 16 := by rw [List.length_append]; rfl
  have hfull : algorithms h.encode = .ok h.table := by
    have := algorithms_encode h []
    rwa [List.append_nil] at this
  have halgs : algorithms (raw ++ padding) = .ok h.table :=
    algorithms_of_cut hpre hfull (by rw [bankCount_encode]; omega)
  have hsize : unpack 4 (raw ++ padding) 28 = .ok h.spec.length := by
    have hread := unpack_spec_length h []
    rw [List.append_nil, unpack_field _ _ _ (by rw [h.encode_length]; omega)] at hread
    rw [unpack_field _ _ _ (by omega), field_extend hpre (by omega)]
    exact hread
  constructor
  · apply parse_ok.2
    refine ⟨h.table, [], 32 + h.spec.length, ⟨halgs, h.spec.length, hsize, .nil _⟩, Or.inl ?_, rfl⟩
    have := hpre.length_le
    rw [h.encode_length] at this
    omega
  · rw [banks, halgs]
    rfl

/-! ## Where a dump reads as its log -/

section Dropped

variable {h : Header} {rs : List (Record h)} {n k : ℕ} {dump : Bytes}

theorem buffer_add (m i : ℕ) : buffer h rs (m + i) = buffer h rs m ++ List.replicate i 0 := by
  simp only [buffer, List.append_assoc, List.replicate_append_replicate]

/-- what `parse` puts back makes up for what was dropped -/
theorem dump_padded (hd : dump ++ List.replicate k 0 = buffer h rs n) (hk : k ≤ n + 16) :
    dump ++ padding = buffer h rs (n + 16 - k) := by
  apply (List.append_left_inj (List.replicate k 0)).1
  calc dump ++ padding ++ List.replicate k 0
      = dump ++ List.replicate k 0 ++ padding := by
        rw [padding, List.append_assoc, List.append_assoc, List.replicate_append_replicate,
          List.replicate_append_replicate, Nat.add_comm]
    _ = buffer h rs (n + 16) := by rw [hd, buffer_add, padding]
    _ = buffer h rs (n + 16 - k + k) := by rw [Nat.sub_add_cancel hk]
    _ = buffer h rs (n + 16 - k) ++ List.replicate k 0 := buffer_add _ _

/-- what was dropped beyond the zeros behind the log is missing of the log -/
theorem dump_short {i : ℕ} (hd : dump ++ List.replicate (i + n) 0 = buffer h rs n) :
    dump ++ List.replicate i 0 = buffer h rs 0 := by
  apply (List.append_left_inj (List.replicate n 0)).1
  calc dump ++ List.replicate i 0 ++ List.replicate n 0
      = dump ++ List.replicate (i + n) 0 := by rw [List.append_assoc, List.replicate_append_replicate]
    _ = buffer h rs (0 + n) := by rw [hd, Nat.zero_add]
    _ = buffer h rs 0 ++ List.replicate n 0 := buffer_add 0 n

end Dropped

/-- **Where a dump that lost its trailing zeros parses the same.** For every log with any zeros behind it and every dump
that dropped zero bytes from its end: `parse` and `banks` return on the dump what they return on the log if and only if
the log has no event, or at most 16 of the dropped bytes belong to its events. -/
theorem dropped_iff (h : Header) (rs : List (Record h)) (n k : ℕ) (dump : Bytes)
    (hd : dump ++ List.replicate k 0 = encode h rs n) :
    parse dump = parse (encode h rs n) ∧ banks dump = banks (encode h rs n) ↔ rs = [] ∨ k ≤ n + 16 := by
  have hbuffer : dump ++ List.replicate k 0 = buffer h rs n := hd
  rw [(parse_buffer (encode_padded h rs n)).1, (parse_buffer (encode_padded h rs n)).2]
  by_cases hk : k ≤ n + 16
  · exact ⟨fun _ => Or.inr hk, fun _ => parse_buffer (dump_padded hbuffer hk)⟩
  · obtain ⟨j, hj, rfl⟩ : ∃ j, 0 < j ∧ k = j + 16 + n := ⟨k - (n + 16), by omega, by omega⟩
    have hraw : dump ++ List.replicate (j + 16) 0 = buffer h rs 0 := dump_short hbuffer
    have hcut : (dump ++ padding) ++ List.replicate j 0 = buffer h rs 0 := by
      rw [← hraw, padding, List.append_assoc, List.replicate_append_replicate, Nat.add_comm]
    by_cases hnil : rs = []
    · subst hnil
      have hheader : buffer h [] 0 = h.encode := by simp [buffer]
      rw [hheader] at hraw hcut
      exact ⟨fun _ => Or.inl rfl, fun _ => parse_header hcut hraw⟩
    · have hlen : (dump ++ padding).length < encodedLength h rs := by
        have := congrArg List.length hcut
        rw [buffer_length, List.length_append, List.length_replicate] at this
        omega
      constructor
      · intro hsame
        exact absurd hsame.1 (parse_cut hnil ⟨_, hcut⟩ hlen)
      · intro hor
        rcases hor with hor | hor
        · exact absurd hor hnil
        · exact absurd hor hk

/-- a header with SHA-1 digests of one byte -/
def oneBank : Header where
  pcr := 0
  digest := List.replicate 20 0
  platform := List.replicate 8 0
  banks := [(4, 1)]
  vendorInfo := []
  digest_length := by decide
  platform_length := by decide
  distinct := by decide
  fits := by decide

/-- an event whose data is 17 zeros -/
def zerosRecord : Record oneBank where
  pcr := 17
  type := 0x502
  digests := [(4, [0xa0])]
  data := List.replicate 17 0
  nonempty := by decide
  distinct := by decide
  declared := by
    intro d hd
    rw [List.mem_singleton] at hd
    subst hd
    exact ⟨1, by decide, rfl⟩
  small := by decide

/-- five of twenty zeros dropped, two of them the event's -/
theorem dropped_few :
    parse ((encode oneBank [zerosRecord] 3).take 98) = parse (encode oneBank [zerosRecord] 3) ∧
        banks ((encode oneBank [zerosRecord] 3).take 98) = banks (encode oneBank [zerosRecord] 3) ↔
      [zerosRecord] = [] ∨ 5 ≤ 3 + 16 :=
  dropped_iff oneBank [zerosRecord] 3 5 _ (by decide)

/-- all 17 zeros of the data dropped: 16 come back -/
theorem dropped_data :
    let log := encode oneBank [zerosRecord] 0
    let dump := log.take 83
    dump ++ List.replicate 17 0 = log ∧ (∃ e, parse log = .ok [e] ∧ e.data.length = 17) ∧
      ∃ e, parse dump = .ok [e] ∧ e.data.length = 16 := by
  intro log dump
  have hlog : log ++ padding = buffer oneBank [zerosRecord] (0 + 16) := encode_padded oneBank [zerosRecord] 0
  have hframe : FrameAt oneBank.table (dump ++ padding) 64 ⟨17, 0x502, [⟨4, 78, 1⟩], 79, 17⟩ :=
    ⟨by decide, by decide, by decide, by simp, .cons (by decide) (by decide) (.nil 79), by decide⟩
  have hreads : Reads dump oneBank.table [_] 100 := ⟨by decide, 32, by decide, .cons hframe (.nil 100)⟩
  refine ⟨by decide, ⟨_, (parse_buffer hlog).1, by decide⟩, ?_⟩
  exact ⟨_, parse_ok.2 ⟨_, _, _, hreads, Or.inl (by decide), rfl⟩, by decide⟩

end DrtmTest.LogDump
