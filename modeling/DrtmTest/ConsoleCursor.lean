/-
The console cursor over whole runs of `expect`: any stream, any way its bytes arrive between the polls, any sequence of
calls.

- `runCalls_cuts`: the slices the successful calls return are the cuts of the stream behind their needles, one after the
  other, and the cursor stands behind the last.
- `console_cursor`: so they are consecutive, a prefix of the stream, and the same however the bytes arrive. A call that
  raises leaves the cursor, and calls for one needle return exactly as often as the stream holds it.
-/
import DrtmTest.QemuVm

namespace DrtmTest.ConsoleCursor

open DrtmTest.Find DrtmTest.Text DrtmTest.QemuVm

/-- the needle and the slice of each call that returned -/
def found (ss : List Scripted) (outs : List Outcome) : List (String × Bytes) :=
  (ss.zip outs).filterMap fun (s, out) =>
    match out with
    | .returned slice => some (s.call.needle, slice)
    | _ => none

@[simp] theorem found_waiting (s : Scripted) (ss : List Scripted) (w : Wait) : found (s :: ss) [.waiting w] = [] := by
  simp [found]

@[simp] theorem found_raised (s : Scripted) (ss : List Scripted) (e : ExpectError) (outs : List Outcome) :
    found (s :: ss) (.raised e :: outs) = found ss outs := rfl

@[simp] theorem found_returned (s : Scripted) (ss : List Scripted) (slice : Bytes) (outs : List Outcome) :
    found (s :: ss) (.returned slice :: outs) = (s.call.needle, slice) :: found ss outs := rfl

/-- the console as far as it has arrived -/
def console (ss : List Scripted) : Bytes := (runCalls fresh ss).1.reader.serialBuf

def returns (ss : List Scripted) : List (String × Bytes) := found ss (runCalls fresh ss).2

def needles (got : List (String × Bytes)) : List Bytes := got.map fun g => encode g.1

def slices (got : List (String × Bytes)) : List Bytes := got.map Prod.snd

/-! ## The run lemma -/

theorem expect_grows (vm : Vm) (s : Scripted) : vm.reader.serialBuf <+: (expect vm s).1.reader.serialBuf :=
  expectFrom_grows _ _ _ _

theorem runCalls_grows (vm : Vm) (ss : List Scripted) :
    vm.reader.serialBuf <+: (runCalls vm ss).1.reader.serialBuf := by
  induction ss generalizing vm with
  | nil => exact List.prefix_rfl
  | cons s ss ih =>
    have hs := expect_grows vm s
    simp only [runCalls]
    split
    · rename_i h
      rw [h] at hs
      exact hs
    · rename_i vm' out _ h
      rw [h] at hs
      exact hs.trans (ih vm')

/-- **The returns are the cuts.** Behind the cursor, the console is cut behind the needles of the calls that returned. -/
theorem runCalls_cuts (vm : Vm) (ss : List Scripted) :
    cuts ((runCalls vm ss).1.reader.serialBuf.drop vm.cursor) (needles (found ss (runCalls vm ss).2)) =
        some (slices (found ss (runCalls vm ss).2)) ∧
      (runCalls vm ss).1.cursor = vm.cursor + (slices (found ss (runCalls vm ss).2)).flatten.length := by
  induction ss generalizing vm with
  | nil => exact ⟨rfl, rfl⟩
  | cons s ss ih =>
    have hspec := expect_spec vm s
    rcases he : expect vm s with ⟨vm', out⟩
    rw [he] at hspec
    obtain ⟨hcuts, hcur⟩ := ih vm'
    cases out with
    | waiting w =>
      simp only at hspec
      simp only [runCalls, he, found_waiting]
      exact ⟨rfl, hspec⟩
    | raised e =>
      simp only at hspec
      rw [hspec] at hcuts hcur
      simp only [runCalls, he, found_raised]
      exact ⟨hcuts, hcur⟩
    | returned slice =>
      obtain ⟨hc', hcut⟩ := hspec
      simp only [runCalls, he, found_returned]
      have hgrow : vm'.reader.serialBuf.drop vm.cursor <+: (runCalls vm' ss).1.reader.serialBuf.drop vm.cursor :=
        (runCalls_grows vm' ss).drop vm.cursor
      constructor
      · simp only [needles, slices, List.map_cons, cuts, cut_extend hgrow hcut, List.drop_drop]
        rw [← hc']
        exact congrArg (Option.map (slice :: ·)) hcuts
      · simp only [slices, List.map_cons, List.flatten_cons, List.length_append] at hcur ⊢
        omega

/-- at the end of a run for one needle whose last call did not return, the needle is used up -/
theorem runCalls_missed {n : String} (hn : n ≠ "") (vm : Vm) (ss : List Scripted) (hs : ∀ s ∈ ss, s.call.needle = n)
    {out : Outcome} (hlast : (runCalls vm ss).2.getLast? = some out) (hret : ∀ slice, out ≠ .returned slice) :
    find (encode n) (runCalls vm ss).1.unread = none := by
  induction ss generalizing vm with
  | nil => cases hlast
  | cons s ss ih =>
    have hsn : s.call.needle = n := hs s List.mem_cons_self
    have hrest : ∀ s ∈ ss, s.call.needle = n := fun t ht => hs t (List.mem_cons_of_mem _ ht)
    have hm : (∀ slice, (expect vm s).2 ≠ .returned slice) → find (encode n) (expect vm s).1.unread = none :=
      hsn ▸ expect_missed (hsn ▸ hn)
    cases ss with
    | nil =>
      simp only [runCalls] at hlast ⊢
      split at hlast
      · rename_i h
        rw [h] at hm
        exact hm (by simp)
      · rename_i h
        rw [h] at hm
        cases hlast
        exact hm hret
    | cons t ts =>
      rw [runCalls] at hlast ⊢
      split at hlast
      · rename_i h
        rw [h] at hm
        exact hm (by simp)
      · rename_i vm' out' hw h
        have hne : (runCalls vm' (t :: ts)).2 ≠ [] := by
          rw [runCalls]
          split <;> exact List.cons_ne_nil _ _
        rw [List.getLast?_cons_of_ne_nil hne] at hlast
        exact ih vm' hrest hlast

/-! ## The cursor -/

theorem returns_cuts (ss : List Scripted) : cuts (console ss) (needles (returns ss)) = some (slices (returns ss)) ∧
    (runCalls fresh ss).1.cursor = (slices (returns ss)).flatten.length := by
  obtain ⟨hcuts, hcur⟩ := runCalls_cuts fresh ss
  rw [show fresh.cursor = 0 from rfl, List.drop_zero] at hcuts
  rw [show fresh.cursor = 0 from rfl, Nat.zero_add] at hcur
  exact ⟨hcuts, hcur⟩

theorem expect_raised_cursor {vm : Vm} {s : Scripted} {e : ExpectError} (h : (expect vm s).2 = .raised e) :
    (expect vm s).1.cursor = vm.cursor := by
  have hspec := expect_spec vm s
  rcases he : expect vm s with ⟨vm', out⟩
  rw [he] at hspec h
  cases h
  exact hspec

theorem mem_found {ss : List Scripted} {outs : List Outcome} {g : String × Bytes} (h : g ∈ found ss outs) :
    ∃ s ∈ ss, s.call.needle = g.1 := by
  obtain ⟨⟨s, out⟩, hm, hg⟩ := List.mem_filterMap.1 h
  cases out with
  | returned slice => cases hg; exact ⟨s, (List.of_mem_zip hm).1, rfl⟩
  | _ => cases hg

theorem needles_replicate {n : String} {ss : List Scripted} (hs : ∀ s ∈ ss, s.call.needle = n) :
    needles (returns ss) = List.replicate (slices (returns ss)).length (encode n) := by
  refine List.eq_replicate_iff.2 ⟨by simp [needles, slices], fun b hb => ?_⟩
  obtain ⟨g, hg, rfl⟩ := List.mem_map.1 hb
  obtain ⟨s, hm, hsg⟩ := mem_found hg
  rw [← hsg, hs s hm]

/-- **The cursor loses and repeats nothing.** Over every stream the console is a prefix of, the returned slices are the cuts
behind the leftmost occurrences, one after the other, and the cursor is their length: so two runs over one stream in which
the same needles are found return the same slices, in whatever chunks the bytes arrive. A call that raises leaves the
cursor. Calls for one needle return at most as often as the stream holds it, and one that ends otherwise has used up every
occurrence there was. -/
theorem console_cursor (ss : List Scripted) (hne : ∀ s ∈ ss, s.call.needle ≠ "") :
    (∀ stream, console ss <+: stream →
        cuts stream (needles (returns ss)) = some (slices (returns ss)) ∧ (slices (returns ss)).flatten <+: stream) ∧
      (runCalls fresh ss).1.cursor = (slices (returns ss)).flatten.length ∧
      (∀ ss' stream, console ss <+: stream → console ss' <+: stream → needles (returns ss') = needles (returns ss) →
        slices (returns ss') = slices (returns ss) ∧ (runCalls fresh ss').1.cursor = (runCalls fresh ss).1.cursor) ∧
      (∀ vm s e, (expect vm s).2 = .raised e → (expect vm s).1.cursor = vm.cursor) ∧
      (∀ n, (∀ s ∈ ss, s.call.needle = n) →
        (∀ stream, console ss <+: stream → (returns ss).length ≤ occurrences (encode n) stream) ∧
          ∀ out, (runCalls fresh ss).2.getLast? = some out → (∀ slice, out ≠ .returned slice) →
            (returns ss).length = occurrences (encode n) (console ss)) := by
  obtain ⟨hcuts, hcur⟩ := returns_cuts ss
  have hstream : ∀ stream, console ss <+: stream → cuts stream (needles (returns ss)) = some (slices (returns ss)) :=
    fun stream hp => cuts_extend hp hcuts
  refine ⟨fun stream hp => ⟨hstream stream hp, cuts_flatten (hstream stream hp)⟩, hcur, ?_,
    fun vm s e h => expect_raised_cursor h, ?_⟩
  · intro ss' stream hp hp' hneedles
    obtain ⟨hcuts', hcur'⟩ := returns_cuts ss'
    have heq : some (slices (returns ss')) = some (slices (returns ss)) := by
      rw [← cuts_extend hp' hcuts', hneedles, hstream stream hp]
    rw [hcur', hcur, Option.some.inj heq]
    exact ⟨rfl, rfl⟩
  · intro n hs
    have hlen : (returns ss).length = (slices (returns ss)).length := (List.length_map _).symm
    have hrep := needles_replicate hs
    cases ss with
    | nil => exact ⟨fun _ _ => Nat.zero_le _, nofun⟩
    | cons s ss =>
      have hn : n ≠ "" := hs s List.mem_cons_self ▸ hne s List.mem_cons_self
      have hpat : encode n ≠ [] := fun h => hn (encode_eq_nil.1 h)
      constructor
      · intro stream hp
        rw [hlen]
        exact le_occurrences hpat (by rw [← hrep, hstream stream hp]; rfl)
      · intro out hlast hret
        have hnone := runCalls_missed hn fresh (s :: ss) hs hlast hret
        rw [Vm.unread, hcur] at hnone
        rw [hlen]
        exact (occurrences_eq hpat (hrep ▸ hcuts) hnone).symm

def waitFor (needle : String) (first : Poll) (later : List Poll) : Scripted :=
  ⟨⟨needle, 5, [], ∅, idleTimeout⟩, 0, first, later⟩

/-- two prompts, the first split over two chunks, and three calls for it -/
def splitPrompt : List Scripted :=
  [waitFor "ok>" (showing (encode "boot o") 1) [showing (encode "k> and ok> an") 2],
    waitFor "ok>" (showing (encode "d o") 3) [], waitFor "ok>" (showing (encode "k") 6) []]

def returned : Outcome → Bool
  | .returned _ => true
  | _ => false

theorem console_cursor_split_prompt :
    cuts (console splitPrompt) (needles (returns splitPrompt)) = some [encode "boot ok>", encode " and ok>"] ∧
      occurrences (encode "ok>") (console splitPrompt) = 2 := by
  have hn : ∀ s ∈ splitPrompt, s.call.needle = "ok>" := by
    simp [splitPrompt, waitFor]
  have hslices : slices (returns splitPrompt) = [encode "boot ok>", encode " and ok>"] := by decide +kernel
  have hlast : (runCalls fresh splitPrompt).2.getLast?.map returned = some false := by decide +kernel
  obtain ⟨hcuts, -, -, -, hcount⟩ := console_cursor splitPrompt fun s hs => by rw [hn s hs]; decide
  obtain ⟨out, hout, hret⟩ := Option.map_eq_some_iff.1 hlast
  have h2 := (hcount "ok>" hn).2 out hout fun slice h => by rw [h] at hret; cases hret
  refine ⟨hslices ▸ (hcuts (console splitPrompt) List.prefix_rfl).1, ?_⟩
  rw [← h2, show (returns splitPrompt).length = (slices (returns splitPrompt)).length from (List.length_map _).symm,
    hslices]
  rfl

end DrtmTest.ConsoleCursor
