/-
The download cache (`drtmtest/assets.py`, `unpacked_image` of `drtmtest/trenchboot.py`) under any number of runs at once.

A run fetches the download and then unpacks the image, one file-system call a step, and may stop at any of them. All of
them make what they publish in one file, `<sha256>.tmp`.
- `Settled`: an inode that no run writes any more and no run can open for writing. `settled_step`: no step of any run
  changes one.
- `step_inv`: with no run opening `<sha256>.tmp` under another that has not published it yet, only settled inodes that
  hold what they should get a final name.
- `published_whole`: so in such runs what stands under a final name is whole, at every moment.
- `published_empty`: in others it need not be.
-/
import DrtmTest.Core.Files
import DrtmTest.Matrix

namespace DrtmTest.Cache

open DrtmTest.Matrix

/-! ## The paths -/

/-- a path in the cache directory, its name split as pathlib does -/
structure Path where
  stem : String
  suffix : String
  deriving DecidableEq

def Path.withSuffix (p : Path) (suffix : String) : Path := { p with suffix := suffix }

/-- `Asset.path`; a hash in hex has no suffix -/
def path (asset : Asset) : Path := ⟨asset.sha256, ""⟩

/-- where `unpacked_image` leaves the raw disk -/
def imagePath (asset : Asset) : Path := ⟨asset.sha256, ".wic"⟩

def tmp (asset : Asset) : Path := (path asset).withSuffix ".tmp"

def imageTmp (asset : Asset) : Path := (imagePath asset).withSuffix ".tmp"

/-- the download and the unpacking share their temporary file -/
theorem imageTmp_eq (asset : Asset) : imageTmp asset = tmp asset := rfl

theorem path_ne_tmp (asset : Asset) : path asset ≠ tmp asset := by
  simp [path, tmp, Path.withSuffix]

theorem imagePath_ne_tmp (asset : Asset) : imagePath asset ≠ tmp asset := by
  simp [imagePath, path, tmp, Path.withSuffix]

theorem imagePath_ne_path (asset : Asset) : imagePath asset ≠ path asset := by
  simp [imagePath, path]

/-! ## A run -/

/-- `hashlib` and `gzip` -/
structure Codec where
  sha256 : Bytes → String
  /-- what the bytes decompress to, as far as they go -/
  inflate : Bytes → Bytes
  /-- the bytes end where their compressed data ends -/
  complete : Bytes → Bool

/-- which call of `fetch` a run is in: the first one, or that of `unpacked_image` -/
inductive Caller where
  | prefetch
  | image

/-- the call a run makes next, with its open files and what it read from them -/
inductive Pc where
  | pathExists (caller : Caller)
  | openTmp (caller : Caller)
  | download (caller : Caller) (fd : ℕ)
  | openRead (caller : Caller)
  | hashing (caller : Caller) (fd : ℕ) (got : Bytes)
  | unlink
  | rename (caller : Caller)
  | imageExists
  | openSrc
  | openDst (src : ℕ)
  | copying (src dst : ℕ) (got out : Bytes)
  | renameImage
  | ended

/-- what moves a run: its next call done, a piece written, up to `n` bytes read, or the run stopped for good -/
inductive Act where
  | go
  | piece (bytes : Bytes)
  | chunk (n : ℕ)
  | stop

/-- where `fetch` returns to -/
def returned : Caller → Pc
  | .prefetch => .imageExists
  | .image => .openSrc

/-- one step of `fetch` and then `unpacked_image`; an act that does not fit the call does nothing -/
def advance (codec : Codec) (asset : Asset) (fs : Files Path) (pc : Pc) (act : Act) : Files Path × Pc :=
  match pc, act with
  | _, .stop => (fs, .ended)
  | .pathExists caller, .go => (fs, if fs.pathExists (path asset) then returned caller else .openTmp caller)
  | .openTmp caller, .go => ((fs.openWrite (tmp asset)).1, .download caller (fs.openWrite (tmp asset)).2)
  | .download caller fd, .piece bytes => (fs.write fd bytes, .download caller fd)
  | .download caller _, .go => (fs, .openRead caller)
  | .openRead caller, .go =>
    match fs.names (tmp asset) with
    | none => (fs, .ended)
    | some fd => (fs, .hashing caller fd [])
  | .hashing caller fd got, .chunk n => (fs, .hashing caller fd (got ++ fs.read fd got.length n))
  | .hashing caller fd got, .go =>
    if (fs.content fd).length ≤ got.length then
      (fs, if codec.sha256 got = asset.sha256 then .rename caller else .unlink)
    else (fs, .hashing caller fd got)
  | .unlink, .go => (fs.unlink (tmp asset), .ended)
  | .rename caller, .go =>
    match fs.rename (tmp asset) (path asset) with
    | none => (fs, .ended)
    | some fs => (fs, returned caller)
  | .imageExists, .go => (fs, if fs.pathExists (imagePath asset) then .ended else .pathExists .image)
  | .openSrc, .go =>
    match fs.names (path asset) with
    | none => (fs, .ended)
    | some src => (fs, .openDst src)
  | .openDst src, .go =>
    ((fs.openWrite (imageTmp asset)).1, .copying src (fs.openWrite (imageTmp asset)).2 [] [])
  | .copying src dst got out, .chunk n => (fs, .copying src dst (got ++ fs.read src got.length n) out)
  | .copying src dst got out, .piece bytes =>
    -- what gzip gives is what it could decompress so far
    if out ++ bytes <+: codec.inflate got then (fs.write dst bytes, .copying src dst got (out ++ bytes))
    else (fs, .copying src dst got out)
  | .copying src dst got out, .go =>
    -- gzip reports the end only behind a complete trailer, and raises on one cut short
    if (fs.content src).length ≤ got.length ∧ out = codec.inflate got ∧ codec.complete got then (fs, .renameImage)
    else (fs, .copying src dst got out)
  | .renameImage, .go =>
    match fs.rename (imageTmp asset) (imagePath asset) with
    | none => (fs, .ended)
    | some fs => (fs, .ended)
  | pc, _ => (fs, pc)

/-! ## Any number of runs -/

structure State where
  files : Files Path
  pc : ℕ → Pc

/-- an empty cache, and every run before its first call -/
def start : State := ⟨Files.empty, fun _ => .pathExists .prefetch⟩

/-- one step of one run -/
abbrev Move := ℕ × Act

def step (codec : Codec) (asset : Asset) (s : State) (move : Move) : State where
  files := (advance codec asset s.files (s.pc move.1) move.2).1
  pc := Function.update s.pc move.1 (advance codec asset s.files (s.pc move.1) move.2).2

def after (codec : Codec) (asset : Asset) (s : State) (moves : List Move) : State :=
  moves.foldl (step codec asset) s

def Pinned (codec : Codec) (asset : Asset) (bytes : Bytes) : Prop := codec.sha256 bytes = asset.sha256

/-- what stands under a final name is whole: the pinned download, and its complete decompression (of it, or of another
string with the same hash) -/
structure Whole (codec : Codec) (asset : Asset) (fs : Files Path) : Prop where
  download : ∀ i, fs.names (path asset) = some i → Pinned codec asset (fs.content i)
  image : ∀ i, fs.names (imagePath asset) = some i →
    fs.pathExists (path asset) ∧ ∃ k, Pinned codec asset (fs.content k) ∧ codec.complete (fs.content k) ∧
      fs.content i = codec.inflate (fs.content k)

/-- the next call opens the temporary file for writing -/
def opensTmp : Pc → Bool
  | .openTmp _ | .openDst _ => true
  | _ => false

/-- the run has opened the temporary file for writing and is yet to rename it -/
def makesTmp : Pc → Bool
  | .download _ _ | .openRead _ | .hashing _ _ _ | .rename _ | .copying _ _ _ _ | .renameImage => true
  | _ => false

/-- the move does not open the temporary file under another run that is yet to rename it -/
def Alone (s : State) (move : Move) : Prop :=
  move.2 = .go → opensTmp (s.pc move.1) → ∀ run, run ≠ move.1 → ¬ makesTmp (s.pc run)

/-- every move of the run is so, in the state it is made in -/
def AllAlone (codec : Codec) (asset : Asset) : State → List Move → Prop
  | _, [] => True
  | s, move :: moves => Alone s move ∧ AllAlone codec asset (step codec asset s move) moves

/-! ## What a step can do -/

/-- the inode a run has open for writing -/
def writes : Pc → Option ℕ
  | .download _ fd => some fd
  | .copying _ dst _ _ => some dst
  | _ => none

theorem makesTmp_of_writes {pc : Pc} {i : ℕ} (h : writes pc = some i) : makesTmp pc := by
  cases pc <;> first | rfl | cases h

/-- what one step of a run does to the files, and where it gets -/
inductive Effect (asset : Asset) (fs : Files Path) (pc : Pc) (act : Act) : Files Path × Pc → Prop where
  | silent (next : Pc) (hwrites : writes next = none ∨ writes next = writes pc) (hmakes : makesTmp next → makesTmp pc) :
      Effect asset fs pc act (fs, next)
  | wrote (fd : ℕ) (bytes : Bytes) (next : Pc) (hpc : writes pc = some fd) (hnext : writes next = some fd) :
      Effect asset fs pc act (fs.write fd bytes, next)
  | opened (next : Pc) (hact : act = .go) (hpc : opensTmp pc)
      (hnext : writes next = some (fs.openWrite (tmp asset)).2) :
      Effect asset fs pc act ((fs.openWrite (tmp asset)).1, next)
  | unlinked (hpc : pc = .unlink) : Effect asset fs pc act (fs.unlink (tmp asset), .ended)
  | published (caller : Caller) (fs' : Files Path) (hpc : pc = .rename caller)
      (h : fs.rename (tmp asset) (path asset) = some fs') : Effect asset fs pc act (fs', returned caller)
  | publishedImage (fs' : Files Path) (hpc : pc = .renameImage)
      (h : fs.rename (tmp asset) (imagePath asset) = some fs') : Effect asset fs pc act (fs', .ended)

variable {codec : Codec} {asset : Asset}

theorem returned_idle (caller : Caller) : writes (returned caller) = none ∧ ¬ makesTmp (returned caller) := by
  cases caller <;> simp [returned, writes, makesTmp]

theorem advance_effect (fs : Files Path) (pc : Pc) (act : Act) :
    Effect asset fs pc act (advance codec asset fs pc act) := by
  unfold advance
  split
  · exact .silent _ (.inl rfl) (by simp [makesTmp])
  · split
    · exact .silent _ (.inl (returned_idle _).1) (by simp [(returned_idle _).2])
    · exact .silent _ (.inl rfl) (by simp [makesTmp])
  · exact .opened _ rfl rfl rfl
  · exact .wrote _ _ _ rfl rfl
  · exact .silent _ (.inl rfl) (by simp [makesTmp])
  · split
    · exact .silent _ (.inl rfl) (by simp [makesTmp])
    · exact .silent _ (.inl rfl) (by simp [makesTmp])
  · exact .silent _ (.inl rfl) (by simp [makesTmp])
  · split_ifs
    · exact .silent _ (.inl rfl) (by simp [makesTmp])
    · exact .silent _ (.inl rfl) (by simp [makesTmp])
    · exact .silent _ (.inl rfl) (by simp [makesTmp])
  · exact .unlinked rfl
  · split
    · exact .silent _ (.inl rfl) (by simp [makesTmp])
    · rename_i h
      exact .published _ _ rfl h
  · split
    · exact .silent _ (.inl rfl) (by simp [makesTmp])
    · exact .silent _ (.inl rfl) (by simp [makesTmp])
  · split
    · exact .silent _ (.inl rfl) (by simp [makesTmp])
    · exact .silent _ (.inl rfl) (by simp [makesTmp])
  · exact .opened _ rfl rfl rfl
  · exact .silent _ (.inr rfl) (by simp [makesTmp])
  · split_ifs
    · exact .wrote _ _ _ rfl rfl
    · exact .silent _ (.inr rfl) (by simp [makesTmp])
  · split_ifs
    · exact .silent _ (.inl rfl) (by simp [makesTmp])
    · exact .silent _ (.inr rfl) (by simp [makesTmp])
  · split
    · exact .silent _ (.inl rfl) (by simp [makesTmp])
    · rename_i h
      exact .publishedImage _ rfl h
  · exact .silent _ (.inr rfl) id

/-- the rename gives an inode the final name, and leaves no temporary file -/
structure Publishes (asset : Asset) (fs : Files Path) (pc : Pc) (name : Path) (next : Files Path × Pc) (i : ℕ) :
    Prop where
  was_tmp : fs.names (tmp asset) = some i
  names : next.1.names name = some i
  no_tmp : next.1.names (tmp asset) = none
  content : next.1.content = fs.content
  fresh : next.1.fresh = fs.fresh
  idle : writes next.2 = none
  pc : (name = path asset ∧ ∃ caller, pc = .rename caller) ∨ name = imagePath asset ∧ pc = .renameImage

theorem publishes_of_rename {fs fs' : Files Path} {pc next : Pc} {name : Path} (hname : name ≠ tmp asset)
    (h : fs.rename (tmp asset) name = some fs') (hidle : writes next = none)
    (hpc : (name = path asset ∧ ∃ caller, pc = .rename caller) ∨ name = imagePath asset ∧ pc = .renameImage) :
    ∃ i, Publishes asset fs pc name (fs', next) i := by
  obtain ⟨i, htmp, hnames, hcontent, hfresh⟩ := Files.rename_eq h
  refine ⟨i, htmp, ?_, ?_, hcontent, hfresh, hidle, hpc⟩
  · rw [hnames, Function.update_self]
  · rw [hnames, Function.update_of_ne hname.symm, Function.update_self]

/-- Only a rename of the temporary file changes what a final name points to. -/
theorem Effect.final {fs : Files Path} {pc : Pc} {act : Act} {next : Files Path × Pc} {name : Path}
    (h : Effect asset fs pc act next) (hname : name = path asset ∨ name = imagePath asset) :
    next.1.names name = fs.names name ∨ ∃ i, Publishes asset fs pc name next i := by
  have hne : name ≠ tmp asset := by
    rcases hname with rfl | rfl
    · exact path_ne_tmp asset
    · exact imagePath_ne_tmp asset
  have hkept {other : Path} {fs' : Files Path} (hother : name ≠ other) (h : fs.rename (tmp asset) other = some fs') :
      fs'.names name = fs.names name := by
    obtain ⟨_, _, hnames, _⟩ := Files.rename_eq h
    rw [hnames, Function.update_of_ne hother, Function.update_of_ne hne]
  rcases h with _ | _ | _ | _ | ⟨caller, fs', hpc, h⟩ | ⟨fs', hpc, h⟩
  · exact .inl rfl
  · exact .inl rfl
  · left
    rw [Files.openWrite_names, Function.update_of_ne hne]
  · exact .inl (Function.update_of_ne hne _ _)
  · rcases hname with rfl | rfl
    · exact .inr (publishes_of_rename hne h (returned_idle caller).1 (.inl ⟨rfl, caller, hpc⟩))
    · exact .inl (hkept (imagePath_ne_path asset) h)
  · rcases hname with rfl | rfl
    · exact .inl (hkept (imagePath_ne_path asset).symm h)
    · exact .inr (publishes_of_rename hne h rfl (.inr ⟨rfl, hpc⟩))

theorem step_pc_self (s : State) (move : Move) :
    (step codec asset s move).pc move.1 = (advance codec asset s.files (s.pc move.1) move.2).2 :=
  Function.update_self _ _ _

theorem step_pc_other {run : ℕ} (s : State) {move : Move} (h : run ≠ move.1) :
    (step codec asset s move).pc run = s.pc run :=
  Function.update_of_ne h _ _

theorem step_effect (codec : Codec) (asset : Asset) (s : State) (move : Move) :
    Effect asset s.files (s.pc move.1) move.2
      ((step codec asset s move).files, (step codec asset s move).pc move.1) := by
  rw [step_pc_self]
  exact advance_effect s.files (s.pc move.1) move.2

/-! ## Settled inodes -/

/-- in use, not the temporary file, and no run has it open for writing -/
structure Settled (asset : Asset) (s : State) (i : ℕ) : Prop where
  lt : i < s.files.fresh
  not_tmp : s.files.names (tmp asset) ≠ some i
  idle : ∀ run, writes (s.pc run) ≠ some i

theorem Effect.settled {fs : Files Path} {pc : Pc} {act : Act} {next : Files Path × Pc} {i : ℕ}
    (h : Effect asset fs pc act next) (hlt : i < fs.fresh) (htmp : fs.names (tmp asset) ≠ some i)
    (hidle : writes pc ≠ some i) :
    i < next.1.fresh ∧ next.1.names (tmp asset) ≠ some i ∧ writes next.2 ≠ some i ∧
      next.1.content i = fs.content i := by
  rcases h with ⟨_, hwrites, _⟩ | ⟨fd, _, _, hpc, hnext⟩ | ⟨_, _, _, hnext⟩ | _ | ⟨caller, _, _, h⟩ | ⟨_, _, h⟩
  · refine ⟨hlt, htmp, ?_, rfl⟩
    rcases hwrites with hwrites | hwrites <;> rw [hwrites]
    · simp
    · exact hidle
  · have hne : i ≠ fd := by
      intro hi
      exact hidle (hi ▸ hpc)
    exact ⟨hlt, htmp, by rw [hnext]; simpa using hne.symm, Function.update_of_ne hne _ _⟩
  · have hne : i ≠ (fs.openWrite (tmp asset)).2 := Files.ne_openWrite hlt htmp
    refine ⟨hlt.trans_le (fs.le_openWrite_fresh _), ?_, by rw [hnext]; simpa using hne.symm, ?_⟩
    · rw [fs.openWrite_names, Function.update_self]
      simpa using hne.symm
    · rw [fs.openWrite_content, Function.update_of_ne hne]
  · exact ⟨hlt, by simp [Files.unlink], by simp [writes], rfl⟩
  · obtain ⟨_, _, hnames, hcontent, hfresh⟩ := Files.rename_eq h
    refine ⟨hfresh ▸ hlt, ?_, by simp [(returned_idle caller).1], by rw [hcontent]⟩
    rw [hnames, Function.update_of_ne (path_ne_tmp asset).symm, Function.update_self]
    simp
  · obtain ⟨_, _, hnames, hcontent, hfresh⟩ := Files.rename_eq h
    refine ⟨hfresh ▸ hlt, ?_, by simp [writes], by rw [hcontent]⟩
    rw [hnames, Function.update_of_ne (imagePath_ne_tmp asset).symm, Function.update_self]
    simp

/-- No step of any run changes a settled inode. -/
theorem settled_step (codec : Codec) {s : State} {i : ℕ} (move : Move) (h : Settled asset s i) :
    Settled asset (step codec asset s move) i ∧ (step codec asset s move).files.content i = s.files.content i := by
  obtain ⟨hlt, htmp, hidle, hcontent⟩ :=
    (step_effect codec asset s move).settled h.lt h.not_tmp (h.idle move.1)
  refine ⟨⟨hlt, htmp, ?_⟩, hcontent⟩
  intro run
  by_cases hrun : run = move.1
  · rw [hrun]
    exact hidle
  · rw [step_pc_other s hrun]
    exact h.idle run

/-! ## The invariant -/

/-- the download has its final name -/
def Fetched (asset : Asset) (fs : Files Path) : Prop := fs.pathExists (path asset)

/-- the inode holds the complete decompression of a pinned download -/
def Unpacked (codec : Codec) (asset : Asset) (s : State) (i : ℕ) : Prop :=
  ∃ k, Settled asset s k ∧ Pinned codec asset (s.files.content k) ∧ codec.complete (s.files.content k) ∧
    s.files.content i = codec.inflate (s.files.content k)

/-- the temporary file, where there is one, is the inode the run has open -/
def TmpIs (asset : Asset) (fs : Files Path) (fd : ℕ) : Prop := ∀ i, fs.names (tmp asset) = some i → i = fd

/-- what a run relies on at each of its calls -/
def Holds (codec : Codec) (asset : Asset) (s : State) : Pc → Prop
  | .hashing _ fd got => TmpIs asset s.files fd ∧ got <+: s.files.content fd
  | .rename _ => ∀ i, s.files.names (tmp asset) = some i → Pinned codec asset (s.files.content i)
  | .openDst src => Fetched asset s.files ∧ Settled asset s src ∧ Pinned codec asset (s.files.content src)
  | .copying src dst got out =>
    (Fetched asset s.files ∧ Settled asset s src ∧ Pinned codec asset (s.files.content src)) ∧
      TmpIs asset s.files dst ∧ got <+: s.files.content src ∧ s.files.content dst = out
  | .renameImage => Fetched asset s.files ∧ ∀ i, s.files.names (tmp asset) = some i → Unpacked codec asset s i
  | _ => True

structure Inv (codec : Codec) (asset : Asset) (s : State) : Prop where
  /-- one run at a time makes the temporary file -/
  exclusive : ∀ run other, makesTmp (s.pc run) → makesTmp (s.pc other) → run = other
  download : ∀ i, s.files.names (path asset) = some i →
    Settled asset s i ∧ Pinned codec asset (s.files.content i)
  image : ∀ i, s.files.names (imagePath asset) = some i →
    Fetched asset s.files ∧ Settled asset s i ∧ Unpacked codec asset s i
  runs : ∀ run, Holds codec asset s (s.pc run)

theorem Inv.whole {s : State} (h : Inv codec asset s) : Whole codec asset s.files where
  download i hi := (h.download i hi).2
  image i hi := by
    obtain ⟨hfetched, _, k, _, hk⟩ := h.image i hi
    exact ⟨hfetched, k, hk⟩

theorem start_inv : Inv codec asset start where
  exclusive run other h _ := by cases h
  download i hi := by cases hi
  image i hi := by cases hi
  runs run := trivial

theorem unpacked_step {s : State} {i : ℕ} (move : Move)
    (hi : (step codec asset s move).files.content i = s.files.content i) (h : Unpacked codec asset s i) :
    Unpacked codec asset (step codec asset s move) i := by
  obtain ⟨k, hk, hpinned, hcomplete, hcontent⟩ := h
  obtain ⟨hsettled, hsame⟩ := settled_step codec move hk
  refine ⟨k, hsettled, ?_⟩
  rw [hsame, hi]
  exact ⟨hpinned, hcomplete, hcontent⟩

/-- a final name, once given, stays -/
theorem fetched_step {s : State} (move : Move) (h : Fetched asset s.files) :
    Fetched asset (step codec asset s move).files := by
  unfold Fetched Files.pathExists at *
  rcases (step_effect codec asset s move).final (.inl rfl) with hnames | ⟨i, hpublishes⟩
  · rw [hnames]
    exact h
  · rw [hpublishes.names]
    rfl

theorem Publishes.makesTmp {fs : Files Path} {pc : Pc} {name : Path} {next : Files Path × Pc} {i : ℕ}
    (h : Publishes asset fs pc name next i) : makesTmp pc := by
  rcases h.pc with ⟨_, caller, hpc⟩ | ⟨_, hpc⟩ <;> rw [hpc] <;> rfl

/-- what gets a final name is settled by it -/
theorem published_settled {s : State} {move : Move} {name : Path} {i : ℕ} (hinv : Inv codec asset s)
    (h : Publishes asset s.files (s.pc move.1) name
      ((step codec asset s move).files, (step codec asset s move).pc move.1) i) :
    Settled asset (step codec asset s move) i := by
  refine ⟨?_, by rw [h.no_tmp]; simp, ?_⟩
  · rw [h.fresh]
    exact s.files.bound _ _ h.was_tmp
  · intro run hwrites
    by_cases hrun : run = move.1
    · rw [hrun, h.idle] at hwrites
      cases hwrites
    · rw [step_pc_other s hrun] at hwrites
      exact hrun (hinv.exclusive run move.1 (makesTmp_of_writes hwrites) h.makesTmp)

theorem Effect.makes {fs : Files Path} {pc : Pc} {act : Act} {next : Files Path × Pc}
    (h : Effect asset fs pc act next) (hmakes : makesTmp next.2) : makesTmp pc ∨ act = .go ∧ opensTmp pc := by
  rcases h with ⟨_, _, hnext⟩ | ⟨_, _, _, hpc, _⟩ | ⟨_, hact, hpc, _⟩ | _ | ⟨caller, _, _, _⟩ | _
  · exact .inl (hnext hmakes)
  · exact .inl (makesTmp_of_writes hpc)
  · exact .inr ⟨hact, hpc⟩
  · cases hmakes
  · exact absurd hmakes (returned_idle caller).2
  · cases hmakes

theorem exclusive_step {s : State} {move : Move} (hinv : Inv codec asset s) (halone : Alone s move) (run other : ℕ)
    (hrun : makesTmp ((step codec asset s move).pc run)) (hother : makesTmp ((step codec asset s move).pc other)) :
    run = other := by
  -- the moving run makes the temporary file only if no other does
  have hmover : makesTmp ((step codec asset s move).pc move.1) → ∀ third, third ≠ move.1 → ¬ makesTmp (s.pc third) := by
    intro hmakes third hthird hmakes'
    rcases (step_effect codec asset s move).makes hmakes with hpc | ⟨hact, hopens⟩
    · exact hthird (hinv.exclusive _ _ hmakes' hpc)
    · exact halone hact hopens third hthird hmakes'
  by_cases h₁ : run = move.1 <;> by_cases h₂ : other = move.1
  · rw [h₁, h₂]
  · subst h₁
    rw [step_pc_other s h₂] at hother
    exact absurd hother (hmover hrun other h₂)
  · subst h₂
    rw [step_pc_other s h₁] at hrun
    exact absurd hrun (hmover hother run h₁)
  · rw [step_pc_other s h₁] at hrun
    rw [step_pc_other s h₂] at hother
    exact hinv.exclusive run other hrun hother

theorem download_step {s : State} (move : Move) (hinv : Inv codec asset s) (i : ℕ)
    (hi : (step codec asset s move).files.names (path asset) = some i) :
    Settled asset (step codec asset s move) i ∧ Pinned codec asset ((step codec asset s move).files.content i) := by
  rcases (step_effect codec asset s move).final (.inl rfl) with hnames | ⟨j, hpublishes⟩
  · obtain ⟨hsettled, hpinned⟩ := hinv.download i (hnames ▸ hi)
    obtain ⟨hsettled', hcontent⟩ := settled_step codec move hsettled
    rw [hcontent]
    exact ⟨hsettled', hpinned⟩
  · obtain rfl : j = i := Option.some.inj (hpublishes.names.symm.trans hi)
    rcases hpublishes.pc with ⟨_, caller, hpc⟩ | ⟨hname, _⟩
    · have hholds := hinv.runs move.1
      rw [hpc] at hholds
      refine ⟨published_settled hinv hpublishes, ?_⟩
      rw [hpublishes.content]
      exact hholds j hpublishes.was_tmp
    · exact absurd hname.symm (imagePath_ne_path asset)

theorem image_step {s : State} (move : Move) (hinv : Inv codec asset s) (i : ℕ)
    (hi : (step codec asset s move).files.names (imagePath asset) = some i) :
    Fetched asset (step codec asset s move).files ∧ Settled asset (step codec asset s move) i ∧
      Unpacked codec asset (step codec asset s move) i := by
  rcases (step_effect codec asset s move).final (.inr rfl) with hnames | ⟨j, hpublishes⟩
  · obtain ⟨hfetched, hsettled, hunpacked⟩ := hinv.image i (hnames ▸ hi)
    obtain ⟨hsettled', hcontent⟩ := settled_step codec move hsettled
    exact ⟨fetched_step move hfetched, hsettled', unpacked_step move hcontent hunpacked⟩
  · obtain rfl : j = i := Option.some.inj (hpublishes.names.symm.trans hi)
    rcases hpublishes.pc with ⟨hname, _⟩ | ⟨_, hpc⟩
    · exact absurd hname (imagePath_ne_path asset)
    · have hholds := hinv.runs move.1
      rw [hpc] at hholds
      refine ⟨fetched_step move hholds.1, published_settled hinv hpublishes, ?_⟩
      exact unpacked_step move (congrFun hpublishes.content j) (hholds.2 j hpublishes.was_tmp)

/-! ## What each run relies on -/

/-- a run that is not making the temporary file, and does not open it now, at most unlinks it -/
theorem Effect.quiet {fs : Files Path} {pc : Pc} {act : Act} {next : Files Path × Pc}
    (h : Effect asset fs pc act next) (hmakes : ¬ makesTmp pc) (hopens : ¬ (act = .go ∧ opensTmp pc)) :
    next.1.content = fs.content ∧
      ∀ i, next.1.names (tmp asset) = some i → fs.names (tmp asset) = some i := by
  rcases h with _ | ⟨_, _, _, hpc, _⟩ | ⟨_, hact, hpc, _⟩ | _ | ⟨_, _, hpc, _⟩ | ⟨_, hpc, _⟩
  · exact ⟨rfl, fun i => id⟩
  · exact absurd (makesTmp_of_writes hpc) hmakes
  · exact absurd ⟨hact, hpc⟩ hopens
  · refine ⟨rfl, ?_⟩
    intro i hi
    simp [Files.unlink] at hi
  · exact absurd (hpc ▸ rfl) hmakes
  · exact absurd (hpc ▸ rfl) hmakes

theorem source_step {s : State} {src : ℕ} (move : Move)
    (h : Fetched asset s.files ∧ Settled asset s src ∧ Pinned codec asset (s.files.content src)) :
    Fetched asset (step codec asset s move).files ∧ Settled asset (step codec asset s move) src ∧
      Pinned codec asset ((step codec asset s move).files.content src) := by
  obtain ⟨hfetched, hsettled, hpinned⟩ := h
  obtain ⟨hsettled', hcontent⟩ := settled_step codec move hsettled
  rw [hcontent]
  exact ⟨fetched_step move hfetched, hsettled', hpinned⟩

/-- a move that leaves the temporary file of the run, if it makes one, keeps what the run relies on -/
theorem holds_mono {s : State} {pc : Pc} (move : Move) (h : Holds codec asset s pc)
    (hquiet : makesTmp pc → (step codec asset s move).files.content = s.files.content ∧
      ∀ i, (step codec asset s move).files.names (tmp asset) = some i → s.files.names (tmp asset) = some i) :
    Holds codec asset (step codec asset s move) pc := by
  cases pc with
  | hashing caller fd got =>
    obtain ⟨hcontent, htmp⟩ := hquiet rfl
    refine ⟨fun i hi => h.1 i (htmp i hi), ?_⟩
    rw [hcontent]
    exact h.2
  | rename caller =>
    obtain ⟨hcontent, htmp⟩ := hquiet rfl
    intro i hi
    rw [hcontent]
    exact h i (htmp i hi)
  | openDst src => exact source_step move h
  | copying src dst got out =>
    obtain ⟨hcontent, htmp⟩ := hquiet rfl
    obtain ⟨hsource, hdst, hgot, hout⟩ := h
    refine ⟨source_step move hsource, fun i hi => hdst i (htmp i hi), ?_, ?_⟩
    · rw [hcontent]
      exact hgot
    · rw [hcontent]
      exact hout
  | renameImage =>
    obtain ⟨hcontent, htmp⟩ := hquiet rfl
    refine ⟨fetched_step move h.1, ?_⟩
    intro i hi
    exact unpacked_step move (congrFun hcontent i) (h.2 i (htmp i hi))
  | pathExists _ | openTmp _ | download _ _ | openRead _ | unlink | imageExists | openSrc | ended => trivial

theorem holds_other {s : State} {move : Move} {run : ℕ} (hinv : Inv codec asset s) (halone : Alone s move)
    (hrun : run ≠ move.1) : Holds codec asset (step codec asset s move) ((step codec asset s move).pc run) := by
  rw [step_pc_other s hrun]
  apply holds_mono move (hinv.runs run)
  intro hmakes
  apply (step_effect codec asset s move).quiet
  · intro hmover
    exact hrun (hinv.exclusive _ _ hmakes hmover)
  · intro hopens
    exact halone hopens.1 hopens.2 run hrun hmakes

theorem holds_kept {s : State} {pc : Pc} (move : Move) (h : Holds codec asset s pc)
    (hfiles : (step codec asset s move).files = s.files) : Holds codec asset (step codec asset s move) pc := by
  apply holds_mono move h
  intro _
  rw [hfiles]
  exact ⟨rfl, fun i => id⟩

theorem read_extends {fs : Files Path} {fd : ℕ} {got : Bytes} (h : got <+: fs.content fd) (n : ℕ) :
    got ++ fs.read fd got.length n <+: fs.content fd := by
  obtain ⟨rest, hrest⟩ := h
  unfold Files.read
  rw [← hrest, List.drop_left, List.prefix_append_right_inj]
  exact List.take_prefix n rest

theorem step_eq (codec : Codec) (asset : Asset) {s : State} {run : ℕ} {pc : Pc} (hpc : s.pc run = pc) (act : Act) :
    (step codec asset s (run, act)).files = (advance codec asset s.files pc act).1 ∧
      (step codec asset s (run, act)).pc run = (advance codec asset s.files pc act).2 := by
  subst hpc
  exact ⟨rfl, step_pc_self s (run, act)⟩

variable {s : State} {run : ℕ}

/-- an act that does not fit the call -/
theorem idle_step {pc : Pc} {act : Act} (hpc : s.pc run = pc) (h : Holds codec asset s pc)
    (hidle : advance codec asset s.files pc act = (s.files, pc)) :
    Holds codec asset (step codec asset s (run, act)) ((step codec asset s (run, act)).pc run) := by
  obtain ⟨hfiles, hnext⟩ := step_eq codec asset hpc act
  rw [hidle] at hfiles hnext
  rw [hnext]
  exact holds_kept (run, act) h hfiles

theorem stop_step : Holds codec asset (step codec asset s (run, .stop)) ((step codec asset s (run, .stop)).pc run) := by
  rw [(step_eq codec asset rfl .stop).2]
  cases s.pc run <;> trivial

theorem openRead_step {caller : Caller} (hpc : s.pc run = .openRead caller) (act : Act) :
    Holds codec asset (step codec asset s (run, act)) ((step codec asset s (run, act)).pc run) := by
  cases act with
  | go =>
    obtain ⟨hfiles, hnext⟩ := step_eq codec asset hpc .go
    rw [hnext]
    simp only [advance] at hfiles ⊢
    split at hfiles
    · trivial
    · rename_i fd hfd
      refine ⟨?_, List.nil_prefix⟩
      intro i hi
      rw [hfiles, hfd] at hi
      exact (Option.some.inj hi).symm
  | piece bytes => exact idle_step hpc trivial rfl
  | chunk n => exact idle_step hpc trivial rfl
  | stop => exact stop_step

/-- what was hashed up to the end of the file is the file -/
theorem hashing_step {caller : Caller} {fd : ℕ} {got : Bytes} (hpc : s.pc run = .hashing caller fd got)
    (h : Holds codec asset s (.hashing caller fd got)) (act : Act) :
    Holds codec asset (step codec asset s (run, act)) ((step codec asset s (run, act)).pc run) := by
  cases act with
  | go =>
    obtain ⟨hfiles, hnext⟩ := step_eq codec asset hpc .go
    rw [hnext]
    simp only [advance] at hfiles ⊢
    split_ifs at hfiles ⊢ with hend hhash
    · have hgot : got = s.files.content fd := h.2.eq_of_length_le hend
      refine holds_kept (run, .go) ?_ hfiles
      intro i hi
      rw [h.1 i hi, Pinned, ← hgot]
      exact hhash
    · trivial
    · exact holds_kept (run, .go) h hfiles
  | piece bytes => exact idle_step hpc h rfl
  | chunk n =>
    obtain ⟨hfiles, hnext⟩ := step_eq codec asset hpc (.chunk n)
    rw [hnext]
    exact holds_kept (run, .chunk n) ⟨h.1, read_extends h.2 n⟩ hfiles
  | stop => exact stop_step

theorem openSrc_step (hinv : Inv codec asset s) (hpc : s.pc run = .openSrc) (act : Act) :
    Holds codec asset (step codec asset s (run, act)) ((step codec asset s (run, act)).pc run) := by
  cases act with
  | go =>
    rw [(step_eq codec asset hpc .go).2]
    simp only [advance]
    split
    · trivial
    · rename_i src hsrc
      obtain ⟨hsettled, hpinned⟩ := hinv.download src hsrc
      refine source_step (run, .go) ⟨?_, hsettled, hpinned⟩
      simp [Fetched, Files.pathExists, hsrc]
  | piece bytes => exact idle_step hpc trivial rfl
  | chunk n => exact idle_step hpc trivial rfl
  | stop => exact stop_step

theorem openDst_step {src : ℕ} (hpc : s.pc run = .openDst src) (h : Holds codec asset s (.openDst src)) (act : Act) :
    Holds codec asset (step codec asset s (run, act)) ((step codec asset s (run, act)).pc run) := by
  cases act with
  | go =>
    obtain ⟨hfiles, hnext⟩ := step_eq codec asset hpc .go
    rw [hnext]
    refine ⟨source_step (run, .go) h, ?_, List.nil_prefix, ?_⟩
    · intro i hi
      rw [hfiles, advance, imageTmp_eq, Files.openWrite_names, Function.update_self] at hi
      exact (Option.some.inj hi).symm
    · rw [hfiles, advance, Files.openWrite_content, Function.update_self]
  | piece bytes => exact idle_step hpc h rfl
  | chunk n => exact idle_step hpc h rfl
  | stop => exact stop_step

/-- what was written when the source and its compressed data end is all of its decompression -/
theorem copying_step {src dst : ℕ} {got out : Bytes} (hpc : s.pc run = .copying src dst got out)
    (h : Holds codec asset s (.copying src dst got out)) (act : Act) :
    Holds codec asset (step codec asset s (run, act)) ((step codec asset s (run, act)).pc run) := by
  obtain ⟨hfiles, hnext⟩ := step_eq codec asset hpc act
  rw [hnext]
  obtain ⟨hsource, hdst, hgot, hout⟩ := h
  cases act with
  | go =>
    simp only [advance] at hfiles ⊢
    split_ifs at hfiles ⊢ with hend
    · obtain ⟨hlength, hinflate, hcomplete⟩ := hend
      have hall : got = s.files.content src := hgot.eq_of_length_le hlength
      refine holds_kept (run, .go) ⟨hsource.1, ?_⟩ hfiles
      intro i hi
      refine ⟨src, hsource.2.1, hsource.2.2, ?_, ?_⟩
      · rw [← hall]
        exact hcomplete
      · rw [hdst i hi, hout, hinflate, hall]
    · exact holds_kept (run, .go) ⟨hsource, hdst, hgot, hout⟩ hfiles
  | piece bytes =>
    simp only [advance] at hfiles ⊢
    split_ifs at hfiles ⊢ with hfits
    · refine ⟨source_step (run, .piece bytes) hsource, ?_, ?_, ?_⟩
      · rw [hfiles]
        exact hdst
      · rw [(settled_step codec (run, .piece bytes) hsource.2.1).2]
        exact hgot
      · rw [hfiles, ← hout]
        exact Function.update_self _ _ _
    · exact holds_kept (run, .piece bytes) ⟨hsource, hdst, hgot, hout⟩ hfiles
  | chunk n => exact holds_kept (run, .chunk n) ⟨hsource, hdst, read_extends hgot n, hout⟩ hfiles
  | stop => trivial

theorem holds_self (move : Move) (hinv : Inv codec asset s) :
    Holds codec asset (step codec asset s move) ((step codec asset s move).pc move.1) := by
  obtain ⟨run, act⟩ := move
  have hholds := hinv.runs run
  cases hpc : s.pc run with
  | openRead caller => exact openRead_step hpc act
  | hashing caller fd got => exact hashing_step hpc (hpc ▸ hholds) act
  | openSrc => exact openSrc_step hinv hpc act
  | openDst src => exact openDst_step hpc (hpc ▸ hholds) act
  | copying src dst got out => exact copying_step hpc (hpc ▸ hholds) act
  | rename caller =>
    cases act with
    | go =>
      rw [(step_eq codec asset hpc .go).2]
      simp only [advance]
      split
      · trivial
      · cases caller <;> trivial
    | piece bytes => exact idle_step hpc (hpc ▸ hholds) rfl
    | chunk n => exact idle_step hpc (hpc ▸ hholds) rfl
    | stop => exact stop_step
  | renameImage =>
    cases act with
    | go =>
      rw [(step_eq codec asset hpc .go).2]
      simp only [advance]
      split <;> trivial
    | piece bytes => exact idle_step hpc (hpc ▸ hholds) rfl
    | chunk n => exact idle_step hpc (hpc ▸ hholds) rfl
    | stop => exact stop_step
  | pathExists caller =>
    rw [(step_eq codec asset hpc act).2]
    cases act <;> try trivial
    simp only [advance]
    cases caller <;> split_ifs <;> trivial
  | imageExists =>
    rw [(step_eq codec asset hpc act).2]
    cases act <;> try trivial
    simp only [advance]
    split_ifs <;> trivial
  | openTmp _ | download _ _ | unlink | ended =>
    rw [(step_eq codec asset hpc act).2]
    cases act <;> trivial

/-- One move of any run keeps the invariant, if it does not open the temporary file under another run. -/
theorem step_inv {s : State} {move : Move} (hinv : Inv codec asset s) (halone : Alone s move) :
    Inv codec asset (step codec asset s move) where
  exclusive := exclusive_step hinv halone
  download := download_step move hinv
  image := image_step move hinv
  runs run := by
    by_cases hrun : run = move.1
    · rw [hrun]
      exact holds_self move hinv
    · exact holds_other hinv halone hrun

theorem after_inv {s : State} {past future : List Move} (hinv : Inv codec asset s)
    (h : AllAlone codec asset s (past ++ future)) : Inv codec asset (after codec asset s past) := by
  induction past generalizing s with
  | nil => exact hinv
  | cons move past ih => exact ih (step_inv hinv h.1) h.2

/-! ## The cache -/

/-- **What has a final name is whole.** In every run in which no run opens the temporary file under another that is yet
to rename it, whatever the interleaving and wherever runs stop, at every moment. -/
theorem published_whole (codec : Codec) (asset : Asset) (past future : List Move)
    (h : AllAlone codec asset start (past ++ future)) : Whole codec asset (after codec asset start past).files :=
  (after_inv start_inv h).whole

theorem after_pc_other {run other : ℕ} {moves : List Move} (hmoves : ∀ move ∈ moves, move.1 = run)
    (hother : other ≠ run) (s : State) : (after codec asset s moves).pc other = s.pc other := by
  induction moves generalizing s with
  | nil => rfl
  | cons move moves ih =>
    have hne : other ≠ move.1 := by
      rw [hmoves move List.mem_cons_self]
      exact hother
    exact (ih (fun m hm => hmoves m (List.mem_cons_of_mem _ hm)) _).trans (step_pc_other s hne)

/-- moves of one run, with no other making the temporary file, meet the condition -/
theorem allAlone_of_one {run : ℕ} {moves : List Move} (hmoves : ∀ move ∈ moves, move.1 = run) {s : State}
    (hothers : ∀ other, other ≠ run → ¬ makesTmp (s.pc other)) : AllAlone codec asset s moves := by
  induction moves generalizing s with
  | nil => trivial
  | cons move moves ih =>
    obtain rfl := hmoves move List.mem_cons_self
    refine ⟨fun _ _ => hothers, ih (fun m hm => hmoves m (List.mem_cons_of_mem _ hm)) ?_⟩
    intro other hother
    rw [step_pc_other s hother]
    exact hothers other hother

theorem allAlone_append {s : State} {first second : List Move} (hfirst : AllAlone codec asset s first)
    (hsecond : AllAlone codec asset (after codec asset s first) second) :
    AllAlone codec asset s (first ++ second) := by
  induction first generalizing s with
  | nil => exact hsecond
  | cons move first ih => exact ⟨hfirst.1, ih hfirst.2 hsecond⟩

/-! ## Two runs -/

/-- a hash that is the string in hex, and compressed data that ends with a zero -/
def plain : Codec := ⟨Bytes.toHex, fun b => b.takeWhile (· ≠ 0), fun b => b.contains 0⟩

/-- a download of three bytes -/
def sample : Asset := ⟨"sample.rom", "070800"⟩

/-- a run that fetches the sample and unpacks it -/
def wholeRun : List Act :=
  [.go, .go, .piece [7], .piece [8, 0], .go, .go, .chunk 2, .chunk 2, .go, .go, .go, .go, .go, .go, .chunk 3,
    .piece [7, 8], .go, .go]

/-- a run stopped while it downloads -/
def stoppedRun : List Act := [.go, .go, .piece [7], .stop]

theorem published_whole_after_stop :
    (after plain sample start (stoppedRun.map (1, ·) ++ wholeRun.map (0, ·))).files.names (imagePath sample) = some 1 ∧
      Whole plain sample (after plain sample start (stoppedRun.map (1, ·) ++ wholeRun.map (0, ·))).files := by
  have hmoves (run : ℕ) (acts : List Act) : ∀ move ∈ acts.map (run, ·), move.1 = run := by simp
  have hstopped : AllAlone plain sample start (stoppedRun.map (1, ·)) :=
    allAlone_of_one (hmoves 1 _) fun _ _ => Bool.false_ne_true
  have hwhole : AllAlone plain sample (after plain sample start (stoppedRun.map (1, ·))) (wholeRun.map (0, ·)) := by
    apply allAlone_of_one (hmoves 0 _)
    intro other _
    by_cases hother : other = 1
    · rw [hother]
      decide +kernel
    · rw [after_pc_other (hmoves 1 _) hother]
      exact Bool.false_ne_true
  refine ⟨by decide +kernel, published_whole plain sample _ [] ?_⟩
  rw [List.append_nil]
  exact allAlone_append hstopped hwhole

/-- the second run opens the temporary file between the hash check and the rename of the first -/
def race : List Move :=
  (wholeRun.take 9).map (0, ·) ++ [(1, .go), (1, .go)] ++ [(0, .go)]

theorem published_empty :
    (after plain sample start race).files.names (path sample) = some 0 ∧
      (after plain sample start race).files.content 0 = [] ∧
      ¬ Whole plain sample (after plain sample start race).files := by
  have hname : (after plain sample start race).files.names (path sample) = some 0 := by decide +kernel
  have hcontent : (after plain sample start race).files.content 0 = [] := by decide +kernel
  refine ⟨hname, hcontent, ?_⟩
  intro h
  have hpinned := h.download 0 hname
  rw [hcontent, Pinned] at hpinned
  exact absurd hpinned (by decide +kernel)

end DrtmTest.Cache
