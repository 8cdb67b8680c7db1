/-
`menu_titles` of `drtmtest/console.py` reads the menu GRUB drew.

- `Titled`: the titles a menu may have.
- `Draws`: the renders that draw entries, each an optional mark, the title and at least two blanks, among text that starts
  no `Boot ` of its own.
- `findTitles_draws`: the expression finds the drawings, one after the other, also where a title holds `Boot ` inside a
  word or starts like another one.
- `menuTitles_reads`: each title once and in the order of the list, wherever sequences of the forms `_ANSI_RE` spells stand
  in the render. `menuTitles_misread`: a sequence of another form, a word before a drawing's blank and a letter beyond ASCII
  are read otherwise.
-/
import DrtmTest.Ansi
import DrtmTest.Core.Dict

namespace DrtmTest.MenuTitles

open DrtmTest.Console DrtmTest.Text DrtmTest.Noise DrtmTest.Ansi

/-- what every title starts with -/
def boot : List Char := "Boot ".toList

/-- letters, digits, single blanks and parentheses, no blank at the end -/
structure Spaced (t : List Char) : Prop where
  chars : ∀ c ∈ t, isTitleChar c = true
  single : ¬ [' ', ' '] <:+: t
  closed : ¬ [' '] <:+ t

structure Titled (t : List Char) : Prop extends Spaced t where
  start : boot <+: t

theorem titled_iff {t : List Char} :
    Titled t ↔ t.all isTitleChar = true ∧ ¬ [' ', ' '] <:+: t ∧ ¬ [' '] <:+ t ∧ boot <+: t :=
  ⟨fun h => ⟨List.all_eq_true.2 h.chars, h.single, h.closed, h.start⟩,
    fun h => ⟨⟨List.all_eq_true.1 h.1, h.2.1, h.2.2.1⟩, h.2.2.2⟩⟩

instance (t : List Char) : Decidable (Titled t) := decidable_of_iff' _ titled_iff

/-- the render draws the entries `drawn`, one after the other -/
inductive Draws : List String → List Char → Prop
  | nil : Draws [] []
  /-- other text: no `Boot ` starts here -/
  | other (c : Char) {drawn : List String} {render : List Char} : ¬ boot <+: c :: render → Draws drawn render →
      Draws drawn (c :: render)
  | drawing (mark : List Char) (t : String) (k : ℕ) {drawn : List String} {render : List Char} :
      mark ∈ [[], ['*'], [' ']] → Titled t.toList → 2 ≤ k → Draws drawn render →
      Draws (t :: drawn) (mark ++ (t.toList ++ (List.replicate k ' ' ++ render)))

/-! ## Blanks -/

/-- a blank in a title is the space -/
theorem eq_space {c : Char} (h : isTitleChar c = true) (hs : isSpace c = true) : c = ' ' := by
  simp only [isTitleChar, Bool.or_eq_true, decide_eq_true_eq] at h
  simp only [isSpace, decide_eq_true_eq] at hs
  rcases h with ((((h | h) | h) | h) | rfl) | rfl
  · have := isUpper_iff.1 h
    omega
  · have := isLower_iff.1 h
    omega
  · have := isDigit_iff.1 h
    omega
  · exact h
  · exact absurd hs (by decide)
  · exact absurd hs (by decide)

theorem Spaced.suffix {s t : List Char} (h : Spaced t) (hs : s <:+ t) : Spaced s where
  chars c hc := h.chars c (hs.subset hc)
  single hi := h.single (hi.trans hs.isInfix)
  closed he := h.closed (he.trans hs)

/-- in a title at most one blank stands in a row, whatever is behind the title -/
theorem Spaced.blanks {t : List Char} (h : Spaced t) (hne : t ≠ []) (pad : List Char) :
    ((t ++ pad).takeWhile isSpace).length < 2 := by
  rcases t with _ | ⟨c, t⟩
  · exact absurd rfl hne
  by_cases hc : isSpace c = true
  · obtain rfl := eq_space (h.chars c List.mem_cons_self) hc
    rcases t with _ | ⟨d, t⟩
    · exact absurd (List.suffix_refl _) h.closed
    have hd : ¬ isSpace d = true := by
      intro hd
      obtain rfl := eq_space (h.chars d (List.mem_cons_of_mem _ List.mem_cons_self)) hd
      exact h.single (List.prefix_append [' ', ' '] t).isInfix
    rw [List.cons_append, List.cons_append, List.takeWhile_cons_of_pos hc, List.takeWhile_cons_of_neg hd]
    decide
  · rw [List.cons_append, List.takeWhile_cons_of_neg hc]
    decide

theorem padding {k : ℕ} (hk : 2 ≤ k) (render : List Char) :
    2 ≤ ((List.replicate k ' ' ++ render).takeWhile isSpace).length := by
  have hblank : ∀ c ∈ List.replicate k ' ', isSpace c = true := fun c hc => List.eq_of_mem_replicate hc ▸ by decide
  rw [List.takeWhile_append_of_pos hblank, List.length_append, List.length_replicate]
  exact Nat.le_add_right_of_le hk

/-! ## One drawing -/

/-- The run stops at the padding: not at a blank inside the title, not in the middle of a word. -/
theorem titleBody_title {t : List Char} (h : Spaced t) (hne : t ≠ []) {pad : List Char}
    (hpad : 2 ≤ (pad.takeWhile isSpace).length) (body : List Char) :
    titleBody body (t ++ pad) = some (body ++ t, body.length + t.length + (pad.takeWhile isSpace).length) := by
  induction t generalizing body with
  | nil => exact absurd rfl hne
  | cons c t ih =>
    rw [List.cons_append, titleBody, if_pos (h.chars c List.mem_cons_self)]
    by_cases hlast : t = []
    · subst hlast
      rw [List.nil_append, if_pos hpad, List.length_singleton]
    · have htail := h.suffix (List.suffix_cons c t)
      rw [if_neg (Nat.not_le.2 (htail.blanks hlast pad)), ih htail hlast (body ++ [c])]
      simp only [List.append_assoc, List.singleton_append, List.length_append, List.length_cons, List.length_nil,
        Option.some.injEq, Prod.mk.injEq, true_and]
      omega

theorem titleAt_boot (rest : List Char) :
    titleAt (boot ++ rest) = (titleBody [] rest).map fun t => (boot ++ t.1, boot.length + t.2) := by
  have hword : "Boot ".toList <+: boot ++ rest := List.prefix_append boot rest
  have hhead : (boot ++ rest).head? ≠ some '*' := by
    intro heq
    cases heq
  have hdrop : (boot ++ rest).drop "Boot ".toList.length = rest := List.drop_left
  simp only [titleAt, if_neg hhead, List.drop_zero, Nat.zero_add, if_pos hword, hdrop]
  rfl

theorem titleAt_mark (rest : List Char) :
    titleAt ('*' :: (boot ++ rest)) = (titleBody [] rest).map fun t => (boot ++ t.1, boot.length + t.2 + 1) := by
  have hword : "Boot ".toList <+: boot ++ rest := List.prefix_append boot rest
  have hdrop : ('*' :: (boot ++ rest)).drop (1 + "Boot ".toList.length) = rest := by
    rw [Nat.add_comm, List.drop_succ_cons]
    exact List.drop_left
  have hcount : ∀ n, 1 + "Boot ".toList.length + n = boot.length + n + 1 := by
    intro n
    rw [Nat.add_comm 1, Nat.add_right_comm]
    rfl
  simp only [titleAt, List.head?_cons, if_true, List.drop_succ_cons, List.drop_zero, if_pos hword, hdrop, hcount]
  rfl

theorem titleAt_none {c : Char} {cs : List Char} (hword : ¬ boot <+: c :: cs) (hmark : c = '*' → ¬ boot <+: cs) :
    titleAt (c :: cs) = none := by
  by_cases hc : c = '*'
  · have hhead : (c :: cs).head? = some '*' := congrArg some hc
    have hcs : ¬ "Boot ".toList <+: (c :: cs).drop 1 := hmark hc
    rw [titleAt, if_pos hhead, if_neg hcs]
  · have hhead : ¬ (c :: cs).head? = some '*' := fun h => hc (Option.some.inj h)
    have hcs : ¬ "Boot ".toList <+: (c :: cs).drop 0 := hword
    rw [titleAt, if_neg hhead, if_neg hcs]

theorem titleAt_title {t : List Char} (h : Titled t) {pad : List Char} (hpad : 2 ≤ (pad.takeWhile isSpace).length) :
    titleAt (t ++ pad) = some (t, t.length + (pad.takeWhile isSpace).length) := by
  obtain ⟨rest, rfl⟩ := h.start
  have hne : rest ≠ [] := by
    rintro rfl
    exact h.closed (by decide)
  have hbody := titleBody_title (h.suffix (List.suffix_append boot rest)) hne hpad []
  rw [List.append_assoc, titleAt_boot, hbody, Option.map_some, List.length_append, List.length_nil, Nat.zero_add,
    Nat.add_assoc, List.nil_append]

/-! ## The render -/

theorem findTitlesFrom_drop (n : ℕ) (cs : List Char) : findTitlesFrom n cs = findTitlesFrom 0 (cs.drop n) := by
  induction n generalizing cs with
  | zero => rw [List.drop_zero]
  | succ n ih =>
    cases cs with
    | nil => rfl
    | cons c cs => exact ih cs

theorem findTitles_found {c : Char} {cs t : List Char} {n : ℕ} (h : titleAt (c :: cs) = some (t, n + 1)) :
    findTitlesFrom 0 (c :: cs) = t :: findTitlesFrom 0 (cs.drop n) := by
  rw [findTitlesFrom, h]
  exact congrArg (t :: ·) (findTitlesFrom_drop n cs)

theorem findTitles_none {c : Char} {cs : List Char} (h : titleAt (c :: cs) = none) :
    findTitlesFrom 0 (c :: cs) = findTitlesFrom 0 cs := by
  rw [findTitlesFrom, h]

/-- a mark before a title changes nothing -/
theorem findTitles_mark (rest : List Char) :
    findTitlesFrom 0 ('*' :: (boot ++ rest)) = findTitlesFrom 0 (boot ++ rest) := by
  have hmark := titleAt_mark rest
  have hboot := titleAt_boot rest
  cases hbody : titleBody [] rest with
  | none =>
    rw [hbody] at hmark hboot
    rw [findTitles_none hmark]
  | some t =>
    rw [hbody, Option.map_some] at hmark hboot
    have hlength : boot.length + t.2 = ("oot ".toList.length + t.2) + 1 := Nat.add_right_comm 4 1 t.2
    rw [findTitles_found hmark]
    rw [hlength] at hboot ⊢
    exact (findTitles_found hboot).symm

/-- text that starts no `Boot ` is passed over -/
theorem findTitles_other {c : Char} {cs : List Char} (h : ¬ boot <+: c :: cs) :
    findTitlesFrom 0 (c :: cs) = findTitlesFrom 0 cs := by
  by_cases hmark : c = '*' ∧ boot <+: cs
  · obtain ⟨rfl, rest, rfl⟩ := hmark
    exact findTitles_mark rest
  · exact findTitles_none (titleAt_none h fun hc hcs => hmark ⟨hc, hcs⟩)

theorem findTitles_blanks (cs : List Char) : findTitlesFrom 0 (cs.dropWhile isSpace) = findTitlesFrom 0 cs := by
  induction cs with
  | nil => rfl
  | cons c cs ih =>
    by_cases hc : isSpace c = true
    · have hword : ¬ boot <+: c :: cs := by
        intro h
        obtain rfl : 'B' = c := (List.cons_prefix_cons.1 h).1
        exact absurd hc (by decide)
      rw [List.dropWhile_cons_of_pos hc, ih, findTitles_other hword]
    · rw [List.dropWhile_cons_of_neg hc]

/-- a title and its padding are one match, and the search goes on behind them -/
theorem findTitles_title {t : List Char} (h : Titled t) {pad : List Char}
    (hpad : 2 ≤ (pad.takeWhile isSpace).length) :
    findTitlesFrom 0 (t ++ pad) = t :: findTitlesFrom 0 pad := by
  have hat := titleAt_title h hpad
  obtain ⟨rest, rfl⟩ := h.start
  have hrest : (boot ++ rest ++ pad).drop ((boot ++ rest).length + (pad.takeWhile isSpace).length) =
      pad.dropWhile isSpace := by
    rw [List.drop_append, List.drop_eq_nil_of_le (Nat.le_add_right _ _), List.nil_append, Nat.add_sub_cancel_left,
      drop_takeWhile]
  have hlength : (boot ++ rest).length + (pad.takeWhile isSpace).length =
      ("oot ".toList ++ rest).length + (pad.takeWhile isSpace).length + 1 := by
    rw [Nat.add_right_comm]
    rfl
  rw [hlength] at hat hrest
  calc findTitlesFrom 0 (boot ++ rest ++ pad)
      = (boot ++ rest) :: findTitlesFrom 0 (pad.dropWhile isSpace) := by rw [← hrest]; exact findTitles_found hat
    _ = (boot ++ rest) :: findTitlesFrom 0 pad := by rw [findTitles_blanks]

theorem findTitles_spaces (k : ℕ) (cs : List Char) :
    findTitlesFrom 0 (List.replicate k ' ' ++ cs) = findTitlesFrom 0 cs := by
  rw [← findTitles_blanks, ← findTitles_blanks cs,
    List.dropWhile_append_of_pos fun c hc => List.eq_of_mem_replicate hc ▸ by decide]

/-- **The expression finds the drawings**, one after the other. -/
theorem findTitles_draws {drawn : List String} {render : List Char} (h : Draws drawn render) :
    findTitlesFrom 0 render = drawn.map String.toList := by
  induction h with
  | nil => rfl
  | other c hc _ ih => rw [findTitles_other hc, ih]
  | @drawing mark t k drawn render hmark ht hk _ ih =>
    have htitle : findTitlesFrom 0 (t.toList ++ (List.replicate k ' ' ++ render)) = (t :: drawn).map String.toList := by
      rw [findTitles_title ht (padding hk render), findTitles_spaces, ih, List.map_cons]
    obtain ⟨rest, hrest⟩ := ht.start
    have hmark' : mark = [] ∨ mark = ['*'] ∨ mark = [' '] := by simpa using hmark
    rcases hmark' with rfl | rfl | rfl
    · exact htitle
    · refine Eq.trans ?_ htitle
      rw [← hrest, List.append_assoc]
      exact findTitles_mark _
    · exact (findTitles_spaces 1 _).trans htitle

/-- **The menu is read as GRUB drew it.** A render that draws every title of a list and no other, the first drawings in the
order of the list, with the sequences `_ANSI_RE` spells anywhere: `menu_titles` is the list, each title once. -/
theorem menuTitles_reads {titles drawn : List String} {render raw : List Char} (hdraws : Draws drawn render)
    (hraw : Escaped render raw) (hentries : ∀ t, t ∈ drawn ↔ t ∈ titles)
    (hfirst : titles.Pairwise fun a b => drawn.idxOf a < drawn.idxOf b) : menuTitles raw = titles := by
  have hfound : (findTitlesFrom 0 (stripAnsi raw)).map String.ofList = drawn := by
    rw [hraw.stripAnsi_eq, findTitles_draws hdraws, List.map_map]
    exact (List.map_congr_left fun _ _ => String.ofList_toList).trans (List.map_id drawn)
  rw [menuTitles, hfound]
  exact Dict.eraseDups_eq hentries hfirst

/-- two passes over two entries, one title the start of the other, the first one drawn with a sequence inside -/
theorem menuTitles_reads_passes :
    menuTitles ("\x1b[05;03H*Boot \x1b[0mTrenchBoot   Boot TrenchBoot (EFI)  \x1b[5;3H " ++
      "Boot TrenchBoot  *Boot TrenchBoot (EFI)  ").toList =
      ["Boot TrenchBoot", "Boot TrenchBoot (EFI)"] := by
  have hlinux : Titled "Boot TrenchBoot".toList := by decide +kernel
  have hefi : Titled "Boot TrenchBoot (EFI)".toList := by decide +kernel
  have hdraws := Draws.drawing [' '] _ 2 (by decide) hlinux (by decide)
    (Draws.drawing ['*'] _ 2 (by decide) hefi (by decide) .nil)
  have hdraws := Draws.drawing ['*'] _ 2 (by decide) hlinux (by decide)
    (Draws.drawing [' '] _ 2 (by decide) hefi (by decide) hdraws)
  have hplace : AnsiSequence "\x1b[05;03H".toList := .control "05;03".toList 'H' (List.all_eq_true.1 (by decide)) (by decide)
  have hreset : AnsiSequence "\x1b[0m".toList := .control ['0'] 'm' (List.all_eq_true.1 (by decide)) (by decide)
  have hback : AnsiSequence "\x1b[5;3H".toList := .control "5;3".toList 'H' (List.all_eq_true.1 (by decide)) (by decide)
  have hraw : Sprinkled AnsiSequence
      ("*Boot ".toList ++ ("TrenchBoot   Boot TrenchBoot (EFI)  ".toList ++
        " Boot TrenchBoot  *Boot TrenchBoot (EFI)  ".toList)) _ :=
    .piece hplace ((Sprinkled.refl _).append (.piece hreset ((Sprinkled.refl _).append (.piece hback (.refl _)))))
  have hescaped := escaped_of_sprinkled hraw (by decide +kernel)
  refine menuTitles_reads hdraws ((congrArg₂ Escaped ?_ ?_).mp hescaped) ?_ ?_
  · decide +kernel
  · decide +kernel
  · intro t
    simp only [List.mem_cons, List.not_mem_nil, or_false]
    tauto
  · decide +kernel

/-- a private mode switch inside a title hides it, a `Boot` in front of a drawing's blank goes into its title, and a title
with another letter than ASCII's is not found -/
theorem menuTitles_misread :
    (Sprinkled TerminalSequence "Boot Xen  ".toList "Boot \x1b[=3hXen  ".toList ∧
        menuTitles "Boot \x1b[=3hXen  ".toList ≠ ["Boot Xen"]) ∧
      (¬ boot <:+: "Boot".toList ∧ menuTitles ("Boot".toList ++ " Boot Xen  ".toList) ≠ ["Boot Xen"]) ∧
      menuTitles "Boot Café  ".toList ≠ ["Boot Café"] := by
  have hmode : TerminalSequence "\x1b[=3h".toList := .control ['=', '3'] [] 'h' (by simp) (by simp) (by decide)
  exact ⟨⟨(Sprinkled.refl "Boot ".toList).append (.piece hmode (.refl "Xen  ".toList)), by decide +kernel⟩,
    ⟨by decide, by decide +kernel⟩, by decide +kernel⟩

end DrtmTest.MenuTitles
