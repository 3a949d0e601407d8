import ThemeCss.Proofs.Text.Trim
import ThemeCss.Text.Lowercase

/-!
# Texts in lower case

Lowering looks at neighbours only to choose the form of a capital sigma, and what it puts in place
of a capital starts with another character. So a text that lowering leaves alone has no character
that it would change anywhere, and each part of it is left alone too. No capital is the lower-case
form of another, so a text that was lowered is left alone.
-/
namespace ThemeCss.Text

/-- Stands for itself in lower case, whatever its neighbours are. -/
def IsLower (c : Char) : Prop := c.toNat ≠ 0x3A3 ∧ lowerChar c = [c]

/-- Only the dotted capital I has more than one character for its lower-case form. -/
theorem lowerChar_cases (c : Char) :
    (∃ d, lowerChar c = [d]) ∨ c.toNat = 0x130 ∧ ∃ more, lowerChar c = 'i' :: more := by
  simp only [lowerChar]
  split
  · exact .inl ⟨_, rfl⟩
  · split
    next dotted => exact .inr ⟨by simpa using dotted, _, rfl⟩
    next =>
      split
      · exact .inl ⟨_, rfl⟩
      · exact .inl ⟨_, rfl⟩

theorem isLower_of_lowerFrom {before text : Text} (same : lowerFrom before text = text) :
    ∀ c ∈ text, IsLower c := by
  induction text generalizing before with
  | nil => simp
  | cons c rest ih =>
    simp only [lowerFrom] at same
    split at same
    -- Neither form of the sigma is the capital.
    next sigma =>
      have number : c.toNat = 0x3A3 := by simpa using sigma
      split at same
      · obtain ⟨rfl, _⟩ := List.cons.inj same
        exact absurd number (by decide)
      · obtain ⟨rfl, _⟩ := List.cons.inj same
        exact absurd number (by decide)
    next other =>
      have image : lowerChar c = [c] := by
        rcases lowerChar_cases c with ⟨d, single⟩ | ⟨dotted, more, parts⟩
        · rw [single] at same ⊢
          rw [(List.cons.inj same).1]
        · rw [parts] at same
          obtain ⟨rfl, _⟩ := List.cons.inj same
          exact absurd dotted (by decide)
      rw [image] at same
      rw [List.forall_mem_cons]
      exact ⟨⟨by simpa using other, image⟩, ih (List.cons.inj same).2⟩

theorem lowerFrom_of_isLower {text : Text} (each : ∀ c ∈ text, IsLower c) (before : Text) :
    lowerFrom before text = text := by
  induction text generalizing before with
  | nil => rfl
  | cons c rest ih =>
    rw [List.forall_mem_cons] at each
    obtain ⟨⟨other, image⟩, behind⟩ := each
    rw [lowerFrom, if_neg (by simpa using other), image, ih behind]
    rfl

theorem lower_trim {text : Text} (same : lower text = text) : lower (trim text) = trim text :=
  lowerFrom_of_isLower (fun c member => isLower_of_lowerFrom same c (mem_of_mem_trim member)) []

/-! ### Lowering again -/

/-- The last of the images of a run. -/
def CaseRun.lastImage (run : CaseRun) : Nat := run.image + (run.last - run.first)

/-- No image of the first run is a capital of the second: they lie apart or alternate. -/
def CaseRun.misses (run other : CaseRun) : Bool :=
  Nat.blt run.lastImage other.first || Nat.blt other.last run.image ||
    ((run.step == 2 || run.first == run.last) && other.step == 2 &&
      (run.image + other.first) % 2 == 1)

/-- The images are characters beyond ASCII, but for the small k that the Kelvin sign stands for, and
none of them is one of the two capitals that are treated apart. -/
def CaseRun.isProper (run : CaseRun) : Bool :=
  (Nat.ble 0x80 run.image || run.image == 0x6B && run.first == run.last) &&
    (Nat.blt run.lastImage 0xD800 || Nat.blt 0xDFFF run.image && Nat.blt run.lastImage 0x110000) &&
    (Nat.blt run.lastImage 0x130 || Nat.blt 0x130 run.image) &&
    (Nat.blt run.lastImage 0x3A3 || Nat.blt 0x3A3 run.image)

theorem misses_of_mem_capitals {run other : CaseRun} (listed : run ∈ capitals)
    (among : other ∈ capitals) : run.misses other = true := by
  have each : (capitals.all fun run => capitals.all run.misses) = true := by decide +kernel
  exact List.all_eq_true.mp (List.all_eq_true.mp each run listed) other among

theorem isProper_of_mem_capitals {run : CaseRun} (listed : run ∈ capitals) :
    run.isProper = true := by
  have each : capitals.all CaseRun.isProper = true := by decide +kernel
  exact List.all_eq_true.mp each run listed

section image

variable {run : CaseRun} (listed : run ∈ capitals) {n : Nat} (covers : run.covers n = true)
include listed covers

omit listed in
/-- The image of a capital lies among those of its run. -/
theorem image_bounds : n - run.first ≤ run.last - run.first ∧ (n - run.first) % run.step = 0 := by
  simp only [CaseRun.covers, Bool.and_eq_true, decide_eq_true_eq, beq_iff_eq] at covers
  omega

theorem toNat_image : (Char.ofNat (run.image + (n - run.first))).toNat
    = run.image + (n - run.first) := by
  have proper := isProper_of_mem_capitals listed
  obtain ⟨bound, _⟩ := image_bounds covers
  simp only [CaseRun.isProper, CaseRun.lastImage, Bool.and_eq_true, Bool.or_eq_true,
    Nat.blt_eq, Nat.ble_eq, beq_iff_eq] at proper
  have valid : (run.image + (n - run.first)).isValidChar := by
    simp only [Nat.isValidChar]
    omega
  rw [Char.ofNat, dif_pos valid]
  rfl

/-- The image of a capital is none. -/
theorem isLower_image : IsLower (Char.ofNat (run.image + (n - run.first))) := by
  have number := toNat_image listed covers
  have proper := isProper_of_mem_capitals listed
  obtain ⟨bound, step⟩ := image_bounds covers
  simp only [CaseRun.isProper, CaseRun.lastImage, Bool.and_eq_true, Bool.or_eq_true,
    Nat.blt_eq, Nat.ble_eq, beq_iff_eq] at proper
  refine ⟨by rw [number]; omega, ?_⟩
  -- The image of one capital is a letter of seven bits; any other lies in no run of capitals.
  by_cases ascii : run.image + (n - run.first) < 0x80
  · have kelvin : run.image + (n - run.first) = 0x6B := by omega
    rw [kelvin]
    decide
  · have none : capitals.find? (·.covers (run.image + (n - run.first))) = none := by
      rw [List.find?_eq_none]
      intro other among
      have apart := misses_of_mem_capitals listed among
      simp only [CaseRun.misses, CaseRun.lastImage, Bool.and_eq_true, Bool.or_eq_true, Nat.blt_eq,
        beq_iff_eq] at apart
      simp only [CaseRun.covers, Bool.and_eq_true, decide_eq_true_eq, beq_iff_eq]
      rintro ⟨⟨above, below⟩, even⟩
      rcases apart with (low | high) | ⟨⟨two, twice⟩, odd⟩
      · omega
      · omega
      · rw [twice] at even
        rcases two with two | single
        · rw [two] at step
          omega
        · omega
    rw [lowerChar, number, if_neg ascii, none]
    have other : ¬(run.image + (n - run.first) == 0x130) = true := by
      rw [beq_iff_eq]
      omega
    rw [if_neg other]

end image

/-- What a character is lowered to stays. -/
theorem isLower_of_mem_lowerChar {c d : Char} (other : c.toNat ≠ 0x3A3) (member : d ∈ lowerChar c) :
    IsLower d := by
  rw [lowerChar] at member
  split at member
  next ascii =>
    have each : ∀ n < 0x80, (Char.ofNat n).toLower.toNat ≠ 0x3A3 ∧
        lowerChar (Char.ofNat n).toLower = [(Char.ofNat n).toLower] := by decide
    have here := each c.toNat ascii
    rw [Char.ofNat_toNat] at here
    rw [List.mem_singleton.mp member]
    exact here
  next beyond =>
    split at member
    next =>
      have each : ∀ d ∈ ['i', Char.ofNat 0x307], d.toNat ≠ 0x3A3 ∧ lowerChar d = [d] := by
        simp only [List.forall_mem_cons]
        exact ⟨by decide +kernel, by decide +kernel, nofun⟩
      exact each d member
    next undotted =>
      split at member
      next run found =>
        have covers : run.covers c.toNat = true := by simpa using List.find?_some found
        rw [List.mem_singleton.mp member]
        exact isLower_image (List.mem_of_find?_eq_some found) covers
      next missing =>
        rw [List.mem_singleton.mp member]
        exact ⟨other, by rw [lowerChar, if_neg beyond, if_neg undotted, missing]⟩

theorem isLower_of_mem_lowerFrom {before text : Text} {c : Char}
    (member : c ∈ lowerFrom before text) : IsLower c := by
  induction text generalizing before with
  | nil => cases member
  | cons d rest ih =>
    rw [lowerFrom] at member
    rcases List.mem_append.mp member with here | behind
    · split at here
      next =>
        have sigmas : ∀ c ∈ [Char.ofNat 0x3C2, Char.ofNat 0x3C3],
            c.toNat ≠ 0x3A3 ∧ lowerChar c = [c] := by
          simp only [List.forall_mem_cons]
          exact ⟨by decide +kernel, by decide +kernel, nofun⟩
        apply sigmas
        split at here <;> simp_all
      next other => exact isLower_of_mem_lowerChar (by simpa using other) here
    · exact ih behind

theorem lower_lower (text : Text) : lower (lower text) = lower text :=
  lowerFrom_of_isLower (fun _ member => isLower_of_mem_lowerFrom member) []

/-! ### What lowering brings in -/

/-- What is put in place of a capital: a letter, or the dot of the dotted one. -/
structure Brought (c : Char) : Prop where
  beyond : 0x60 < c.toNat
  ink : isBlank c = false
  assigned : c.toNat ≠ 0xFFFE ∧ c.toNat ≠ 0xFFFF

instance (c : Char) : Decidable (Brought c) :=
  decidable_of_iff (0x60 < c.toNat ∧ isBlank c = false ∧ c.toNat ≠ 0xFFFE ∧ c.toNat ≠ 0xFFFF)
    ⟨fun ⟨beyond, ink, assigned⟩ => ⟨beyond, ink, assigned⟩,
      fun ⟨beyond, ink, assigned⟩ => ⟨beyond, ink, assigned⟩⟩

/-- The blanks beyond ASCII, and the two places of the first plane that no character has. -/
def gaps : List Nat := [
  0x85, 0xA0, 0x1680, 0x2000, 0x2001, 0x2002, 0x2003, 0x2004, 0x2005, 0x2006, 0x2007, 0x2008,
  0x2009, 0x200A, 0x2028, 0x2029, 0x202F, 0x205F, 0x3000, 0xFFFE, 0xFFFF]

/-- No image of the run is a gap or a character before the small letters. -/
def CaseRun.isInked (run : CaseRun) : Bool :=
  Nat.blt 0x60 run.image && gaps.all fun n => Nat.blt run.lastImage n || Nat.blt n run.image

theorem brought_image {run : CaseRun} (listed : run ∈ capitals) {n : Nat}
    (covers : run.covers n = true) : Brought (Char.ofNat (run.image + (n - run.first))) := by
  have each : capitals.all CaseRun.isInked = true := by decide +kernel
  have inked := List.all_eq_true.mp each run listed
  have number := toNat_image listed covers
  obtain ⟨bound, _⟩ := image_bounds covers
  simp only [CaseRun.isInked, CaseRun.lastImage, gaps, List.all_cons, List.all_nil,
    Bool.and_eq_true, Bool.or_eq_true, Nat.blt_eq] at inked
  refine ⟨by omega, ?_, by omega⟩
  simp only [isBlank, number, Bool.or_eq_false_iff, Bool.and_eq_false_iff, decide_eq_false_iff_not,
    beq_eq_false_iff_ne]
  omega

theorem eq_or_brought_of_mem_lowerChar {c d : Char} (member : d ∈ lowerChar c) :
    d = c ∨ Brought d := by
  rw [lowerChar] at member
  split at member
  next ascii =>
    have each : ∀ n < 0x80, (Char.ofNat n).toLower = Char.ofNat n ∨
        Brought (Char.ofNat n).toLower := by decide
    have here := each c.toNat ascii
    rw [Char.ofNat_toNat] at here
    rwa [List.mem_singleton.mp member]
  next =>
    split at member
    next =>
      have each : ∀ d ∈ ['i', Char.ofNat 0x307], Brought d := by
        simp only [List.forall_mem_cons]
        exact ⟨by decide, by decide, nofun⟩
      exact .inr (each d member)
    next =>
      split at member
      next run found =>
        rw [List.mem_singleton.mp member]
        exact .inr (brought_image (List.mem_of_find?_eq_some found)
          (by simpa using List.find?_some found))
      next => exact .inl (List.mem_singleton.mp member)

/-- A character gives way to some characters, itself or ones that are brought in. -/
theorem exists_image (before : Text) (c : Char) (rest : Text) :
    ∃ image, lowerFrom before (c :: rest) = image ++ lowerFrom (c :: before) rest ∧ image ≠ [] ∧
      ∀ d ∈ image, d = c ∨ Brought d := by
  rw [lowerFrom]
  refine ⟨_, rfl, ?_⟩
  split
  next =>
    have sigmas : Brought (Char.ofNat 0x3C2) ∧ Brought (Char.ofNat 0x3C3) := by decide
    split
    · simpa using Or.inr sigmas.1
    · simpa using Or.inr sigmas.2
  next =>
    refine ⟨?_, fun d => eq_or_brought_of_mem_lowerChar⟩
    rcases lowerChar_cases c with ⟨d, single⟩ | ⟨_, more, parts⟩
    · simp [single]
    · simp [parts]

theorem mem_or_brought {before text : Text} {d : Char} (member : d ∈ lowerFrom before text) :
    d ∈ text ∨ Brought d := by
  induction text generalizing before with
  | nil => exact .inl member
  | cons c rest ih =>
    obtain ⟨image, parts, _, each⟩ := exists_image before c rest
    rw [parts] at member
    rcases List.mem_append.mp member with here | behind
    · exact (each d here).imp_left fun same => List.mem_cons.mpr (.inl same)
    · exact (ih behind).imp_left (List.mem_cons_of_mem c)

theorem lowerFrom_ne_nil (before : Text) {text : Text} (some : text ≠ []) :
    lowerFrom before text ≠ [] := by
  obtain ⟨c, rest, rfl⟩ := List.exists_cons_of_ne_nil some
  obtain ⟨image, parts, ink, _⟩ := exists_image before c rest
  rw [parts]
  simp [ink]

theorem trimmed_lower {text : Text} (trimmed : Trimmed text) : Trimmed (lower text) := by
  have inked {c d : Char} (ink : isBlank c = false) : d = c ∨ Brought d → isBlank d = false := by
    rintro (rfl | brought)
    · exact ink
    · exact brought.ink
  constructor
  · intro d first
    cases text with
    | nil => cases first
    | cons c rest =>
      obtain ⟨image, parts, some, each⟩ := exists_image [] c rest
      rw [lower, parts, head?_append_of_ne_nil some] at first
      exact inked (trimmed.starts c rfl) (each d (List.mem_of_mem_head? first))
  · -- What a character is lowered to hangs on what stands before it, so that is generalised.
    have ends := trimmed.ends
    clear trimmed
    rw [lower]
    generalize ([] : Text) = before
    induction text generalizing before with
    | nil => simp [lowerFrom]
    | cons c rest ih =>
      obtain ⟨image, parts, some, each⟩ := exists_image before c rest
      rw [parts]
      cases rest with
      | nil =>
        intro d last
        rw [lowerFrom, List.append_nil] at last
        exact inked (ends c rfl) (each d (List.mem_of_getLast? last))
      | cons next others =>
        rw [getLast?_append_of_ne_nil _ (lowerFrom_ne_nil (c :: before) (by simp))]
        exact ih (fun d last => ends d (by rwa [List.getLast?_cons_cons])) (c :: before)

end ThemeCss.Text
