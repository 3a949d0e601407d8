import ThemeCss.Text.Fragment

/-!
# Reading with a blind matcher

A matcher is blind when it does not ask for the character before its place. What a blind matcher
finds in a text is found piece by piece: a stretch in which it answers nowhere stays, a stretch that
it covers is one hit, and the reading goes on behind either as if the text started there. With any
matcher, a character between hits is one of the text, and a hit covers the start of a suffix at
which the matcher answers.
-/
namespace ThemeCss.Text

variable {α : Type}

def Blind (matcher : Matcher α) : Prop :=
  ∀ before other text, matcher before text = matcher other text

variable {matcher : Matcher α}

theorem Blind.fragments (blind : Blind matcher) (before other : Option Char) (text : Text) :
    fragments matcher before text = fragments matcher other text := by
  cases text with
  | nil => simp [Text.fragments]
  | cons c rest =>
    rw [Text.fragments, Text.fragments, blind before other]

theorem fragments_cons_of_none (blind : Blind matcher) {c : Char} {rest : Text}
    (misses : matcher none (c :: rest) = none) :
    fragments matcher none (c :: rest) = .plain c :: fragments matcher none rest := by
  rw [fragments]
  simp only [misses]
  rw [blind.fragments (some c) none]

theorem getLast?_cons_or (c : Char) (rest : Text) (before : Option Char) :
    (c :: rest).getLast?.or before = rest.getLast?.or (some c) := by
  rw [List.getLast?_cons]
  cases rest.getLast? <;> rfl

/-- A stretch in which the matcher answers nowhere, with what follows it. -/
def Silent (matcher : Matcher α) (before : Option Char) (stretch after : Text) : Prop :=
  ∀ front back, stretch = front ++ back → back ≠ [] →
    matcher (front.getLast?.or before) (back ++ after) = none

theorem silent_nil (before : Option Char) (after : Text) : Silent matcher before [] after := by
  intro front back parts ink
  exact absurd (List.append_eq_nil_iff.mp parts.symm).2 ink

theorem silent_cons_iff {before : Option Char} {c : Char} {rest after : Text} :
    Silent matcher before (c :: rest) after ↔
      matcher before (c :: (rest ++ after)) = none ∧ Silent matcher (some c) rest after := by
  constructor
  · intro silent
    refine ⟨silent [] (c :: rest) rfl (by simp), fun front back parts ink => ?_⟩
    rw [← getLast?_cons_or c front before]
    exact silent (c :: front) back (by rw [parts]; rfl) ink
  · rintro ⟨here, silent⟩ (_ | ⟨d, front⟩) back parts ink
    · obtain rfl : c :: rest = back := parts
      exact here
    · obtain ⟨rfl, behind⟩ := List.cons.inj parts
      rw [getLast?_cons_or]
      exact silent front back behind ink

theorem getLast?_or_of_ne_nil {text : Text} (ink : text ≠ []) (before : Option Char) :
    text.getLast?.or before = text.getLast? := by
  rw [List.getLast?_eq_some_getLast ink]
  rfl

theorem silent_append_iff {before : Option Char} {first second after : Text} :
    Silent matcher before (first ++ second) after ↔
      Silent matcher before first (second ++ after) ∧
        Silent matcher (first.getLast?.or before) second after := by
  induction first generalizing before with
  | nil => simp [silent_nil]
  | cons c rest ih =>
    rw [List.cons_append, silent_cons_iff, silent_cons_iff, ih, getLast?_cons_or,
      List.append_assoc, and_assoc]

theorem silent_of_forall {stretch : Text}
    (misses : ∀ c ∈ stretch, ∀ before rest, matcher before (c :: rest) = none)
    (before : Option Char) (after : Text) : Silent matcher before stretch after := by
  rintro front (_ | ⟨c, rest⟩) rfl ink
  · exact absurd rfl ink
  · exact misses c (by simp) _ _

/-- A stretch in which the matcher answers nowhere is left character by character. -/
theorem fragments_append_of_silent {before : Option Char} {first : Text} (second : Text)
    (silent : Silent matcher before first second) :
    fragments matcher before (first ++ second)
      = first.map .plain ++ fragments matcher (first.getLast?.or before) second := by
  induction first generalizing before with
  | nil => rfl
  | cons c rest ih =>
    obtain ⟨here, silent⟩ := silent_cons_iff.mp silent
    rw [List.cons_append, fragments, getLast?_cons_or]
    simp only [here]
    rw [ih silent]
    rfl

theorem fragments_append_of_none (blind : Blind matcher) {first : Text} (second : Text)
    (misses : ∀ suffix, suffix ≠ [] → suffix <:+ first →
      matcher none (suffix ++ second) = none) :
    fragments matcher none (first ++ second)
      = first.map .plain ++ fragments matcher none second := by
  rw [fragments_append_of_silent second, blind.fragments _ none]
  intro front back parts ink
  rw [blind _ none]
  exact misses back ink ⟨front, parts.symm⟩

/-- A search that misses in front of a character, from every place up to it, passes over it. -/
theorem fragments_concat_of_none (blind : Blind matcher) {first : Text} {c : Char} (second : Text)
    (misses : ∀ before, before <:+ first → matcher none (before ++ c :: second) = none) :
    fragments matcher none (first ++ c :: second)
      = (first ++ [c]).map .plain ++ fragments matcher none second := by
  rw [← List.singleton_append, ← List.append_assoc]
  apply fragments_append_of_none blind
  intro suffix ink tail
  rcases List.suffix_concat_iff.mp tail with none | ⟨before, rfl, starts⟩
  · exact absurd none ink
  · rw [List.append_assoc, List.singleton_append]
    exact misses before starts

/-- What the matcher covers is one hit. -/
theorem fragments_of_hit {before : Option Char} {value : α} {covered after : Text}
    (ink : covered ≠ [])
    (found : matcher before (covered ++ after) = some (value, covered.length)) :
    fragments matcher before (covered ++ after)
      = .hit value covered :: fragments matcher covered.getLast? after := by
  -- A hit covers at least one character, so reading goes on behind it.
  obtain ⟨c, tail, rfl⟩ := List.exists_cons_of_ne_nil ink
  rw [List.cons_append] at found ⊢
  rw [fragments]
  simp only [found, List.length_cons, Nat.add_sub_cancel, List.take_left, List.drop_left,
    List.getLast?_cons, List.getLastD_eq_getLast?]

/-- A stretch that the matcher covers is one hit. -/
theorem fragments_of_match (blind : Blind matcher) {value : α} {covered : Text} (rest : Text)
    (ink : covered ≠ [])
    (hits : matcher none (covered ++ rest) = some (value, covered.length)) :
    fragments matcher none (covered ++ rest)
      = .hit value covered :: fragments matcher none rest := by
  rw [fragments_of_hit ink hits, blind.fragments _ none]

/-! ### Replacing hits -/

variable (replace : α → Text → Text)

@[simp] theorem rewriteFragments_nil : rewriteFragments replace [] = [] := rfl

@[simp] theorem rewriteFragments_plain (c : Char) (parts : List (Fragment α)) :
    rewriteFragments replace (.plain c :: parts) = c :: rewriteFragments replace parts := rfl

@[simp] theorem rewriteFragments_hit (value : α) (covered : Text) (parts : List (Fragment α)) :
    rewriteFragments replace (.hit value covered :: parts)
      = replace value covered ++ rewriteFragments replace parts := rfl

theorem rewriteFragments_append (first second : List (Fragment α)) :
    rewriteFragments replace (first ++ second)
      = rewriteFragments replace first ++ rewriteFragments replace second := by
  simp [rewriteFragments]

theorem rewriteFragments_map_plain (text : Text) (parts : List (Fragment α)) :
    rewriteFragments replace (text.map .plain ++ parts)
      = text ++ rewriteFragments replace parts := by
  induction text with
  | nil => rfl
  | cons c rest ih => simp [ih]

@[simp] theorem rewrite_nil : rewrite matcher replace [] = [] := by
  simp [rewrite, fragments]

theorem rewrite_append_of_none (blind : Blind matcher) {first : Text} (second : Text)
    (misses : ∀ suffix, suffix ≠ [] → suffix <:+ first →
      matcher none (suffix ++ second) = none) :
    rewrite matcher replace (first ++ second) = first ++ rewrite matcher replace second := by
  rw [rewrite, fragments_append_of_none blind second misses, rewriteFragments_map_plain]
  rfl

theorem rewrite_concat_of_none (blind : Blind matcher) {first : Text} {c : Char} (second : Text)
    (misses : ∀ before, before <:+ first → matcher none (before ++ c :: second) = none) :
    rewrite matcher replace (first ++ c :: second)
      = first ++ c :: rewrite matcher replace second := by
  rw [rewrite, fragments_concat_of_none blind second misses, rewriteFragments_map_plain,
    List.append_assoc]
  rfl

theorem rewrite_of_match (blind : Blind matcher) {value : α} {covered : Text} (rest : Text)
    (ink : covered ≠ [])
    (hits : matcher none (covered ++ rest) = some (value, covered.length)) :
    rewrite matcher replace (covered ++ rest)
      = replace value covered ++ rewrite matcher replace rest := by
  rw [rewrite, fragments_of_match blind rest ink hits, rewriteFragments_hit]
  rfl

/-- Where the matcher answers nowhere, nothing changes. -/
theorem rewrite_of_none (blind : Blind matcher) {text : Text}
    (misses : ∀ suffix, suffix ≠ [] → suffix <:+ text → matcher none suffix = none) :
    rewrite matcher replace text = text := by
  have whole := @rewrite_append_of_none _ _ replace blind text []
    (by simpa using misses)
  simpa using whole

/-! ### Gathering hits -/

/-- The values of the hits, in order. -/
def hitValues : List (Fragment α) → List α
  | [] => []
  | .plain _ :: rest => hitValues rest
  | .hit value _ :: rest => value :: hitValues rest

theorem map_placedHits (start : Nat) (parts : List (Fragment α)) :
    (placedHits start parts).map (fun (_, value, _) => value) = hitValues parts := by
  -- Places shift with each part, values do not.
  induction parts generalizing start with
  | nil => rfl
  | cons part rest ih =>
    cases part with
    | plain c => exact ih (start + 1)
    | hit value covered => simp [placedHits, hitValues, ih]

theorem hitValues_append (first second : List (Fragment α)) :
    hitValues (first ++ second) = hitValues first ++ hitValues second := by
  induction first with
  | nil => rfl
  | cons part rest ih => cases part <;> simp [hitValues, ih]

theorem hitValues_map_plain (text : Text) (parts : List (Fragment α)) :
    hitValues (text.map .plain ++ parts) = hitValues parts := by
  induction text with
  | nil => rfl
  | cons c rest ih => exact ih

theorem exists_of_mem_hitValues {parts : List (Fragment α)} {value : α}
    (member : value ∈ hitValues parts) : ∃ covered, .hit value covered ∈ parts := by
  induction parts with
  | nil => simp [hitValues] at member
  | cons part rest ih =>
    cases part with
    | plain c =>
      obtain ⟨covered, listed⟩ := ih member
      exact ⟨covered, List.mem_cons_of_mem _ listed⟩
    | hit other covered =>
      rcases List.mem_cons.mp member with rfl | later
      · exact ⟨covered, List.mem_cons_self ..⟩
      · obtain ⟨covered, listed⟩ := ih later
        exact ⟨covered, List.mem_cons_of_mem _ listed⟩

/-! ### Places of hits -/

theorem placedHits_append (start : Nat) (first second : List (Fragment α)) :
    placedHits start (first ++ second) = placedHits start first
      ++ placedHits (start + (first.flatMap Fragment.text).length) second := by
  induction first generalizing start with
  | nil => simp [placedHits]
  | cons part rest ih =>
    cases part with
    | plain c =>
      simp [placedHits, ih, Fragment.text, Nat.add_assoc, Nat.add_comm 1]
    | hit value covered =>
      simp [placedHits, ih, Fragment.text, Nat.add_assoc]

theorem placedHits_plain_append (start : Nat) (text : Text) (parts : List (Fragment α)) :
    placedHits start (text.map .plain ++ parts) = placedHits (start + text.length) parts := by
  induction text generalizing start with
  | nil => rfl
  | cons c rest ih =>
    rw [List.length_cons, Nat.add_comm rest.length, ← Nat.add_assoc]
    exact ih (start + 1)

/-- Where a hit stands, and what it covers there. -/
theorem exists_of_mem_placedHits {start place : Nat} {value : α} {covered : Text}
    {before : Option Char} {text : Text}
    (listed : (place, value, covered) ∈ placedHits start (fragments matcher before text)) :
    ∃ front rest size, text = front ++ rest ∧ place = start + front.length ∧
      matcher (front.getLast?.or before) rest = some (value, size) ∧
      covered = rest.take (size - 1 + 1) := by
  revert start
  fun_induction fragments matcher before text with
  | case1 => simp [placedHits]
  | case2 before c rest _ ih =>
    intro start listed
    obtain ⟨front, rest, size, rfl, rfl, found, covers⟩ := ih listed
    refine ⟨c :: front, rest, size, rfl, by simp [Nat.add_assoc, Nat.add_comm 1], ?_, covers⟩
    rwa [getLast?_cons_or]
  | case3 before c rest first size answers inner =>
    rename_i ih
    intro start listed
    rcases List.mem_cons.mp listed with same | later
    · simp only [Prod.mk.injEq] at same
      obtain ⟨rfl, rfl, rfl⟩ := same
      exact ⟨[], c :: rest, size, rfl, rfl, answers, rfl⟩
    · obtain ⟨front, back, size', parts, rfl, found, covers⟩ := ih later
      refine ⟨(c :: inner) ++ front, back, size', ?_,
        by simp only [List.length_append]; omega, ?_, covers⟩
      · rw [List.append_assoc, ← parts, List.cons_append, List.take_append_drop]
      · rw [List.getLastD_eq_getLast?] at found
        rw [List.getLast?_append, List.getLast?_cons]
        cases ends : front.getLast? <;> simpa [ends] using found

/-- Where no hit that starts earlier reaches over a place, reading starts anew there. -/
theorem exists_fragments_append {start : Nat} {before : Option Char} {front rest : Text}
    (uncovered : ∀ hit ∈ placedHits start (fragments matcher before (front ++ rest)),
      hit.1 < start + front.length → hit.1 + hit.2.2.length ≤ start + front.length) :
    ∃ parts, fragments matcher before (front ++ rest)
        = parts ++ fragments matcher (front.getLast?.or before) rest ∧
      parts.flatMap Fragment.text = front := by
  -- By the length of the part in front, for a hit takes several characters of it at once.
  induction size : front.length using Nat.strongRecOn generalizing start before front with
  | ind size ih =>
    subst size
    cases front with
    | nil => exact ⟨[], rfl, rfl⟩
    | cons c tail =>
      rw [List.cons_append, fragments] at uncovered ⊢
      rw [getLast?_cons_or]
      cases found : matcher before (c :: (tail ++ rest)) with
      | none =>
        simp only [found] at uncovered ⊢
        have behind : ∀ hit ∈ placedHits (start + 1) (fragments matcher (some c) (tail ++ rest)),
            hit.1 < start + 1 + tail.length →
              hit.1 + hit.2.2.length ≤ start + 1 + tail.length := by
          simpa [placedHits, Nat.add_assoc, Nat.add_comm 1] using uncovered
        obtain ⟨further, parts, text⟩ := ih tail.length (by simp) behind rfl
        exact ⟨.plain c :: further, by rw [parts]; rfl, by rw [List.flatMap_cons, text]; rfl⟩
      | some hit =>
        obtain ⟨value, size⟩ := hit
        simp only [found, placedHits, List.forall_mem_cons] at uncovered ⊢
        obtain ⟨here, later⟩ := uncovered
        -- The hit ends in front of the place, so the part in front starts with what it covers.
        obtain ⟨covers, behind, rfl, taken, dropped⟩ : ∃ covers behind, tail = covers ++ behind ∧
            (tail ++ rest).take (size - 1) = covers ∧
            (tail ++ rest).drop (size - 1) = behind ++ rest := by
          have short := here (by simp)
          have starts : (tail ++ rest).take (size - 1) <+: tail :=
            List.prefix_of_prefix_length_le (List.take_prefix _ _) (List.prefix_append _ _)
              (by simp only [List.length_cons] at short; omega)
          obtain ⟨behind, parts⟩ := starts
          refine ⟨_, behind, parts.symm, rfl, ?_⟩
          have whole := List.take_append_drop (size - 1) (tail ++ rest)
          conv at whole => rhs; rw [← parts, List.append_assoc]
          exact List.append_cancel_left whole
        rw [taken, dropped] at later ⊢
        have place : start + (c :: (covers ++ behind)).length
            = start + (c :: covers).length + behind.length := by
          simp only [List.length_cons, List.length_append]
          omega
        rw [place] at later
        have last : (covers ++ behind).getLast?.or (some c)
            = behind.getLast?.or (some (covers.getLastD c)) := by
          rw [List.getLast?_append, List.getLastD_eq_getLast?]
          cases behind.getLast? <;> cases covers.getLast? <;> rfl
        obtain ⟨further, parts, text⟩ :=
          ih behind.length (by simp only [List.length_cons, List.length_append]; omega) later rfl
        exact ⟨.hit value (c :: covers) :: further, by rw [parts, last]; rfl,
          by rw [List.flatMap_cons, text]; rfl⟩

/-- A match that no hit reaches over is a hit. -/
theorem mem_hits_of_uncovered {front rest : Text} {value : α} {size : Nat} (ink : rest ≠ [])
    (found : matcher front.getLast? rest = some (value, size))
    (uncovered : ∀ hit ∈ hits matcher (front ++ rest), hit.1 < front.length →
      hit.1 + hit.2.2.length ≤ front.length) :
    ∃ covered, (front.length, value, covered) ∈ hits matcher (front ++ rest) := by
  obtain ⟨parts, read, text⟩ := @exists_fragments_append _ matcher 0 none front rest
    (by simpa only [Nat.zero_add, hits] using uncovered)
  rw [Option.or_none] at read
  obtain ⟨c, tail, rfl⟩ := List.exists_cons_of_ne_nil ink
  refine ⟨c :: tail.take (size - 1), ?_⟩
  rw [hits, read, placedHits_append, text, Nat.zero_add, fragments]
  simp only [found]
  exact List.mem_append_right _ (List.mem_cons_self ..)

/-- A match that no earlier match reaches over is a hit. -/
theorem exists_mem_hits {front rest : Text} {value : α} {size : Nat} (ink : rest ≠ [])
    (found : matcher front.getLast? rest = some (value, size))
    (uncovered : ∀ start inner, front = start ++ inner → inner ≠ [] → ∀ value size,
      matcher start.getLast? (inner ++ rest) = some (value, size) → size ≤ inner.length) :
    ∃ covered, (front.length, value, covered) ∈ hits matcher (front ++ rest) := by
  apply mem_hits_of_uncovered ink found
  rintro ⟨place, value, covered⟩ listed earlier
  obtain ⟨start, behind, size, parts, rfl, found, rfl⟩ := exists_of_mem_placedHits listed
  simp only [Nat.zero_add, Option.or_none] at earlier found ⊢
  obtain ⟨inner, rfl, rfl⟩ : ∃ inner, front = start ++ inner ∧ behind = inner ++ rest := by
    rcases List.append_eq_append_iff.mp parts with ⟨gap, rfl, rfl⟩ | ⟨gap, rfl, rfl⟩
    · simp only [List.length_append] at earlier
      omega
    · exact ⟨gap, rfl, rfl⟩
  have some : inner ≠ [] := by
    rintro rfl
    simp at earlier
  have covers := uncovered start inner rfl some value size found
  have room := List.length_pos_iff.mpr some
  simp only [List.length_append, List.length_take]
  omega

/-! ### What a fragment is -/

section fragment

variable {before : Option Char} {text : Text}

theorem mem_of_plain {c : Char} (listed : .plain c ∈ fragments matcher before text) : c ∈ text := by
  rw [← flatMap_text_fragments matcher before text]
  exact List.mem_flatMap.mpr ⟨.plain c, listed, List.mem_singleton.mpr rfl⟩

theorem exists_of_hit {value : α} {covered : Text}
    (listed : .hit value covered ∈ fragments matcher before text) :
    ∃ place suffix size, suffix <:+ text ∧ matcher place suffix = some (value, size) ∧
      covered = suffix.take (size - 1 + 1) := by
  fun_induction fragments matcher before text with
  | case1 => simp at listed
  | case2 before c rest _ ih =>
    obtain ⟨place, suffix, size, inside, found, covers⟩ := ih (by simpa using listed)
    exact ⟨place, suffix, size, inside.trans (List.suffix_cons c rest), found, covers⟩
  | case3 before c rest first size answers inner ih =>
    rcases List.mem_cons.mp listed with same | later
    · simp only [Fragment.hit.injEq] at same
      obtain ⟨rfl, rfl⟩ := same
      exact ⟨before, c :: rest, size, List.suffix_refl _, answers, rfl⟩
    · obtain ⟨place, suffix, size', inside, found, covers⟩ := ih later
      refine ⟨place, suffix, size', ?_, found, covers⟩
      exact inside.trans ((List.drop_suffix _ rest).trans (List.suffix_cons c rest))

end fragment

end ThemeCss.Text
