import ThemeCss.Proofs.Dark.Call
import ThemeCss.Proofs.Text.Attempt

/-!
# Calls written over calls

A pass over the calls of a name writes calls of that name over them and keeps what stands between
them. The calls of another name stay where they are, with their arguments, since no text ends in
both names.
-/
namespace ThemeCss.Dark

open Colour Theme

/-- Calls of the name may be others of the name, with other arguments. -/
inductive Recast (name : Text) : List (Text × Char) → List (Text × Char) → Prop where
  | nil : Recast name [] []
  | keep (pair : Text × Char) {olds news : List (Text × Char)} :
      Recast name olds news → Recast name (pair :: olds) (pair :: news)
  | call (front : Text) {met met' : Text} (inside inside' : Text) {olds news : List (Text × Char)} :
      namesCall name met = true → namesCall name met' = true → Recast name olds news →
        Recast name ((front ++ met, '(') :: (inside, ')') :: olds)
          ((front ++ met', '(') :: (inside', ')') :: news)

theorem exists_of_endsInName {name text : Text} {before : Option Char}
    (ends : endsInName name before text = true) :
    ∃ front met, text = front ++ met ∧ namesCall name met = true := by
  induction text generalizing before with
  | nil => simp [endsInName] at ends
  | cons c rest ih =>
    rw [endsInName, Bool.or_eq_true, Bool.and_eq_true] at ends
    rcases ends with ⟨_, names⟩ | later
    · exact ⟨[], c :: rest, rfl, names⟩
    · obtain ⟨front, met, rfl, names⟩ := ih later
      exact ⟨c :: front, met, rfl, names⟩

/-- The calls of another name stay. -/
theorem Recast.bodies_eq {name other : Text}
    (apart : ∀ front met before, namesCall name met = true →
      endsInName other before (front ++ met) = false)
    {olds news : List (Text × Char)} (recast : Recast name olds news) (opened : Bool) :
    bodies other opened news = bodies other opened olds := by
  induction recast generalizing opened with
  | nil => rfl
  | keep pair _ ih =>
    obtain ⟨stretch, mark⟩ := pair
    simp only [bodies, ih]
  | call front inside inside' old new _ ih =>
    simp [bodies, apart front _ none old, apart front _ none new, ih]

/-- What is written for a call is a call. -/
theorem exists_of_convertCall {tuning : Tuning Float} {role : Role} {read : Text → Option Painted}
    {body covered written : Text}
    (converted : convertCall tuning role read body covered = .ok written) :
    written = covered ∨ ∃ met inside, written = met ++ '(' :: (inside ++ [')']) ∧
      namesCall ['r', 'g', 'b'] met = true ∧ Flat met ∧ Flat inside := by
  unfold convertCall at converted
  split at converted
  · exact .inl (Except.ok.inj converted).symm
  · obtain ⟨rgb, _, same⟩ := Text.exists_of_bind_ok converted
    obtain ⟨met, inside, named, pigments, whole⟩ := exists_writeCall { rgb, alpha := _ }
    rw [whole] at same
    right
    refine ⟨met, inside, (Except.ok.inj same).symm, ?_, ?_, pigments.unparenthesised⟩
    · rcases named with rfl | rfl <;> decide
    · rcases named with rfl | rfl
      · exact Pigments.unparenthesised (by decide)
      · exact Pigments.unparenthesised (by decide)

theorem Laid.exists_recast {tuning : Tuning Float} {role : Role} {read : Text → Option Painted}
    {last : Text} {pairs : List (Text × Char)} {fragments : List (Text.Fragment Text)}
    (laid : Laid ['r', 'g', 'b'] last pairs fragments) (cut : Cut pairs last) {parts : List Text}
    (each : List.Forall₂
      (fun fragment part => fragment.attempt (convertCall tuning role read) = .ok part)
      fragments parts) :
    ∃ news, parts.flatten = paired last news ∧ Cut news last ∧
      Recast ['r', 'g', 'b'] pairs news := by
  induction laid generalizing parts with
  | last =>
    rw [← List.append_nil (last.map _)] at each
    obtain ⟨rest, whole, _ | _⟩ := Text.exists_of_attempts each
    exact ⟨[], by simpa [paired] using whole, cut, .nil⟩
  | @quiet stretch mark rest fragments _ _ ih =>
    obtain ⟨behind, whole, left⟩ := Text.exists_of_attempts each
    obtain ⟨news, same, newCut, recast⟩ := ih cut.tail left
    refine ⟨(stretch, mark) :: news, ?_, ⟨?_, cut.last⟩, .keep _ recast⟩
    · rw [whole, same, paired, List.append_assoc]
      rfl
    · exact List.forall_mem_cons.mpr ⟨cut.pairs _ (List.mem_cons_self ..), newCut.pairs⟩
  | @call front met inside rest fragments names _ _ ih =>
    obtain ⟨behind, whole, _ | @⟨_, part, _, parts, answered, others⟩⟩ :=
      Text.exists_of_attempts each
    obtain ⟨news, same, newCut, recast⟩ := ih cut.tail.tail others
    obtain ⟨flat, _⟩ := cut.pairs _ (List.mem_cons_self ..)
    -- A call stays as it was written, or its name and its arguments are exchanged in their places.
    rcases exists_of_convertCall answered with rfl | ⟨met', inside', rfl, names', flat', flatInside⟩
    · refine ⟨(front ++ met, '(') :: (inside, ')') :: news, ?_, ⟨?_, cut.last⟩,
        .keep _ (.keep _ recast)⟩
      · rw [whole, List.flatten_cons, same, paired, paired]
        simp
      · have first := cut.pairs
        simp only [List.forall_mem_cons] at first ⊢
        exact ⟨first.1, first.2.1, newCut.pairs⟩
    · refine ⟨(front ++ met', '(') :: (inside', ')') :: news, ?_, ⟨?_, cut.last⟩,
        .call front inside inside' names names' recast⟩
      · rw [whole, List.flatten_cons, same, paired, paired]
        simp
      · have joined : Flat (front ++ met') := by
          intro c member
          rcases List.mem_append.mp member with held | held
          · exact flat c (List.mem_append_left met held)
          · exact flat' c held
        simp only [List.forall_mem_cons]
        exact ⟨⟨joined, rfl⟩, ⟨flatInside, rfl⟩, newCut.pairs⟩

/-! ### Calls of different names -/

theorem exists_last_of_isKeyword {word : Text} {letter : Char} {text : Text}
    (keyword : Text.isKeyword (word ++ [letter]) text = true) :
    ∃ front c, text = front ++ [c] ∧ Text.meetsLetter letter c = true := by
  induction word generalizing text with
  | nil =>
    cases text with
    | nil => simp [Text.isKeyword, Text.dropKeyword?] at keyword
    | cons c rest =>
      simp [Text.isKeyword, Text.dropKeyword?] at keyword
      exact ⟨[], c, by rw [keyword.2]; rfl, keyword.1⟩
  | cons first word ih =>
    cases text with
    | nil => simp [Text.isKeyword, Text.dropKeyword?] at keyword
    | cons c rest =>
      simp only [Text.isKeyword, List.cons_append, Text.dropKeyword?] at keyword
      split at keyword
      · obtain ⟨front, d, rfl, meets⟩ := ih keyword
        exact ⟨c :: front, d, rfl, meets⟩
      · simp at keyword

/-- The letters at the ends of names are met by their own two cases only. -/
theorem meetsLetter_unique {letter other c : Char}
    (plain : letter ∈ ['a', 'b', 'l'] ∧ other ∈ ['a', 'b', 'l'])
    (meets : Text.meetsLetter letter c = true) (meets' : Text.meetsLetter other c = true) :
    letter = other := by
  have lower {letter : Char} (plain : letter ∈ ['a', 'b', 'l'])
      (meets : Text.meetsLetter letter c = true) : c.toLower = letter := by
    simp only [List.mem_cons, List.not_mem_nil, or_false] at plain
    rcases plain with rfl | rfl | rfl <;> simpa [Text.meetsLetter] using meets
  rw [← lower plain.1 meets, lower plain.2 meets']

/-- A name ends in its last letter, or in that and one more. -/
theorem exists_last_of_namesCall {word : Text} {letter : Char} {text : Text}
    (names : namesCall (word ++ [letter]) text = true) :
    ∃ c rest, Text.meetsLetter letter c = true ∧
      (text.reverse = c :: rest ∨
        ∃ d, text.reverse = d :: c :: rest ∧ Text.meetsLetter 'a' d = true) := by
  obtain ⟨name, closing, rfl, keyword, none | optional⟩ := exists_of_namesCall names
  · obtain ⟨front, c, rfl, meets⟩ := exists_last_of_isKeyword keyword
    exact ⟨c, front.reverse, meets, .inl (by simp [none])⟩
  · obtain ⟨front, c, rfl, meets⟩ := exists_last_of_isKeyword keyword
    obtain ⟨d, rfl⟩ := List.length_eq_one_iff.mp (Text.isKeyword_length optional)
    refine ⟨c, front.reverse, meets, .inr ⟨d, by simp, ?_⟩⟩
    simpa [Text.isKeyword, Text.dropKeyword?] using optional

/-- No text ends in both names. -/
theorem endsInName_hsl (front met : Text) (before : Option Char)
    (names : namesCall ['r', 'g', 'b'] met = true) :
    endsInName ['h', 's', 'l'] before (front ++ met) = false := by
  rw [Bool.eq_false_iff]
  intro ends
  obtain ⟨other, met', whole, names'⟩ := exists_of_endsInName ends
  obtain ⟨c, rest, meets, last⟩ := @exists_last_of_namesCall ['r', 'g'] 'b' met names
  obtain ⟨c', rest', meets', last'⟩ := @exists_last_of_namesCall ['h', 's'] 'l' met' names'
  have clash {letter other c : Char} (plain : letter ∈ ['a', 'b', 'l'] ∧ other ∈ ['a', 'b', 'l'])
      (different : letter ≠ other) (meets : Text.meetsLetter letter c = true)
      (meets' : Text.meetsLetter other c = true) : False :=
    different (meetsLetter_unique plain meets meets')
  have backwards := congrArg List.reverse whole
  simp only [List.reverse_append] at backwards
  rcases last with same | ⟨d, same, closing⟩
  · rcases last' with same' | ⟨d', same', closing'⟩
    · obtain ⟨rfl, _⟩ : c = c' ∧ _ := by simpa [same, same'] using backwards
      exact clash (by decide) (by decide) meets meets'
    · obtain ⟨rfl, _⟩ : c = d' ∧ _ := by simpa [same, same'] using backwards
      exact clash (by decide) (by decide) meets closing'
  · rcases last' with same' | ⟨d', same', closing'⟩
    · obtain ⟨rfl, _⟩ : d = c' ∧ _ := by simpa [same, same'] using backwards
      exact clash (by decide) (by decide) closing meets'
    · obtain ⟨_, rfl, _⟩ : d = d' ∧ c = c' ∧ _ := by simpa [same, same'] using backwards
      exact clash (by decide) (by decide) meets meets'

/-- Writing calls of `rgb` leaves the calls of `hsl`. -/
theorem calls_recast {tuning : Tuning Float} {role : Role} {read : Text → Option Painted}
    {text new : Text}
    (converted : Text.tryRewrite rgbMatcher (convertCall tuning role read) text = .ok new) :
    calls ['h', 's', 'l'] new = calls ['h', 's', 'l'] text := by
  obtain ⟨parts, rfl, each⟩ := Text.exists_of_tryRewrite converted
  obtain ⟨pairs, last, cut, rfl⟩ := exists_paired text
  have laid := laid_fragments callName_rgb.apart callName_rgb.ink pairs none cut rfl
  obtain ⟨news, whole, newCut, recast⟩ := laid.exists_recast cut each
  rw [whole, calls_paired callName_hsl newCut, calls_paired callName_hsl cut]
  exact recast.bodies_eq endsInName_hsl false

end ThemeCss.Dark
