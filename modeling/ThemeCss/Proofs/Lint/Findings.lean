import ThemeCss.Lint.Validate

/-!
# Findings in order

A stable sort by a key is told by two facts: the keys go up, and those elements that share a key
stand as they stood before. No other list has both, so leaving elements out before sorting comes to
the same as leaving them out behind it. Every finding carries the name of the rule that made it, so
ignoring rules leaves out the findings of their names.
-/
namespace ThemeCss.Lint

/-! ### Stable sorting -/

section stable

variable {α : Type} (key : α → Int)

/-- The elements in the order of their keys. -/
def inOrder (elements : List α) : List α :=
  elements.mergeSort fun first second => decide (key first ≤ key second)

theorem sorted_inOrder (elements : List α) :
    (inOrder key elements).Pairwise fun first second => key first ≤ key second := by
  have sorted := @List.pairwise_mergeSort _ (fun first second => decide (key first ≤ key second))
    (fun _ _ _ => by simpa using Int.le_trans) (fun _ _ => by simpa using Int.le_total _ _) elements
  simpa [inOrder] using sorted

/-- Elements that share a key stand as they stood before. -/
theorem filter_key_inOrder (elements : List α) (k : Int) :
    (inOrder key elements).filter (fun element => decide (key element = k))
      = elements.filter fun element => decide (key element = k) := by
  have perm : (inOrder key elements).Perm elements := List.mergeSort_perm _ _
  -- They are in order already, so sorting keeps them as they are among all the others.
  have level : (elements.filter fun element => decide (key element = k)).Pairwise
      fun first second => decide (key first ≤ key second) = true := by
    apply List.pairwise_of_forall_mem_list
    intro first firstListed second secondListed
    have same : key first = k := by simpa using (List.mem_filter.mp firstListed).2
    have again : key second = k := by simpa using (List.mem_filter.mp secondListed).2
    simp [same, again]
  have kept : (elements.filter fun element => decide (key element = k)).Sublist
      (inOrder key elements) :=
    List.sublist_mergeSort (fun _ _ _ => by simpa using Int.le_trans)
      (fun _ _ => by simpa using Int.le_total _ _) level List.filter_sublist
  have among := kept.filter fun element => decide (key element = k)
  rw [List.filter_filter] at among
  simp only [Bool.and_self] at among
  exact (among.eq_of_length (perm.filter _).length_eq.symm).symm

variable {key}

/-- The elements in order are told by their keys and by those that share one. -/
theorem eq_of_filter_key_eq {first second : List α}
    (firstSorted : first.Pairwise fun a b => key a ≤ key b)
    (secondSorted : second.Pairwise fun a b => key a ≤ key b)
    (alike : ∀ k, first.filter (fun a => decide (key a = k))
      = second.filter fun a => decide (key a = k)) : first = second := by
  induction first generalizing second with
  | nil =>
    cases second with
    | nil => rfl
    | cons b second => simpa using alike (key b)
  | cons a first ih =>
    have found : a ∈ second.filter fun b => decide (key b = key a) := by simp [← alike (key a)]
    cases second with
    | nil => cases found
    | cons b second =>
      have listed : b ∈ (a :: first).filter fun a => decide (key a = key b) := by
        simp [alike (key b)]
      rw [List.pairwise_cons] at firstSorted secondSorted
      -- Each head is among the other elements, so neither key is below the other.
      have same : key a = key b := by
        apply Int.le_antisymm
        · rcases List.mem_cons.mp (List.mem_filter.mp listed).1 with rfl | behind
          · exact Int.le_refl _
          · exact firstSorted.1 b behind
        · rcases List.mem_cons.mp (List.mem_filter.mp found).1 with rfl | behind
          · exact Int.le_refl _
          · exact secondSorted.1 a behind
      have heads := alike (key a)
      simp only [same, List.filter_cons, decide_true, if_true, List.cons.injEq] at heads
      obtain ⟨rfl, _⟩ := heads
      have tails : first = second := by
        apply ih firstSorted.2 secondSorted.2
        intro k
        have both := alike k
        simp only [List.filter_cons] at both
        split at both
        · exact (List.cons.inj both).2
        · exact both
      rw [tails]

variable (key)

/-- Leaving elements out and sorting come to the same in either order. -/
theorem filter_inOrder (keeps : α → Bool) (elements : List α) :
    (inOrder key elements).filter keeps = inOrder key (elements.filter keeps) := by
  apply @eq_of_filter_key_eq _ key
  · exact (sorted_inOrder key elements).filter keeps
  · exact sorted_inOrder key _
  · intro k
    rw [filter_key_inOrder, List.filter_filter, List.filter_filter]
    simp only [Bool.and_comm (decide _)]
    rw [← List.filter_filter, filter_key_inOrder, List.filter_filter]

end stable

/-! ### Findings and their rules -/

/-- A finding that carries the name of its rule and a line of the text. -/
structure Attributed (name : Text) (diagnostic : Diagnostic) : Prop where
  rule : diagnostic.rule = name
  line : ∃ line : Nat, 0 < line ∧ diagnostic.line = some (line : Int)

theorem lineAt_pos (text : Text) (place : Nat) : 0 < lineAt text place := Nat.succ_pos _

theorem attributed_checkReferences {text : Text} {diagnostic : Diagnostic}
    (found : diagnostic ∈ checkReferences text) : Attributed unresolvedName diagnostic := by
  obtain ⟨⟨offset, css⟩, _, found⟩ := List.mem_flatMap.mp found
  obtain ⟨⟨place, arguments⟩, _, rfl⟩ := List.mem_map.mp found
  exact ⟨rfl, _, lineAt_pos .., rfl⟩

theorem attributed_checkCustomProperties {text : Text} {diagnostic : Diagnostic}
    (found : diagnostic ∈ checkCustomProperties text) : Attributed declaredName diagnostic := by
  obtain ⟨⟨offset, css⟩, _, found⟩ := List.mem_flatMap.mp found
  obtain ⟨⟨place, name, size⟩, _, rfl⟩ := List.mem_map.mp found
  exact ⟨rfl, _, lineAt_pos .., rfl⟩

theorem attributed_checkBraces {text : Text} {diagnostic : Diagnostic}
    (found : diagnostic ∈ checkBraces text) : Attributed bracesName diagnostic := by
  rcases List.mem_append.mp found with stray | unclosed
  · obtain ⟨place, _, rfl⟩ := List.mem_map.mp stray
    exact ⟨rfl, _, lineAt_pos .., rfl⟩
  · obtain ⟨place, _, rfl⟩ := List.mem_map.mp unclosed
    exact ⟨rfl, _, lineAt_pos .., rfl⟩

/-- Every finding of a built-in rule carries the rule's name and its line. -/
theorem attributed_builtIn {entry : Text × Rule} (listed : entry ∈ builtIn) {text : Text}
    {diagnostic : Diagnostic} (found : diagnostic ∈ entry.2 text) :
    Attributed entry.1 diagnostic := by
  simp only [builtIn, List.mem_cons, List.not_mem_nil, or_false] at listed
  rcases listed with rfl | rfl | rfl
  · exact attributed_checkReferences found
  · exact attributed_checkCustomProperties found
  · exact attributed_checkBraces found

/-- What rules find in a text, one rule after the other. -/
def findings (rules : List (Text × Rule)) (text : Text) : List Diagnostic :=
  rules.flatMap fun entry => entry.2 text

/-- The built-in rules that are not ignored. -/
def heeded (ignored : List Text) : List (Text × Rule) :=
  builtIn.filter fun entry => !ignored.contains entry.1

theorem heeded_nil : heeded [] = builtIn := rfl

theorem validate_eq (text : Text) (ignored : List Text) :
    validate text [] ignored = inOrder Diagnostic.place (findings (heeded ignored) text) := by
  rw [validate, List.append_nil]
  rfl

/-- Leaving rules out leaves out the findings of their names. -/
theorem findings_filter {rules : List (Text × Rule)} {text : Text}
    (signed : ∀ entry ∈ rules, ∀ diagnostic ∈ entry.2 text, diagnostic.rule = entry.1)
    (keeps : Text → Bool) :
    findings (rules.filter fun entry => keeps entry.1) text
      = (findings rules text).filter fun diagnostic => keeps diagnostic.rule := by
  induction rules with
  | nil => rfl
  | cons entry rest ih =>
    rw [List.forall_mem_cons] at signed
    have own : (entry.2 text).filter (fun diagnostic => keeps diagnostic.rule)
        = if keeps entry.1 then entry.2 text else [] := by
      split
      next kept =>
        apply List.filter_eq_self.mpr
        intro diagnostic found
        rw [signed.1 diagnostic found, kept]
      next dropped =>
        apply List.filter_eq_nil_iff.mpr
        intro diagnostic found
        rw [signed.1 diagnostic found]
        exact dropped
    have split : findings (entry :: rest) text = entry.2 text ++ findings rest text := rfl
    rw [split, List.filter_append, own, ← ih signed.2, List.filter_cons]
    split <;> rfl

/-- The findings of rules in a text, line by line: on a line they keep the order of the rules, and
those of one rule the order in which it found them. -/
structure Listed (rules : List (Text × Rule)) (text : Text) (diagnostics : List Diagnostic) :
    Prop where
  located : ∀ diagnostic ∈ diagnostics,
    ∃ line : Nat, 0 < line ∧ diagnostic.line = some (line : Int)
  sorted : diagnostics.Pairwise fun first second => first.place ≤ second.place
  onLine : ∀ line : Int, diagnostics.filter (fun diagnostic => diagnostic.line = some line)
    = rules.flatMap fun entry =>
      (entry.2 text).filter fun diagnostic => diagnostic.line = some line

theorem listed_inOrder {rules : List (Text × Rule)} {text : Text}
    (located : ∀ diagnostic ∈ findings rules text,
      ∃ line : Nat, 0 < line ∧ diagnostic.line = some (line : Int)) :
    Listed rules text (inOrder Diagnostic.place (findings rules text)) where
  located := by
    intro diagnostic listed
    exact located diagnostic ((List.mergeSort_perm _ _).mem_iff.mp listed)
  sorted := sorted_inOrder Diagnostic.place _
  onLine := by
    intro line
    have same : ∀ diagnostic ∈ findings rules text,
        decide (diagnostic.line = some line) = decide (diagnostic.place = line) := by
      intro diagnostic found
      obtain ⟨n, _, known⟩ := located diagnostic found
      simp [Diagnostic.place, known]
    have ordered : ∀ diagnostic ∈ inOrder Diagnostic.place (findings rules text),
        decide (diagnostic.line = some line) = decide (diagnostic.place = line) :=
      fun diagnostic listed => same diagnostic ((List.mergeSort_perm _ _).mem_iff.mp listed)
    rw [List.filter_congr ordered, filter_key_inOrder, ← List.filter_congr same, findings,
      List.filter_flatMap]

theorem listed_validate (text : Text) (ignored : List Text) :
    Listed (heeded ignored) text (validate text [] ignored) := by
  rw [validate_eq]
  apply listed_inOrder
  intro diagnostic found
  obtain ⟨entry, listed, found⟩ := List.mem_flatMap.mp found
  exact (attributed_builtIn (List.mem_filter.mp listed).1 found).line

theorem validate_ignoring (text : Text) (ignored : List Text) :
    validate text [] ignored
      = (validate text [] []).filter fun diagnostic => !ignored.contains diagnostic.rule := by
  have signed : ∀ entry ∈ builtIn, ∀ diagnostic ∈ entry.2 text, diagnostic.rule = entry.1 :=
    fun entry listed diagnostic found => (attributed_builtIn listed found).rule
  rw [validate_eq, validate_eq, filter_inOrder, heeded_nil, heeded]
  exact congrArg _ (findings_filter signed fun name => !ignored.contains name)

/-! ### Refusal -/

theorem isError_iff (diagnostic : Diagnostic) :
    diagnostic.isError = true ↔ diagnostic.severity = .error := by
  rw [Diagnostic.isError, beq_iff_eq]

/-- The errors among findings, in their order. -/
def errorsAmong (diagnostics : List Diagnostic) : List Diagnostic :=
  diagnostics.filter fun diagnostic => diagnostic.severity = .error

theorem errorsAmong_eq_nil_iff (diagnostics : List Diagnostic) : errorsAmong diagnostics = [] ↔
    ∀ diagnostic ∈ diagnostics, diagnostic.severity ≠ .error := by
  simp [errorsAmong]

theorem exists_error_iff (diagnostics : List Diagnostic) :
    (∃ diagnostic ∈ diagnostics, diagnostic.severity = .error) ↔ errorsAmong diagnostics ≠ [] := by
  simp [errorsAmong]

theorem demandClean_eq (text : Text) (extra : List (Text × Rule)) : demandClean text extra
    = if errorsAmong (validate text extra []) = [] then .ok (validate text extra [])
      else .error (errorsAmong (validate text extra [])) := by
  have same : (validate text extra []).filter (·.isError) = errorsAmong (validate text extra []) :=
    List.filter_congr fun diagnostic _ => by simp [← isError_iff]
  simp only [demandClean, same, List.isEmpty_iff]

/-- Ignoring rules leaves out the findings of their names and keeps the others as they stand. What
is found stands line by line, in the order of the rules and then of each rule's findings. A text is
refused exactly if an error is found in it, with the errors in this order, and otherwise comes with
all that is found. -/
theorem validate_ignored (text : Text) :
    (∀ ignored, validate text [] ignored
        = (validate text [] []).filter (fun diagnostic => !ignored.contains diagnostic.rule) ∧
      Listed (heeded ignored) text (validate text [] ignored)) ∧
    (∀ errors, demandClean text [] = .error errors ↔
      (∃ diagnostic ∈ validate text [] [], diagnostic.severity = .error) ∧
        errors = errorsAmong (validate text [] [])) ∧
    (∀ diagnostics, demandClean text [] = .ok diagnostics ↔
      (∀ diagnostic ∈ validate text [] [], diagnostic.severity ≠ .error) ∧
        diagnostics = validate text [] []) := by
  refine ⟨fun ignored => ⟨validate_ignoring text ignored, listed_validate text ignored⟩, ?_, ?_⟩
  · intro errors
    rw [demandClean_eq, exists_error_iff]
    split
    next clean => simp [clean]
    next refused => simp [refused, eq_comm]
  · intro diagnostics
    rw [demandClean_eq, ← errorsAmong_eq_nil_iff]
    split
    next clean => simp [clean, eq_comm]
    next refused => simp [refused]

/-- Text in which the last rule finds something above what the others find on one line. -/
def tangled : Text := r"}".toList ++ '\n' :: r"--a: var(--b) }".toList

theorem findings_tangled : findings builtIn tangled = [unresolved 2 "--b".toList,
    stillDeclared 2 "--a".toList, unexpectedClosing 1, unexpectedClosing 2] := by decide +kernel

theorem validate_tangled : validate tangled [] [] = [unexpectedClosing 1,
    unresolved 2 "--b".toList, stillDeclared 2 "--a".toList, unexpectedClosing 2] := by
  have third : ∀ a b c d : Diagnostic, a.place = 2 → b.place = 2 → c.place = 1 → d.place = 2 →
      inOrder Diagnostic.place [a, b, c, d] = [c, a, b, d] := by
    intro a b c d placeA placeB placeC placeD
    simp [inOrder, List.mergeSort, List.MergeSort.Internal.splitInTwo, placeA, placeB, placeC,
      placeD]
  rw [validate_eq, heeded_nil, findings_tangled]
  exact third _ _ _ _ rfl rfl rfl rfl

theorem validate_ignored_tangled :
    validate tangled [] [declaredName]
        = [unexpectedClosing 1, unresolved 2 "--b".toList, unexpectedClosing 2] ∧
      demandClean tangled [] = .error [unexpectedClosing 1, unexpectedClosing 2] := by
  obtain ⟨ignoring, refusing, _⟩ := validate_ignored tangled
  rw [validate_tangled] at refusing
  constructor
  · rw [(ignoring [declaredName]).1, validate_tangled]
    decide +kernel
  · rw [refusing]
    exact ⟨⟨unexpectedClosing 1, by simp, rfl⟩, by decide +kernel⟩

end ThemeCss.Lint
