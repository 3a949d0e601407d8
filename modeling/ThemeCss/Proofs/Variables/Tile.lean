import ThemeCss.Proofs.Variables.Collapse

/-!
# Tiles of a text

Any text, well-formed or not, is a row of tiles: rules whose block is innermost, stretches up to a
delimiter that opens no such block, and a last stretch. The passes of expansion go from tile to
tile: each tile is rewritten, kept or found by itself, and what stands behind it is read as if it
started there.
-/
namespace ThemeCss.Variables

open Scan Sheet

/-! ### Cutting a text into tiles -/

theorem exists_of_blockMatcher {c : Char} {rest body : Text} {size : Nat}
    (found : blockMatcher none (c :: rest) = some (body, size)) :
    c = '{' ∧ BraceFree body ∧ ∃ after, rest = body ++ '}' :: after := by
  simp only [blockMatcher] at found
  split at found
  next opens =>
    simp only [Option.some.injEq, Prod.mk.injEq] at found
    obtain ⟨rfl, _⟩ := found
    obtain ⟨after, closes⟩ := List.head?_eq_some_iff.mp opens.2
    refine ⟨opens.1, ?_, after, ?_⟩
    · intro d member
      have passed := List.all_eq_true.mp List.all_takeWhile d member
      simpa using passed
    · rw [← closes, List.takeWhile_append_dropWhile]
  next => simp at found

/-- A text is read tile by tile: a rule whose block is innermost, a stretch up to any other
delimiter, and what stands behind the last delimiter. -/
@[elab_as_elim]
theorem tile_induction {P : Text → Prop}
    (last : ∀ segment, Undelimited segment → P segment)
    (rule : ∀ selector body rest, Undelimited selector → BraceFree body → P rest →
      P (selector ++ '{' :: (body ++ '}' :: rest)))
    (cut : ∀ segment c rest, Undelimited segment → isDelimiter c = true →
      blockMatcher none (c :: rest) = none → P rest → P (segment ++ c :: rest))
    (text : Text) : P text := by
  rcases Text.exists_stop isDelimiter text with free | ⟨segment, c, rest, parts, delimiter, free⟩
  · exact last text free
  · cases found : blockMatcher none (c :: rest) with
    | none =>
      have behind := tile_induction last rule cut rest
      rw [parts]
      exact cut segment c rest free delimiter found behind
    | some hit =>
      obtain ⟨opens, bodyFree, after, closes⟩ := exists_of_blockMatcher found
      have behind := tile_induction last rule cut after
      rw [parts, opens, closes]
      exact rule segment hit.1 after free bodyFree behind
termination_by text.length
decreasing_by
  · simp only [parts, List.length_append, List.length_cons]
    omega
  · simp only [parts, closes, List.length_append, List.length_cons]
    omega

theorem ruleMatcher_stop {segment : Text} (free : Undelimited segment) {c : Char}
    (delimiter : isDelimiter c = true) (before : Option Char) (rest : Text) :
    ruleMatcher before (segment ++ c :: rest)
      = (blockMatcher before (c :: rest)).map fun (body, size) =>
          ((segment, body), segment.length + size) := by
  have stops : (!isDelimiter c) = false := by rw [delimiter]; rfl
  rw [ruleMatcher, Text.dropWhile_stop free.passes stops, Text.takeWhile_stop free.passes stops]

/-! ### Rules -/

theorem fragments_rules_last {segment : Text} (free : Undelimited segment) :
    Text.fragments ruleMatcher none segment = segment.map .plain := by
  have read := passes_ruleMatcher.fragments_tail free.braceFree ends_nil
  have nothing : Text.fragments ruleMatcher none [] = [] := by simp [Text.fragments]
  rwa [nothing, List.append_nil, List.append_nil] at read

theorem fragments_rules_rule {selector body : Text} (free : Undelimited selector)
    (bodyFree : BraceFree body) (rest : Text) :
    Text.fragments ruleMatcher none (selector ++ '{' :: (body ++ '}' :: rest))
      = .hit (selector, body) (Layout.spellBlock selector body)
        :: Text.fragments ruleMatcher none rest := by
  have read := Layout.fragments_rule free bodyFree rest
  simpa [Layout.spellBlock] using read

theorem fragments_rules_cut {segment : Text} (free : Undelimited segment) {c : Char}
    (delimiter : isDelimiter c = true) {rest : Text}
    (misses : blockMatcher none (c :: rest) = none) :
    Text.fragments ruleMatcher none (segment ++ c :: rest)
      = (segment ++ [c]).map .plain ++ Text.fragments ruleMatcher none rest := by
  apply Text.fragments_concat_of_none ruleMatcher_blind
  intro before starts
  have beforeFree : Undelimited before := fun d member => free d (starts.subset member)
  rw [ruleMatcher_stop beforeFree delimiter, misses]
  rfl

section rewrite

variable (replace : Text × Text → Text → Text)

theorem rewrite_rules_last {segment : Text} (free : Undelimited segment) :
    Text.rewrite ruleMatcher replace segment = segment := by
  have left := Text.rewriteFragments_map_plain replace segment []
  rw [List.append_nil] at left
  rw [Text.rewrite, fragments_rules_last free, left, Text.rewriteFragments_nil, List.append_nil]

theorem rewrite_rules_rule {selector body : Text} (free : Undelimited selector)
    (bodyFree : BraceFree body) (rest : Text) :
    Text.rewrite ruleMatcher replace (selector ++ '{' :: (body ++ '}' :: rest))
      = replace (selector, body) (Layout.spellBlock selector body)
        ++ Text.rewrite ruleMatcher replace rest := by
  rw [Text.rewrite, fragments_rules_rule free bodyFree, Text.rewriteFragments_hit]
  rfl

theorem rewrite_rules_cut {segment : Text} (free : Undelimited segment) {c : Char}
    (delimiter : isDelimiter c = true) {rest : Text}
    (misses : blockMatcher none (c :: rest) = none) :
    Text.rewrite ruleMatcher replace (segment ++ c :: rest)
      = segment ++ c :: Text.rewrite ruleMatcher replace rest := by
  rw [Text.rewrite, fragments_rules_cut free delimiter misses, Text.rewriteFragments_map_plain,
    List.append_assoc]
  rfl

end rewrite

/-- The selectors and bodies of the rules, in order. -/
def rules (css : Text) : List (Text × Text) :=
  (Text.hits ruleMatcher css).map fun (_, rule, _) => rule

theorem rules_eq (css : Text) :
    rules css = Text.hitValues (Text.fragments ruleMatcher none css) := Text.map_placedHits 0 _

theorem rules_rule {selector body : Text} (free : Undelimited selector)
    (bodyFree : BraceFree body) (rest : Text) :
    rules (selector ++ '{' :: (body ++ '}' :: rest)) = (selector, body) :: rules rest := by
  rw [rules_eq, rules_eq, fragments_rules_rule free bodyFree]
  rfl

theorem rules_cut {segment : Text} (free : Undelimited segment) {c : Char}
    (delimiter : isDelimiter c = true) {rest : Text}
    (misses : blockMatcher none (c :: rest) = none) :
    rules (segment ++ c :: rest) = rules rest := by
  rw [rules_eq, rules_eq, fragments_rules_cut free delimiter misses, Text.hitValues_map_plain]

/-! ### Stretches -/

/-- How many blocks are open behind a delimiter. A closing brace without a partner closes none. -/
def levelAfter (level : Nat) (c : Char) : Nat :=
  if c = '{' then level + 1 else if c = '}' then level - 1 else level

/-- The stretches between the delimiters of a text, each with the number of blocks open around
it. -/
def stretches (level : Nat) (text : Text) : List (Nat × Text) :=
  ((text.filter isDelimiter).scanl levelAfter level).zip (text.splitOnP isDelimiter)

theorem stretches_ne_nil (level : Nat) (text : Text) : stretches level text ≠ [] := by
  rw [stretches, Ne, List.zip_eq_nil_iff, not_or]
  exact ⟨List.scanl_ne_nil, List.splitOnP_ne_nil _ _⟩

theorem filter_of_undelimited {segment : Text} (free : Undelimited segment) :
    segment.filter isDelimiter = [] := by
  rw [List.filter_eq_nil_iff]
  intro c member
  rw [free c member]
  decide

theorem stretches_last {segment : Text} (free : Undelimited segment) (level : Nat) :
    stretches level segment = [(level, segment)] := by
  rw [stretches, filter_of_undelimited free, List.splitOnP_eq_singleton free]
  simp

theorem stretches_cut {segment : Text} (free : Undelimited segment) {c : Char}
    (delimiter : isDelimiter c = true) (level : Nat) (rest : Text) :
    stretches level (segment ++ c :: rest)
      = (level, segment) :: stretches (levelAfter level c) rest := by
  have cuts : (segment ++ c :: rest).splitOnP isDelimiter = segment :: rest.splitOnP isDelimiter :=
    List.splitOnP_append_cons_of_forall_mem free c delimiter rest
  rw [stretches, cuts, List.filter_append, filter_of_undelimited free, List.nil_append,
    List.filter_cons_of_pos delimiter, List.scanl_cons, List.zip_cons_cons]
  rfl

/-- The stretches between delimiters that no rule takes in. -/
def looseSegments (level : Nat) (css : Text) : List (Nat × Text) :=
  stretches level (Text.rewrite ruleMatcher (fun _ _ => [';']) css)

theorem looseSegments_ne_nil (level : Nat) (css : Text) : looseSegments level css ≠ [] :=
  stretches_ne_nil level _

theorem looseSegments_last {segment : Text} (free : Undelimited segment) (level : Nat) :
    looseSegments level segment = [(level, segment)] := by
  rw [looseSegments, rewrite_rules_last _ free, stretches_last free]

/-- A rule leaves a delimiter in its place. -/
theorem looseSegments_rule {selector body : Text} (free : Undelimited selector)
    (bodyFree : BraceFree body) (level : Nat) (rest : Text) :
    looseSegments level (selector ++ '{' :: (body ++ '}' :: rest))
      = (level, []) :: looseSegments level rest := by
  have nothing : Undelimited [] := List.forall_mem_nil _
  rw [looseSegments, rewrite_rules_rule _ free bodyFree]
  exact stretches_cut nothing (by decide) level _

theorem looseSegments_cut {segment : Text} (free : Undelimited segment) {c : Char}
    (delimiter : isDelimiter c = true) {rest : Text}
    (misses : blockMatcher none (c :: rest) = none) (level : Nat) :
    looseSegments level (segment ++ c :: rest)
      = (level, segment) :: looseSegments (levelAfter level c) rest := by
  rw [looseSegments, rewrite_rules_cut _ free delimiter misses, stretches_cut free delimiter]
  rfl

/-! ### Blocks -/

/-- A block found in a text stands in it, between two braces. -/
theorem exists_of_mem_blockBodies {css body : Text} (member : body ∈ blockBodies css) :
    BraceFree body ∧ ∃ before after, css = before ++ '{' :: (body ++ '}' :: after) := by
  have values : blockBodies css = Text.hitValues (Text.fragments blockMatcher none css) :=
    Text.map_placedHits 0 _
  rw [values] at member
  obtain ⟨covered, listed⟩ := Text.exists_of_mem_hitValues member
  obtain ⟨place, suffix, size, ⟨before, rfl⟩, found, _⟩ := Text.exists_of_hit listed
  rw [passes_blockMatcher.blind place none] at found
  cases suffix with
  | nil => simp [blockMatcher] at found
  | cons c rest =>
    obtain ⟨rfl, free, after, rfl⟩ := exists_of_blockMatcher found
    exact ⟨free, before, after, rfl⟩

/-! ### Empty at-rules -/

theorem dropEmptyAtRules_last {segment : Text} (free : Undelimited segment) :
    dropEmptyAtRules segment = segment := by
  apply Text.rewrite_of_none _ passes_emptyAtRuleMatcher.blind
  intro suffix ink tail
  have misses := passes_emptyAtRuleMatcher.part
    (fun c member => free.braceFree c (tail.subset member)) ink (.inl ends_nil)
  rwa [List.append_nil] at misses

theorem dropEmptyAtRules_rule {selector body : Text} (free : Undelimited selector)
    (bodyFree : BraceFree body) (ink : ¬Text.Blank body) (rest : Text) :
    dropEmptyAtRules (selector ++ '{' :: (body ++ '}' :: rest))
      = selector ++ '{' :: (body ++ '}' :: dropEmptyAtRules rest) := by
  have whole : ∀ behind, selector ++ '{' :: (body ++ '}' :: behind)
      = Layout.spellBlock selector body ++ behind := by simp [Layout.spellBlock]
  rw [dropEmptyAtRules, Text.rewrite, whole, Layout.fragments_ink free bodyFree ink,
    Text.rewriteFragments_map_plain, whole]
  rfl

/-- Without a sign before it or a blank block behind it a delimiter stays. -/
theorem dropEmptyAtRules_cut {segment : Text} (free : Undelimited segment) {c : Char}
    (delimiter : isDelimiter c = true) {rest : Text}
    (misses : '@' ∈ segment → ∀ body size, blockMatcher none (c :: rest) = some (body, size) →
      ¬Text.Blank body) :
    dropEmptyAtRules (segment ++ c :: rest) = segment ++ c :: dropEmptyAtRules rest := by
  have ink : Text.isBlank c = false ∧ c ≠ '@' := by
    simp only [isDelimiter, isBrace, Bool.or_eq_true, beq_iff_eq, or_assoc] at delimiter
    rcases delimiter with rfl | rfl | rfl <;> decide
  apply Text.rewrite_concat_of_none _ passes_emptyAtRuleMatcher.blind
  intro before starts
  have beforeFree : Undelimited before := fun d member => free d (starts.subset member)
  apply emptyAtRuleMatcher_eq_none
  intro after selector body size start found
  obtain ⟨behind, sign, rfl⟩ := exists_sign (.inr (by simpa using ink)) start
  rw [ruleMatcher_stop (beforeFree.behind sign) delimiter, Option.map_eq_some_iff] at found
  obtain ⟨⟨inner, width⟩, block, same⟩ := found
  simp only [Prod.mk.injEq] at same
  rw [← same.1.2]
  have member : '@' ∈ before := Text.mem_of_mem_trimLeft (sign ▸ List.mem_cons_self ..)
  exact misses (starts.subset member) inner width block

/-- What stands in front of the first sign, without the blanks before that. -/
def unsigned (segment : Text) : Text := Text.trimRight (segment.takeWhile (· != '@'))

theorem prefix_unsigned (segment : Text) : unsigned segment <+: segment := by
  obtain ⟨blanks, _, parts⟩ := Text.exists_trimRight_append (segment.takeWhile (· != '@'))
  have inside : unsigned segment <+: segment.takeWhile (· != '@') := ⟨blanks, parts.symm⟩
  exact inside.trans (List.takeWhile_prefix _)

/-- A blank block behind a sign goes, and with it the at-rule from its first sign on. -/
theorem dropEmptyAtRules_blank {segment body : Text} (free : Undelimited segment)
    (sign : '@' ∈ segment) (blank : Text.Blank body) (rest : Text) :
    dropEmptyAtRules (segment ++ '{' :: (body ++ '}' :: rest))
      = unsigned segment ++ dropEmptyAtRules rest := by
  obtain ⟨front, more, parts, absent⟩ := List.eq_append_cons_of_mem sign
  have passes : ∀ c ∈ front, (c != '@') = true := by
    intro c member
    exact bne_iff_ne.mpr fun same => absent (same ▸ member)
  have left : unsigned segment = Text.trimRight front := by
    rw [unsigned, parts, Text.takeWhile_stop passes (by decide)]
  obtain ⟨blanks, blankBefore, trimmed⟩ := Text.exists_trimRight_append front
  have whole : segment = Text.trimRight front ++ (blanks ++ '@' :: more) := by
    rw [parts, ← List.append_assoc, ← trimmed]
  have ruleFree : Undelimited (blanks ++ '@' :: more) :=
    fun c member => free c (by rw [whole]; exact List.mem_append_right _ member)
  have opens : opensAt (blanks ++ '@' :: more) = true := by
    rw [opensAt_blank_append blankBefore]
    rfl
  have hit := Layout.fragments_blank ruleFree opens blank rest
  have text : segment ++ '{' :: (body ++ '}' :: rest)
      = Text.trimRight front ++ (Layout.spellBlock (blanks ++ '@' :: more) body ++ rest) := by
    rw [whole]
    simp [Layout.spellBlock]
  rw [left, dropEmptyAtRules, text,
    Text.rewrite_append_of_none _ passes_emptyAtRuleMatcher.blind, Text.rewrite, hit,
    List.singleton_append, Text.rewriteFragments_hit]
  · rfl
  · -- No match starts in front of the sign, for every start there meets other ink first.
    intro suffix some tail
    apply emptyAtRuleMatcher_eq_none
    intro after selector inner size start _
    have ink : Text.trimLeft suffix ≠ [] := by
      intro none
      obtain ⟨before, starts⟩ := tail
      have last := Text.ends_trimRight front (suffix.getLast some)
      rw [← starts, Text.getLast?_append_of_ne_nil before some,
        List.getLast?_eq_some_getLast some] at last
      rw [Text.blank_of_trimLeft_eq_nil none _ (List.getLast_mem some)] at last
      exact absurd (last rfl) (by decide)
    obtain ⟨behind, first, _⟩ := exists_sign (.inl ink) start
    have member : '@' ∈ suffix := Text.mem_of_mem_trimLeft (first ▸ List.mem_cons_self ..)
    apply absurd _ absent
    rw [trimmed]
    exact List.mem_append_left _ (tail.subset member)

end ThemeCss.Variables
