import ThemeCss.Lint.Rules
import ThemeCss.Proofs.Scan.Commented
import ThemeCss.Proofs.Variables.Bare
import ThemeCss.Proofs.Variables.Tile
import ThemeCss.Variables.Expand

/-!
# Leftovers behind comments

Expansion drops comments before it looks for references and custom properties; the checks for what
it left over read the text with its comments. A comment hides nothing from them as long as it stands
inside no call word and no name, and a scan that has read it is where it would be without it.
-/
namespace ThemeCss.Text

/-- The blank characters. -/
def blankCodes : List Nat :=
  [9, 10, 11, 12, 13, 28, 29, 30, 31, 32, 0x85, 0xA0, 0x1680, 0x2000, 0x2001, 0x2002, 0x2003,
    0x2004, 0x2005, 0x2006, 0x2007, 0x2008, 0x2009, 0x200A, 0x2028, 0x2029, 0x202F, 0x205F, 0x3000]

theorem mem_blankCodes {c : Char} (blank : isBlank c = true) : c.toNat ∈ blankCodes := by
  simp only [isBlank, Bool.or_eq_true, Bool.and_eq_true, decide_eq_true_eq, beq_iff_eq] at blank
  simp only [blankCodes, List.mem_cons, List.not_mem_nil, or_false]
  omega

/-- No blank is part of a name. -/
theorem isName_of_isBlank {c : Char} (blank : isBlank c = true) : isName c = false := by
  have each : ∀ code ∈ blankCodes, isName (Char.ofNat code) = false := by decide +kernel
  have spelled := each c.toNat (mem_blankCodes blank)
  rwa [Char.ofNat_toNat] at spelled

end ThemeCss.Text

namespace ThemeCss.Lint

open Scan Sheet Variables

theorem regions_of_free {css : Text} (plain : '<' ∉ css) : regions css = [(0, css)] := by
  simp [regions, plain]

/-! ### References -/

/-- A call starts behind `before`, in code. -/
structure CalledAt (text before call : Text) : Prop where
  parts : text = before ++ call
  code : Closed before
  starts : (dropCall? call).isSome = true

theorem isSome_splitCall? {mode : Mode} {before call : Text} (code : mode.after before = .code)
    (starts : (dropCall? call).isSome = true) :
    (splitCall? mode (before ++ call)).isSome = true := by
  induction before generalizing mode with
  | nil =>
    obtain rfl : mode = .code := code
    cases call with
    | nil => cases starts
    | cons c rest => simp [splitCall?, starts]
  | cons c rest ih =>
    rw [List.cons_append, splitCall?]
    split
    · rfl
    · rw [Option.isSome_map]
      exact ih code

theorem hasReference_iff (text : Text) :
    hasReference text = true ↔ ∃ before call, CalledAt text before call := by
  constructor
  · intro called
    obtain ⟨⟨before, call⟩, found⟩ := Option.isSome_iff_exists.mp called
    obtain ⟨parts, starts⟩ := splitCall?_sound found
    exact ⟨before, call, parts, (firstCall_of_splitCall? found).after, starts⟩
  · rintro ⟨before, call, rfl, code, starts⟩
    exact isSome_splitCall? code starts

theorem calls_eq_nil_iff (css : Text) : calls css = [] ↔ hasReference css = false := by
  rw [calls, pieces, hasReference]
  split
  next missing => simp [placeCalls, missing]
  next before call found => split <;> simp [placeCalls, found]

/-- The check reports something exactly when a call stands in code. -/
theorem checkReferences_ne_nil_iff {css : Text} (plain : '<' ∉ css) :
    checkReferences css ≠ [] ↔ ∃ before call, CalledAt css before call := by
  rw [← hasReference_iff, checkReferences, regions_of_free plain]
  simp [calls_eq_nil_iff]

/-! ### Custom properties -/

/-- A custom property that can be told by its name: hyphens, and some word characters or hyphens. -/
def Named (name : Text) : Prop :=
  ∃ letters, name = '-' :: '-' :: letters ∧ letters ≠ [] ∧ ∀ c ∈ letters, Text.isName c = true

theorem Named.isName {name : Text} (named : Named name) : ∀ c ∈ name, Text.isName c = true := by
  obtain ⟨letters, rfl, _, spelled⟩ := named
  simp only [List.forall_mem_cons]
  exact ⟨by decide, by decide, spelled⟩

theorem customMatcher_named {before : Option Char} (apart : before.any Text.isName = false)
    {name blanks : Text} (named : Named name) (blank : Text.Blank blanks) (back : Text) :
    customMatcher before (name ++ (blanks ++ ':' :: back))
      = some (name, name.length + blanks.length + 1) := by
  obtain ⟨letters, rfl, ink, spelled⟩ := named
  obtain ⟨c, rest, stop, other⟩ : ∃ c rest, blanks ++ ':' :: back = c :: rest ∧
      Text.isName c = false := by
    cases blanks with
    | nil => exact ⟨':', back, rfl, by decide⟩
    | cons c rest =>
      exact ⟨c, rest ++ ':' :: back, rfl, Text.isName_of_isBlank (blank c (List.mem_cons_self ..))⟩
  have name : (letters ++ (blanks ++ ':' :: back)).takeWhile Text.isName = letters := by
    rw [stop, Text.takeWhile_stop spelled other]
  have behind : (letters ++ (blanks ++ ':' :: back)).dropWhile Text.isName
      = blanks ++ ':' :: back := by
    rw [stop, Text.dropWhile_stop spelled other]
  have colon : Text.isBlank ':' = false := by decide
  simp only [customMatcher, apart, List.cons_append, name, behind,
    Text.takeWhile_stop blank colon, Text.dropWhile_stop blank colon]
  simp [ink]
  omega

/-- What the matcher covers: a name, blanks and a colon. -/
theorem exists_of_customMatcher {before : Option Char} {text value : Text} {size : Nat}
    (found : customMatcher before text = some (value, size)) :
    ∃ blanks back, Named value ∧ Text.Blank blanks ∧ text = value ++ (blanks ++ ':' :: back) ∧
      size = (value ++ (blanks ++ [':'])).length := by
  simp only [customMatcher] at found
  split at found
  next rest _ =>
    split at found
    next back stop =>
      split at found
      next => simp at found
      next ink =>
        simp only [Option.some.injEq, Prod.mk.injEq] at found
        obtain ⟨rfl, rfl⟩ := found
        refine ⟨(rest.dropWhile Text.isName).takeWhile Text.isBlank, back, ?_, ?_, ?_, ?_⟩
        · refine ⟨rest.takeWhile Text.isName, rfl, by simpa using ink, ?_⟩
          exact fun c member => List.all_eq_true.mp List.all_takeWhile c member
        · exact Text.blank_takeWhile _
        · rw [List.cons_append, List.cons_append, ← stop, List.takeWhile_append_dropWhile,
            List.takeWhile_append_dropWhile]
        · simp only [List.length_append, List.length_cons, List.length_nil]
          omega
    next => simp at found
  next => simp at found

/-- No match reaches over a hyphen that follows no character of a name. -/
theorem customMatcher_uncovered {before : Option Char} {inner rest value : Text} {size : Nat}
    (ink : inner ≠ []) (apart : inner.getLast?.any Text.isName = false)
    (found : customMatcher before (inner ++ '-' :: rest) = some (value, size)) :
    size ≤ inner.length := by
  obtain ⟨blanks, back, named, blank, parts, rfl⟩ := exists_of_customMatcher found
  have hyphenFree : '-' ∉ blanks ++ [':'] := by
    intro member
    rcases List.mem_append.mp member with member | member
    · exact absurd (blank _ member) (by decide)
    · exact absurd member (by decide)
  have whole : inner ++ '-' :: rest = (value ++ (blanks ++ [':'])) ++ back := by simp [parts]
  apply Nat.le_of_not_lt
  intro longer
  -- The hyphen stands in the covered text, so in its name, and so does the character before it.
  obtain ⟨gap, covered, behind⟩ | ⟨gap, covered, _⟩ := List.append_eq_append_iff.mp whole
  · cases gap with
    | nil =>
      rw [covered, List.append_nil] at longer
      exact Nat.lt_irrefl _ longer
    | cons c gap =>
      obtain ⟨rfl, _⟩ := List.cons.inj behind
      rcases List.append_eq_append_iff.mp covered with ⟨more, _, tail⟩ | ⟨more, name, _⟩
      · exact hyphenFree (tail ▸ by simp)
      · have last := named.isName (inner.getLast ink)
          (name ▸ List.mem_append_left _ (List.getLast_mem ink))
        rw [List.getLast?_eq_some_getLast ink, Option.any_some, last] at apart
        cases apart
  · rw [covered, List.length_append] at longer
    omega

/-- A name with a colon behind it, and no character of a name before it, is found. -/
theorem exists_mem_hits_named {front name blanks back : Text} (named : Named name)
    (blank : Text.Blank blanks) (apart : front.getLast?.any Text.isName = false) :
    ∃ covered, (front.length, name, covered)
      ∈ Text.hits customMatcher (front ++ (name ++ (blanks ++ ':' :: back))) := by
  have found := customMatcher_named apart named blank back
  obtain ⟨letters, rfl, _⟩ := named
  apply Text.exists_mem_hits (by simp) found
  rintro start inner rfl ink value size covers
  rw [Text.getLast?_append_of_ne_nil start ink] at apart
  exact customMatcher_uncovered ink apart covers

/-! ### Strings -/

theorem length_outsideStrings (mode : Mode) (text : Text) :
    (outsideStrings mode text).length = text.length := by
  induction text generalizing mode with
  | nil => rfl
  | cons c rest ih => rw [outsideStrings, List.length_cons, ih, List.length_cons]

theorem outsideStrings_append (mode : Mode) (first second : Text) :
    outsideStrings mode (first ++ second)
      = outsideStrings mode first ++ outsideStrings (mode.after first) second := by
  induction first generalizing mode with
  | nil => rfl
  | cons c rest ih => rw [List.cons_append, outsideStrings, outsideStrings, ih]; rfl

/-- What is no quote stands outside strings when none is open before it. -/
theorem outside_at {front back : Text} {c : Char} (plain : Mode.isQuote c = false)
    (outside : (Mode.code.after front).quote = none) :
    (outsideStrings .code (front ++ c :: back)).toArray.getD front.length false = true := by
  have size := length_outsideStrings .code front
  rw [outsideStrings_append, outsideStrings, outside, plain, ← size]
  simp

/-- A custom property outside strings is reported. -/
theorem mem_checkCustomProperties {front name blanks back : Text} (named : Named name)
    (blank : Text.Blank blanks) (apart : front.getLast?.any Text.isName = false)
    (outside : (Mode.code.after front).quote = none)
    (plain : '<' ∉ front ++ (name ++ (blanks ++ ':' :: back))) :
    stillDeclared (lineAt (front ++ (name ++ (blanks ++ ':' :: back))) front.length) name
      ∈ checkCustomProperties (front ++ (name ++ (blanks ++ ':' :: back))) := by
  obtain ⟨covered, hit⟩ := @exists_mem_hits_named front name blanks back named blank apart
  have visible : (outsideStrings .code (front ++ (name ++ (blanks ++ ':' :: back)))).toArray.getD
      front.length false = true := by
    obtain ⟨letters, rfl, _⟩ := named
    exact outside_at (by decide) outside
  simp only [checkCustomProperties, regions_of_free plain, List.flatMap_singleton, Nat.zero_add]
  exact List.mem_map.mpr ⟨_, List.mem_filter.mpr ⟨hit, visible⟩, rfl⟩

/-! ### The place of a declaration -/

/-- A declaration of an innermost block stands behind `before`: the block behind `outer`, the chunk
behind those that come first, the declaration behind the blanks of its chunk. -/
def DeclaredAt (text before : Text) (declaration : Declaration) : Prop :=
  ∃ outer body behind first chunk others,
    text = outer ++ '{' :: (body ++ '}' :: behind) ∧ BraceFree body ∧
      chunksFrom 0 .code body = first ++ chunk :: others ∧
      declaration = Declaration.parse (Text.trim chunk) ∧
      before = outer ++ '{' :: (first.flatMap (· ++ [';']) ++ chunk.takeWhile Text.isBlank)

/-- Every custom property of a text is declared at a place. -/
theorem exists_declaredAt {text : Text} {declaration : Declaration}
    (listed : declaration ∈ customDeclarations text) :
    declaration.isCustom = true ∧ ∃ before, DeclaredAt text before declaration := by
  simp only [customDeclarations, List.mem_flatMap, List.mem_filter, Declaration.parseAll,
    chunks, List.mem_map] at listed
  obtain ⟨body, inner, ⟨_, ⟨⟨chunk, cut, rfl⟩, _⟩, rfl⟩, custom⟩ := listed
  obtain ⟨free, outer, behind, parts⟩ := exists_of_mem_blockBodies inner
  obtain ⟨first, others, split⟩ := List.append_of_mem cut
  exact ⟨custom, _, outer, body, behind, first, chunk, others, parts, free, split, rfl, rfl⟩

/-- A declaration follows a brace, a semicolon or a blank. -/
theorem DeclaredAt.apart {text before : Text} {declaration : Declaration}
    (declared : DeclaredAt text before declaration) :
    before.getLast?.any Text.isName = false := by
  obtain ⟨outer, body, behind, first, chunk, others, _, _, _, _, rfl⟩ := declared
  rw [Text.getLast?_append_of_ne_nil _ (by simp)]
  by_cases blanks : chunk.takeWhile Text.isBlank = []
  · rw [blanks, List.append_nil]
    rcases List.eq_nil_or_concat first with rfl | ⟨before, last, rfl⟩
    · decide
    · rw [List.concat_eq_append, List.flatMap_append, List.flatMap_singleton,
        ← List.append_assoc, ← List.cons_append, List.getLast?_concat]
      decide
  · rw [← List.cons_append, Text.getLast?_append_of_ne_nil _ blanks,
      List.getLast?_eq_some_getLast blanks, Option.any_some]
    exact Text.isName_of_isBlank (Text.blank_takeWhile chunk _ (List.getLast_mem blanks))

/-! ### What comments do not hide -/

/-- What stands behind `before` in the stripped text stands in one piece behind `front` in the text,
and a scan of either comes to it in the same mode. -/
structure Shown (css front before stretch : Text) : Prop where
  parts : ∃ back, css = front ++ (stretch ++ back)
  place : Comment.strip front = before
  mode : Mode.code.after front = Mode.code.after before

/-- Comments hide no reference and no custom property of a style sheet that is shown in spite of
them. -/
theorem leftovers_reported {css : Text} (plain : '<' ∉ css) :
    (∀ front before call, CalledAt (Comment.strip css) before call →
      Shown css front before (call.take 4) → checkReferences css ≠ []) ∧
    (∀ front before blanks declaration, DeclaredAt (Comment.strip css) before declaration →
      Named declaration.property → (Mode.code.after before).quote = none → Text.Blank blanks →
      Shown css front before (declaration.property ++ (blanks ++ [':'])) →
        stillDeclared (lineAt css front.length) declaration.property
          ∈ checkCustomProperties css) := by
  constructor
  · intro front before call called shown
    obtain ⟨back, parts⟩ := shown.parts
    obtain ⟨after, dropped⟩ := Option.isSome_iff_exists.mp called.starts
    obtain ⟨met, spelled, keyword⟩ := Text.exists_isKeyword dropped
    have size : met.length = 4 := Text.isKeyword_length keyword
    rw [spelled, ← size, List.take_left] at parts
    refine (checkReferences_ne_nil_iff plain).mpr ⟨front, met ++ back, parts, ?_, ?_⟩
    · rw [Closed, shown.mode, called.code.after]
    · rw [dropCall?, Text.dropKeyword?_of_isKeyword keyword]
      rfl
  · intro front before blanks declaration declared named outside blank shown
    obtain ⟨back, parts⟩ := shown.parts
    have apart : front.getLast?.any Text.isName = false := by
      rcases Comment.getLast?_strip front with closes | same
      · rw [closes]
        decide
      · rw [same, shown.place]
        exact declared.apart
    rw [List.append_assoc, List.append_assoc, List.singleton_append] at parts
    subst parts
    exact mem_checkCustomProperties named blank apart (by rw [shown.mode, outside]) plain

/-- A custom property and a reference behind a comment with a string in it. -/
def annotated : Text := "/* 'x' */".toList ++ r"p{--x: 1; color: var(--x)}".toList

theorem strip_annotated : Comment.strip annotated = r"p{--x: 1; color: var(--x)}".toList := by
  have isComment : Comment.IsComment "/* 'x' */".toList := ⟨" 'x' ".toList, by decide, by decide⟩
  exact (Comment.strip_commented isComment _).trans (Comment.strip_of_openerFree (by decide))

theorem shown_annotated {before stretch : Text} (back : Text)
    (parts : r"p{--x: 1; color: var(--x)}".toList = before ++ (stretch ++ back)) :
    Shown annotated ("/* 'x' */".toList ++ before) before stretch := by
  have isComment : Comment.IsComment "/* 'x' */".toList := ⟨" 'x' ".toList, by decide, by decide⟩
  have calm : Closed "/* 'x' */".toList := by decide
  have free : Text.holds Comment.opener (before ++ (stretch ++ back)) = false := by
    rw [← parts]
    decide
  have whole : annotated = ("/* 'x' */".toList ++ before) ++ (stretch ++ back) := by
    rw [List.append_assoc, ← parts]
    rfl
  refine ⟨⟨back, whole⟩, ?_, ?_⟩
  · rw [Comment.strip_commented isComment]
    exact Comment.strip_of_openerFree (Text.not_holds_of_part free (List.prefix_append _ _).isInfix)
  · rw [Mode.after_append, calm.after]

theorem leftovers_reported_annotated :
    '<' ∉ annotated ∧ checkReferences annotated ≠ [] ∧
      stillDeclared 1 "--x".toList ∈ checkCustomProperties annotated := by
  have plain : '<' ∉ annotated := by decide
  obtain ⟨references, properties⟩ := leftovers_reported plain
  refine ⟨plain, ?_, ?_⟩
  · have called : CalledAt (Comment.strip annotated) r"p{--x: 1; color: ".toList
        r"var(--x)}".toList := by
      rw [strip_annotated]
      exact ⟨by decide, by decide, by decide⟩
    exact references _ _ _ called (shown_annotated r"--x)}".toList (by decide))
  · have declared : DeclaredAt (Comment.strip annotated) r"p{".toList
        { property := "--x".toList, value := "1".toList } := by
      rw [strip_annotated]
      exact ⟨"p".toList, "--x: 1; color: var(--x)".toList, [], [], "--x: 1".toList,
        [" color: var(--x)".toList], by decide, by decide, by decide, by decide, by decide⟩
    have named : Named "--x".toList := by
      have letter : Text.isName 'x' = true := by decide
      exact ⟨['x'], rfl, by simp, by simpa using letter⟩
    exact properties _ _ [] _ declared named (by decide) (by decide)
      (shown_annotated r" 1; color: var(--x)}".toList (by decide))

end ThemeCss.Lint
