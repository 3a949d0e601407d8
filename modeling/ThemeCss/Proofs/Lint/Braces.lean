import ThemeCss.Lint.Rules
import ThemeCss.Proofs.Scan.Commented
import ThemeCss.Proofs.Sheet.Inside

/-!
# Blocks left unread

The reader stops at a brace whose partner it does not find, and what stands behind is left over. The
check for braces looks for the partner too, in another way: it blanks comments where the reader
drops them, it follows strings through selectors where the reader does not, and it counts a brace
behind a backslash where the reader does not. As long as none of this lets a closing brace count for
the check alone, the brace at which the reader stops is never closed for the check either.
-/
namespace ThemeCss.Lint

open Scan

/-! ### Lines -/

/-- Blanking keeps the line breaks where they are. -/
theorem map_newline_blank (text : Text) :
    (Comment.blank text).map (· == '\n') = text.map (· == '\n') := by
  induction text using Comment.comment_induction with
  | nil => rw [Comment.blank_nil]
  | plain c rest bare ih => rw [Comment.blank_cons bare, List.map_cons, List.map_cons, ih]
  | comment comment rest isComment ih =>
    have same : (Comment.gapOf comment).map (· == '\n') = comment.map (· == '\n') := by
      rw [Comment.gapOf, List.map_map]
      apply List.map_congr_left
      intro c _
      by_cases newline : c = '\n' <;> simp [newline]
    rw [Comment.blank_commented isComment, List.map_append, List.map_append, same, ih]

theorem newlines_take (text : Text) (place : Nat) :
    Text.newlines (text.take place) = ((text.map (· == '\n')).take place).count true := by
  rw [← List.map_take, List.count_eq_countP, List.countP_map]
  simp only [Text.newlines, List.count_eq_countP]
  congr 1
  funext c
  simp

/-- A place is on the same line with and without comments. -/
theorem lineAt_blank (text : Text) (place : Nat) :
    lineAt (Comment.blank text) place = lineAt text place := by
  rw [lineAt, newlines_take, map_newline_blank, ← newlines_take, ← lineAt]

/-! ### The braces that count -/

/-- Whether the check counts a character that it reads in this mode. -/
def countsIn (mode : Mode) (c : Char) : Bool := mode.quote.isNone && (c == '{' || c == '}')

/-- The braces of a text that the check counts, from a place and a mode on. -/
def bracesFrom (place : Nat) (mode : Mode) : Text → List (Nat × Char)
  | [] => []
  | c :: rest =>
    let behind := bracesFrom (place + 1) (mode.step c) rest
    if countsIn mode c then (place, c) :: behind else behind

theorem bracesFrom_eq (place : Nat) (mode : Mode) (text : Text) :
    (((text.zip (outsideStrings mode text)).zipIdx place).filter fun ((c, outside), _) =>
        outside && (c == '{' || c == '}')).map (fun ((c, _), place) => (place, c))
      = bracesFrom place mode text := by
  induction text generalizing place mode with
  | nil => rfl
  | cons c rest ih =>
    have same : (mode.quote.isNone && (mode.escaped || !Mode.isQuote c) && (c == '{' || c == '}'))
        = countsIn mode c := by
      by_cases brace : c = '{' ∨ c = '}'
      · rcases brace with rfl | rfl <;> simp [countsIn, Mode.isQuote]
      · have other : (c == '{' || c == '}') = false := by
          rw [← Bool.not_eq_true]
          simpa using brace
        simp [countsIn, other]
    rw [outsideStrings, List.zip_cons_cons, List.zipIdx_cons, List.filter_cons, bracesFrom, ← ih]
    simp only [same]
    split <;> rfl

theorem braces_eq (text : Text) : braces text = bracesFrom 0 .code (Comment.blank text) :=
  bracesFrom_eq 0 .code _

theorem bracesFrom_append (place : Nat) (mode : Mode) (first second : Text) :
    bracesFrom place mode (first ++ second)
      = bracesFrom place mode first
        ++ bracesFrom (place + first.length) (mode.after first) second := by
  induction first generalizing place mode with
  | nil => rfl
  | cons c rest ih =>
    have next : place + 1 + rest.length = place + (c :: rest).length := by
      rw [List.length_cons]
      omega
    rw [List.cons_append, bracesFrom, bracesFrom, ih, next, Mode.after_cons]
    split <;> rfl

/-- The depth behind braces, unless one of them closes what was open before. -/
def level? : Nat → List (Nat × Char) → Option Nat
  | depth, [] => some depth
  | depth, brace :: rest =>
    if brace.2 = '{' then level? (depth + 1) rest
    else match depth with
      | 0 => none
      | below + 1 => level? below rest

theorem level?_opening (depth place : Nat) (rest : List (Nat × Char)) :
    level? depth ((place, '{') :: rest) = level? (depth + 1) rest := by
  simp [level?]

theorem level?_closing (depth place : Nat) (rest : List (Nat × Char)) :
    level? (depth + 1) ((place, '}') :: rest) = level? depth rest := by
  simp [level?]

/-- What is open stays open as long as the depth does not fall below it. -/
theorem mem_opening_of_level? {braces : List (Nat × Char)} {inner outer closing : List Nat}
    {place : Nat} (stays : (level? inner.length braces).isSome) :
    place ∈ (braces.foldl Unmatched.add ⟨closing, inner ++ place :: outer⟩).opening := by
  induction braces generalizing inner closing with
  | nil => simp
  | cons brace rest ih =>
    simp only [level?] at stays
    rw [List.foldl_cons, Unmatched.add]
    split at stays
    next opens =>
      rw [if_pos opens]
      exact @ih (brace.1 :: inner) _ stays
    next opens =>
      rw [if_neg opens]
      cases inner with
      | nil => cases stays
      | cons first inner => exact ih stays

/-! ### Two counts -/

/-- The check counts this character as a closing brace only where the reader does, and as an opening
one wherever the reader does. -/
structure Follows (check reader : Mode) (c : Char) : Prop where
  closing : c = '}' → check.quote = none → reader = .code
  opening : c = '{' → reader = .code → check.quote = none

/-- The check follows the reader at every character of a text that stands outside comments. -/
def FollowsIn (check reader : Mode) (text : Text) : Prop :=
  ∀ first c second, text = first ++ c :: second → Comment.Apart first (c :: second) →
    Follows (check.after (Comment.blank first)) (reader.after (Comment.strip first)) c

namespace FollowsIn

variable {check reader : Mode} {c : Char} {rest : Text}

theorem here (follows : FollowsIn check reader (c :: rest)) : Follows check reader c := by
  simpa using follows [] c rest rfl (Comment.apart_nil _)

theorem cons (bare : Comment.Bare (c :: rest)) (follows : FollowsIn check reader (c :: rest)) :
    FollowsIn (check.step c) (reader.step c) rest := by
  rintro first d second rfl apart
  have short : Comment.Bare (c :: first) := @Comment.Bare.of_append _ (d :: second) bare
  have whole := follows (c :: first) d second rfl (apart.cons bare)
  rwa [Comment.blank_cons short, Comment.strip_cons short] at whole

theorem commented {comment : Text} (isComment : Comment.IsComment comment)
    (follows : FollowsIn check reader (comment ++ rest)) :
    FollowsIn (check.after (Comment.gapOf comment)) reader rest := by
  rintro first d second rfl apart
  have whole := follows (comment ++ first) d second (by simp) (apart.comment isComment)
  rwa [Comment.blank_commented isComment, Comment.strip_commented isComment,
    Mode.after_append] at whole

end FollowsIn

/-! ### The search of the reader, seen by the check -/

section unclosed

variable {depth : Nat} {reader : Mode} {c : Char} {rest : Text}

theorem unclosed_opening (opens : reader.isCode ∧ c = '{')
    (unclosed : Bracket.curly.splitFrom? (depth + 1 : Nat) reader (c :: rest) = none) :
    Bracket.curly.splitFrom? (depth + 1 + 1 : Nat) (reader.step c) rest = none := by
  rwa [@Bracket.splitFrom?_opens .curly _ _ _ _ opens, Option.map_eq_none_iff] at unclosed

theorem unclosed_closing (closes : reader.isCode ∧ c = '}')
    (unclosed : Bracket.curly.splitFrom? (depth + 1 : Nat) reader (c :: rest) = none) :
    ∃ below, depth = below + 1 ∧
      Bracket.curly.splitFrom? (below + 1 : Nat) (reader.step c) rest = none := by
  rw [@Bracket.splitFrom?_closes .curly _ _ _ _ Bracket.curly_sound closes] at unclosed
  cases depth with
  | zero => simp at unclosed
  | succ below => exact ⟨below, rfl, by simpa using unclosed⟩

theorem unclosed_other (opens : ¬(reader.isCode ∧ c = '{')) (closes : ¬(reader.isCode ∧ c = '}'))
    (unclosed : Bracket.curly.splitFrom? (depth + 1 : Nat) reader (c :: rest) = none) :
    Bracket.curly.splitFrom? (depth + 1 : Nat) (reader.step c) rest = none := by
  rwa [@Bracket.splitFrom?_passes .curly _ _ _ _ opens closes, Option.map_eq_none_iff] at unclosed

end unclosed

/-- A stretch without braces does not change the depth. -/
theorem bracesFrom_of_free {text : Text} (free : ∀ c ∈ text, c ≠ '{' ∧ c ≠ '}') (place : Nat)
    (mode : Mode) : bracesFrom place mode text = [] := by
  induction text generalizing place mode with
  | nil => rfl
  | cons c rest ih =>
    simp only [List.forall_mem_cons] at free
    simp [bracesFrom, countsIn, free.1, ih free.2]

/-- What the reader does not find closed stays open for the check, whose depth is no less. -/
theorem stays_open {text : Text} {check reader : Mode} (follows : FollowsIn check reader text)
    {depth counted place : Nat} (deep : depth ≤ counted)
    (unclosed : Bracket.curly.splitFrom? (depth + 1 : Nat) reader (Comment.strip text) = none) :
    (level? counted (bracesFrom place check (Comment.blank text))).isSome := by
  induction text using Comment.comment_induction generalizing check reader depth counted place with
  | nil => simp [bracesFrom, level?]
  | plain c rest bare ih =>
    have behind := follows.cons bare
    rw [Comment.strip_cons bare] at unclosed
    rw [Comment.blank_cons bare, bracesFrom]
    by_cases opens : reader.isCode ∧ c = '{'
    · obtain ⟨code, rfl⟩ := opens
      have counts := follows.here.opening rfl (Mode.isCode_iff.mp code)
      rw [if_pos (by simp [countsIn, counts]), level?_opening]
      exact ih behind (Nat.succ_le_succ deep) (unclosed_opening ⟨code, rfl⟩ unclosed)
    by_cases closes : reader.isCode ∧ c = '}'
    · obtain ⟨code, rfl⟩ := closes
      obtain ⟨below, rfl, shallower⟩ := unclosed_closing ⟨code, rfl⟩ unclosed
      split
      · obtain ⟨less, rfl⟩ := Nat.exists_eq_add_one_of_ne_zero (Nat.ne_zero_of_lt deep)
        rw [level?_closing]
        exact ih behind (Nat.le_of_succ_le_succ deep) shallower
      · exact ih behind (Nat.le_of_succ_le deep) shallower
    -- The reader passes over the character; only an opening brace can count for the check.
    have passed := unclosed_other opens closes unclosed
    split
    next counts =>
      simp only [countsIn, Bool.and_eq_true, Option.isNone_iff_eq_none, Bool.or_eq_true,
        beq_iff_eq] at counts
      obtain ⟨outside, rfl | rfl⟩ := counts
      · rw [level?_opening]
        exact ih behind (Nat.le_succ_of_le deep) passed
      · exact absurd ⟨Mode.isCode_iff.mpr (follows.here.closing rfl outside), rfl⟩ closes
    next => exact ih behind deep passed
  | comment comment rest isComment ih =>
    have free : ∀ c ∈ Comment.gapOf comment, c ≠ '{' ∧ c ≠ '}' := by
      intro c member
      rcases Comment.mem_gapOf member with rfl | rfl <;> decide
    rw [Comment.strip_commented isComment] at unclosed
    rw [Comment.blank_commented isComment, bracesFrom_append, bracesFrom_of_free free,
      List.nil_append]
    exact ih (follows.commented isComment) deep unclosed

/-! ### Where the reader stops -/

/-- The reader comes to the brace between these two parts and finds no partner for it. -/
structure Stops (text front back : Text) : Prop where
  parts : text = front ++ '{' :: back
  apart : Comment.Apart front ('{' :: back)
  met : ∃ before head, Comment.strip front = before ++ head ∧
    Sheet.Meets (Comment.strip text) before head (Comment.strip back)
  unclosed : Bracket.curly.split? (Comment.strip back) = none

theorem exists_stops {text : Text} (unread : (Sheet.parse text).trailing ≠ []) :
    ∃ front back, Stops text front back := by
  apply Classical.byContradiction
  intro never
  apply unread
  refine (Sheet.trailing_eq_nil_iff (Comment.strip text)).mpr ?_
  intro before head opened met unclosed
  have parts : Comment.strip text = (before ++ head) ++ '{' :: opened := by
    rw [met.text_eq, List.append_assoc]
  obtain ⟨front, back, whole, apart, _, stripped, rfl⟩ := Comment.exists_apart parts
  exact never ⟨front, back, whole, apart, ⟨before, head, stripped, met⟩, unclosed⟩

/-- The check counts the brace and follows the reader behind it. -/
def Seen (front back : Text) : Prop :=
  (Mode.code.after (Comment.blank front)).quote = none ∧ FollowsIn .code .code back

/-- Without backslashes the check follows the reader behind the brace, so it only has to see that
brace outside strings. -/
theorem seen_of_backslashFree {front back : Text}
    (frontFree : '\\' ∉ Comment.strip front) (backFree : '\\' ∉ Comment.strip back)
    (outside : (Mode.code.after (Comment.strip front)).quote = none) : Seen front back := by
  refine ⟨by rwa [Comment.after_blank Mode.sound_code rfl frontFree], ?_⟩
  rintro first c second rfl apart
  have free : '\\' ∉ Comment.strip first := by
    rw [apart.strip] at backFree
    exact fun member => backFree (List.mem_append_left _ member)
  -- No backslash is pending, so outside strings is in code.
  have settled := @Mode.escaped_after .code rfl _ free
  rw [Comment.after_blank Mode.sound_code rfl free]
  constructor
  · intro _ counted
    rw [← Mode.isCode_iff, Mode.isCode, counted, settled]
    rfl
  · intro _ code
    rw [code]
    rfl

theorem Stops.mem_checkBraces {text front back : Text} (stops : Stops text front back)
    (seen : Seen front back) :
    neverClosed (lineAt text front.length) ∈ checkBraces text := by
  obtain ⟨outside, follows⟩ := seen
  have brace : Comment.blank ('{' :: back) = '{' :: Comment.blank back :=
    Comment.blank_cons (Comment.bare_cons (by decide) back)
  have blanked : Comment.blank text = Comment.blank front ++ '{' :: Comment.blank back := by
    rw [stops.parts, stops.apart.blank, brace]
  -- A backslash before the brace takes it, and nothing is pending behind it in any case.
  have enters : (Mode.code.after (Comment.blank front)).step '{' = .code := by
    rw [Mode.step_ordinary rfl (by simp [outside]), Mode.settled, outside]
    rfl
  have split : braces text = bracesFrom 0 .code (Comment.blank front) ++
      (front.length, '{') :: bracesFrom (front.length + 1) .code (Comment.blank back) := by
    rw [braces_eq, blanked, bracesFrom_append, Comment.length_blank, Nat.zero_add, bracesFrom,
      if_pos (by simp [countsIn, outside]), enters]
  have stays : (level? 0 (bracesFrom (front.length + 1) .code (Comment.blank back))).isSome :=
    stays_open follows (Nat.le_refl 0) stops.unclosed
  rw [checkBraces, split, List.foldl_append, List.foldl_cons, Unmatched.add, if_pos rfl]
  refine List.mem_append_right _ (List.mem_map.mpr ⟨front.length, ?_, ?_⟩)
  · exact List.mem_reverse.mpr (@mem_opening_of_level? _ [] _ _ _ stays)
  · rw [lineAt_blank]

/-- When text is left over, the check reports the brace at which the reader stops as never closed,
if the check sees that brace and those behind it. -/
theorem neverClosed_of_trailing {text : Text} (unread : (Sheet.parse text).trailing ≠ [])
    (seen : ∀ front back, Stops text front back → Seen front back) :
    ∃ front back, Stops text front back ∧
      neverClosed (lineAt text front.length) ∈ checkBraces text ∧
      (neverClosed (lineAt text front.length)).isError = true := by
  obtain ⟨front, back, stops⟩ := exists_stops unread
  exact ⟨front, back, stops, stops.mem_checkBraces (seen _ _ stops), rfl⟩

/-- A closed rule with a brace in a string, a comment with a brace and an apostrophe, and a rule
without an end. -/
def halfRead : Text :=
  r#"a{b:"}""#.toList ++ '}' :: (r"/* don't { */".toList ++ r"c{d:e".toList)

theorem strip_halfRead :
    Comment.strip halfRead
      = "a".toList ++ '{' ::
        (r#"b:"}""#.toList ++ '}' :: ("c".toList ++ '{' :: "d:e".toList)) := by
  have isComment : Comment.IsComment r"/* don't { */".toList :=
    ⟨r" don't { ".toList, by decide, by decide⟩
  calc Comment.strip halfRead
    _ = r#"a{b:"}""#.toList ++ '}' :: Comment.strip
          (r"/* don't { */".toList ++ r"c{d:e".toList) :=
      Comment.strip_append (by decide) (by decide) (by decide) _
    _ = r#"a{b:"}""#.toList ++ '}' :: r"c{d:e".toList := by
      rw [Comment.strip_commented isComment, Comment.strip_of_openerFree (by decide)]
    _ = _ := by decide

theorem neverClosed_of_trailing_halfRead :
    (Sheet.parse halfRead).trailing ≠ [] ∧ ∃ front back, Stops halfRead front back ∧
      neverClosed (lineAt halfRead front.length) ∈ checkBraces halfRead ∧
      (neverClosed (lineAt halfRead front.length)).isError = true := by
  have closed : Bracket.curly.split?
      (r#"b:"}""#.toList ++ '}' :: ("c".toList ++ '{' :: "d:e".toList))
      = some (r#"b:"}""#.toList, "c".toList ++ '{' :: "d:e".toList) := by decide
  have unread : (Sheet.parse halfRead).trailing ≠ [] := by
    intro done
    have read : (Sheet.readNodes (Comment.strip halfRead)).2 = [] := done
    rw [Sheet.trailing_eq_nil_iff, strip_halfRead] at read
    exact read _ "c".toList "d:e".toList
      (.behindBlock ⟨by decide, by decide⟩ closed (.here ⟨by decide, by decide⟩)) (by decide)
  refine ⟨unread, neverClosed_of_trailing unread ?_⟩
  intro front back stops
  have free : '\\' ∉ Comment.strip front ++ Comment.strip ('{' :: back) := by
    rw [← stops.apart.strip, ← stops.parts, strip_halfRead]
    decide
  rw [Comment.strip_cons (Comment.bare_cons (by decide) back), List.mem_append, not_or,
    List.mem_cons, not_or] at free
  apply seen_of_backslashFree free.1 free.2.2
  obtain ⟨before, head, parts, met⟩ := stops.met
  rw [strip_halfRead] at met
  rw [parts]
  rcases met.cases_head ⟨by decide, by decide⟩ with ⟨rfl, rfl, _⟩ | ⟨_, _, _, found, rfl, met⟩
  · rfl
  · obtain ⟨rfl, rfl⟩ := Prod.mk.inj (Option.some.inj (closed.symm.trans found))
    rcases met.cases_head ⟨by decide, by decide⟩ with ⟨rfl, rfl, _⟩ | ⟨_, _, _, found, _⟩
    · decide
    · have unclosed : Bracket.curly.split? "d:e".toList = none := by decide
      exact absurd (unclosed.symm.trans found) (by simp)

end ThemeCss.Lint
