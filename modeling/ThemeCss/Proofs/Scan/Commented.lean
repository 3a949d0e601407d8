import ThemeCss.Proofs.Scan.Closed
import ThemeCss.Proofs.Scan.Comment
import ThemeCss.Proofs.Text.Trim

/-!
# Texts with comments

A text is a row of comments and of characters outside them. Stripping keeps the characters and
blanking all places, so both are followed comment by comment. A cut of the text that no comment
reaches over cuts its stripped and its blanked form as well, and every character of the stripped
text stands behind such a cut.

In place of a comment, blanks leave a scan where it was but for a pending backslash, which they
take. Where the comment is gone, the backslash takes what stood behind it.
-/
namespace ThemeCss

namespace Text

/-- What is found in a text is found in a longer one. -/
theorem splitAtWord?_append {word text before after : Text} (ink : word ≠ [])
    (found : splitAtWord? word text = some (before, after)) (rest : Text) :
    splitAtWord? word (text ++ rest) = some (before, after ++ rest) := by
  induction text generalizing before with
  | nil => simp [splitAtWord?_nil, ink] at found
  | cons c tail ih =>
    simp only [splitAtWord?, List.cons_append] at found ⊢
    cases starts : dropWord? word (c :: tail) with
    | some behind =>
      simp only [starts, Option.some.injEq, Prod.mk.injEq] at found
      obtain ⟨rfl, rfl⟩ := found
      have longer : dropWord? word (c :: (tail ++ rest)) = some (behind ++ rest) := by
        rw [dropWord?_eq_some_iff, ← List.cons_append, dropWord?_eq_some_iff.mp starts,
          List.append_assoc]
      rw [longer]
    | none =>
      simp only [starts, Option.map_eq_some_iff, Prod.mk.injEq] at found
      obtain ⟨⟨head, last⟩, deeper, rfl, rfl⟩ := found
      -- The word stands further behind, so there is no room for it across the seam.
      have misses : dropWord? word (c :: (tail ++ rest)) = none := by
        cases early : dropWord? word (c :: (tail ++ rest)) with
        | none => rfl
        | some behind =>
          have size := splitAtWord?_length deeper
          rw [dropWord?_eq_some_iff, ← List.cons_append] at early
          obtain ⟨gap, parts, _⟩ | ⟨gap, parts, _⟩ := List.append_eq_append_iff.mp early
          · have long := congrArg List.length parts
            simp only [List.length_append, List.length_cons] at long
            omega
          · rw [dropWord?_eq_some_iff.mpr parts] at starts
            cases starts
      rw [misses, ih deeper]
      rfl

/-- What is found in a text is found in the part that ends with it. -/
theorem splitAtWord?_take {word text before after : Text}
    (found : splitAtWord? word text = some (before, after)) :
    splitAtWord? word (before ++ word) = some (before, []) := by
  induction text generalizing before with
  | nil =>
    simp only [splitAtWord?, Option.map_eq_some_iff, Prod.mk.injEq] at found
    obtain ⟨_, starts, rfl, _⟩ := found
    have none := (List.append_eq_nil_iff.mp (dropWord?_eq_some_iff.mp starts).symm).1
    subst none
    rfl
  | cons c tail ih =>
    simp only [splitAtWord?] at found
    cases starts : dropWord? word (c :: tail) with
    | some behind =>
      simp only [starts, Option.some.injEq, Prod.mk.injEq] at found
      obtain ⟨rfl, rfl⟩ := found
      have whole : dropWord? word word = some [] := dropWord?_eq_some_iff.mpr (by simp)
      cases word with
      | nil => rfl
      | cons letter more => simp [splitAtWord?, whole]
    | none =>
      simp only [starts, Option.map_eq_some_iff, Prod.mk.injEq] at found
      obtain ⟨⟨head, last⟩, deeper, rfl, rfl⟩ := found
      -- A word that started here in the part would start here in the text.
      have misses : dropWord? word (c :: (head ++ word)) = none := by
        cases early : dropWord? word (c :: (head ++ word)) with
        | none => rfl
        | some behind =>
          have longer : c :: tail = word ++ (behind ++ last) := by
            rw [splitAtWord?_sound deeper, ← List.append_assoc, ← dropWord?_eq_some_iff.mp early]
            rfl
          rw [dropWord?_eq_some_iff.mpr longer] at starts
          cases starts
      simp only [List.cons_append, splitAtWord?, misses, ih deeper]
      rfl

end Text

namespace Scan.Comment

open Text

/-- From an opener to the nearest closer behind it. -/
def IsComment (comment : Text) : Prop :=
  ∃ body, comment = opener ++ body ++ closer ∧
    splitAtWord? closer (body ++ closer) = some (body, [])

/-- No comment starts where this text does. -/
def Bare (text : Text) : Prop := matcher none text = none

theorem bare_cons {c : Char} (slash : c ≠ '/') (rest : Text) : Bare (c :: rest) := by
  unfold Bare matcher
  split
  next parts => exact absurd (List.cons.inj parts).1 slash
  next => rfl

theorem IsComment.ne_nil {comment : Text} (isComment : IsComment comment) : comment ≠ [] := by
  obtain ⟨body, rfl, _⟩ := isComment
  simp [opener]

theorem IsComment.matcher {comment : Text} (isComment : IsComment comment) (rest : Text) :
    matcher none (comment ++ rest) = some ((), comment.length) := by
  obtain ⟨body, rfl, ends⟩ := isComment
  have found : splitAtWord? ['*', '/'] (body ++ closer ++ rest) = some (body, rest) :=
    splitAtWord?_append (by decide) ends rest
  have whole : opener ++ body ++ closer ++ rest = '/' :: '*' :: (body ++ closer ++ rest) := by
    simp [opener]
  have size : (opener ++ body ++ closer).length = body.length + 4 := by
    simp only [opener, closer, List.length_append, List.length_cons, List.length_nil]
    omega
  rw [whole, size, Comment.matcher, found]
  rfl

/-- A text starts with a comment, or its first character stands outside comments. -/
theorem text_cases (text : Text) :
    text = [] ∨ (∃ c rest, text = c :: rest ∧ Bare text) ∨
      ∃ comment rest, IsComment comment ∧ text = comment ++ rest := by
  by_cases bare : Bare text
  · cases text with
    | nil => exact .inl rfl
    | cons c rest => exact .inr (.inl ⟨c, rest, rfl, bare⟩)
  · unfold Bare Comment.matcher at bare
    split at bare
    next rest =>
      cases found : splitAtWord? ['*', '/'] rest with
      | none => simp [found] at bare
      | some parts =>
        obtain ⟨body, after⟩ := parts
        refine .inr (.inr ⟨opener ++ body ++ closer, after, ⟨body, rfl, ?_⟩, ?_⟩)
        · exact splitAtWord?_take found
        · rw [splitAtWord?_sound found]
          simp [opener, closer]
    next => exact absurd rfl bare

/-- A text is read comment by comment, and outside comments character by character. -/
@[elab_as_elim]
theorem comment_induction {P : Text → Prop} (nil : P [])
    (plain : ∀ c rest, Bare (c :: rest) → P rest → P (c :: rest))
    (comment : ∀ comment rest, IsComment comment → P rest → P (comment ++ rest))
    (text : Text) : P text := by
  induction size : text.length using Nat.strongRecOn generalizing text with
  | ind size ih =>
    subst size
    rcases text_cases text with rfl | ⟨c, rest, rfl, bare⟩ | ⟨covered, rest, isComment, rfl⟩
    · exact nil
    · exact plain c rest bare (ih rest.length (by simp) rest rfl)
    · have ink := List.length_pos_iff.mpr isComment.ne_nil
      exact comment covered rest isComment (ih rest.length (by simp; omega) rest rfl)

/-! ### The two forms -/

section forms

variable {c : Char} {rest comment : Text}

theorem strip_cons (bare : Bare (c :: rest)) : strip (c :: rest) = c :: strip rest := by
  rw [strip, rewrite, fragments_cons_of_none matcher_blind bare, rewriteFragments_plain]
  rfl

theorem blank_cons (bare : Bare (c :: rest)) : blank (c :: rest) = c :: blank rest := by
  rw [blank, rewrite, fragments_cons_of_none matcher_blind bare, rewriteFragments_plain]
  rfl

theorem strip_commented (isComment : IsComment comment) (rest : Text) :
    strip (comment ++ rest) = strip rest :=
  rewrite_of_match _ matcher_blind rest isComment.ne_nil (isComment.matcher rest)

/-- What stands in the place of a comment. -/
def gapOf (comment : Text) : Text := comment.map fun c => if c = '\n' then c else ' '

theorem blank_commented (isComment : IsComment comment) (rest : Text) :
    blank (comment ++ rest) = gapOf comment ++ blank rest :=
  rewrite_of_match _ matcher_blind rest isComment.ne_nil (isComment.matcher rest)

theorem mem_gapOf {c : Char} (member : c ∈ gapOf comment) : c = '\n' ∨ c = ' ' := by
  obtain ⟨d, _, rfl⟩ := List.mem_map.mp member
  split
  next newline => exact .inl newline
  next => exact .inr rfl

end forms

@[simp] theorem strip_nil : strip [] = [] := rewrite_nil _

@[simp] theorem blank_nil : blank [] = [] := rewrite_nil _

/-- Blanking keeps every place. -/
theorem length_blank (text : Text) : (blank text).length = text.length := by
  induction text using comment_induction with
  | nil => rw [blank_nil]
  | plain c rest bare ih => simp [blank_cons bare, ih]
  | comment comment rest isComment ih => simp [blank_commented isComment, gapOf, ih]

theorem getLast?_of_isComment {comment : Text} (isComment : IsComment comment) :
    comment.getLast? = some '/' := by
  obtain ⟨body, rfl, _⟩ := isComment
  rw [Text.getLast?_append_of_ne_nil _ (by decide)]
  rfl

/-- A text ends as its stripped form does, or with the end of a comment. -/
theorem getLast?_strip (text : Text) :
    text.getLast? = some '/' ∨ text.getLast? = (strip text).getLast? := by
  induction text using comment_induction with
  | nil => exact .inr (by rw [strip_nil])
  | plain c rest bare ih =>
    rw [strip_cons bare]
    cases rest with
    | nil => exact .inr (by rw [strip_nil])
    | cons d tail =>
      rw [List.getLast?_cons_cons]
      rcases ih with closes | same
      · exact .inl closes
      · refine .inr ?_
        rw [same, List.getLast?_cons, ← same, List.getLast?_eq_some_getLast (by simp)]
        rfl
  | comment comment rest isComment ih =>
    rw [strip_commented isComment]
    cases rest with
    | nil => exact .inl (by rw [List.append_nil, getLast?_of_isComment isComment])
    | cons d tail => rwa [Text.getLast?_append_of_ne_nil _ (by simp)]

/-! ### Cuts -/

/-- No comment reaches over the cut between two texts. -/
def Apart (front back : Text) : Prop :=
  fragments matcher none (front ++ back)
    = fragments matcher none front ++ fragments matcher none back

variable {front back : Text}

theorem Apart.parts (apart : Apart front back) :
    fragments matcher none (front ++ back)
      = fragments matcher none front ++ fragments matcher none back := apart

theorem Apart.strip (apart : Apart front back) :
    strip (front ++ back) = Comment.strip front ++ Comment.strip back := by
  rw [Comment.strip, rewrite, Apart.parts apart, rewriteFragments_append]
  rfl

theorem Apart.blank (apart : Apart front back) :
    blank (front ++ back) = Comment.blank front ++ Comment.blank back := by
  rw [Comment.blank, rewrite, Apart.parts apart, rewriteFragments_append]
  rfl

theorem apart_nil (back : Text) : Apart [] back := by simp [Apart, fragments]

/-- A shorter text has no comment where the longer one has none. -/
theorem Bare.of_append {first second : Text} (bare : Bare (first ++ second)) : Bare first := by
  rcases text_cases first with rfl | ⟨c, rest, rfl, bareFirst⟩ | ⟨comment, rest, isComment, rfl⟩
  · rfl
  · exact bareFirst
  · rw [Bare, List.append_assoc, isComment.matcher] at bare
    cases bare

theorem Apart.cons {c : Char} (bare : Bare (c :: (front ++ back))) (apart : Apart front back) :
    Apart (c :: front) back := by
  have short : Bare (c :: front) := @Bare.of_append _ back bare
  rw [Apart, List.cons_append, fragments_cons_of_none matcher_blind bare,
    fragments_cons_of_none matcher_blind short, apart, List.cons_append]

theorem Apart.comment {comment : Text} (isComment : IsComment comment)
    (apart : Apart front back) : Apart (comment ++ front) back := by
  rw [Apart, List.append_assoc,
    fragments_of_match matcher_blind _ isComment.ne_nil (isComment.matcher _),
    fragments_of_match matcher_blind _ isComment.ne_nil (isComment.matcher _), apart,
    List.cons_append]

/-- Text without a slash closes no comment. -/
theorem Bare.append {c : Char} {first second : Text} (bare : Bare (c :: first))
    (free : '/' ∉ second) : Bare (c :: (first ++ second)) := by
  rcases text_cases (c :: (first ++ second)) with none | ⟨_, _, _, whole⟩ |
    ⟨comment, rest, isComment, parts⟩
  · simp at none
  · exact whole
  · -- The comment ends in a slash, so it ends before the second text starts.
    have last := getLast?_of_isComment isComment
    rw [← List.cons_append] at parts
    rcases List.append_eq_append_iff.mp parts with ⟨gap, rfl, rfl⟩ | ⟨gap, same, _⟩
    · cases gap with
      | nil =>
        rw [List.append_nil] at isComment
        have covered := isComment.matcher []
        rw [List.append_nil, bare] at covered
        cases covered
      | cons d tail =>
        rw [Text.getLast?_append_of_ne_nil _ (by simp)] at last
        have slash := List.mem_of_getLast? last
        exact absurd (List.mem_append_left rest slash) free
    · rw [Bare, same, isComment.matcher] at bare
      cases bare

theorem apart_of_slashFree (free : '/' ∉ back) : Apart front back := by
  induction front using comment_induction with
  | nil => exact apart_nil back
  | plain c rest bare ih => exact ih.cons (bare.append free)
  | comment comment rest isComment ih => exact ih.comment isComment

theorem strip_of_slashFree {text : Text} (free : '/' ∉ text) : strip text = text := by
  induction text with
  | nil => exact strip_nil
  | cons c rest ih =>
    simp only [List.mem_cons, not_or] at free
    rw [strip_cons (bare_cons (Ne.symm free.1) rest), ih free.2]

/-- A character of the stripped text stands in the text, outside comments. -/
theorem exists_apart {text before after : Text} {c : Char}
    (kept : Comment.strip text = before ++ c :: after) :
    ∃ front back, text = front ++ c :: back ∧ Apart front (c :: back) ∧ Bare (c :: back) ∧
      Comment.strip front = before ∧ Comment.strip back = after := by
  induction text using comment_induction generalizing before with
  | nil => simp at kept
  | plain d rest bare ih =>
    rw [strip_cons bare] at kept
    cases before with
    | nil =>
      obtain ⟨rfl, rfl⟩ := List.cons.inj kept
      exact ⟨[], rest, rfl, apart_nil _, bare, strip_nil, rfl⟩
    | cons e before =>
      obtain ⟨rfl, behind⟩ := List.cons.inj kept
      obtain ⟨front, back, rfl, apart, bareBack, rfl, rfl⟩ := ih behind
      exact ⟨d :: front, back, rfl, apart.cons bare, bareBack,
        strip_cons (@Bare.of_append _ (c :: back) bare), rfl⟩
  | comment comment rest isComment ih =>
    rw [strip_commented isComment] at kept
    obtain ⟨front, back, rfl, apart, bareBack, rfl, rfl⟩ := ih kept
    exact ⟨comment ++ front, back, by simp, apart.comment isComment, bareBack,
      strip_commented isComment front, rfl⟩

/-! ### Modes -/

/-- In place of a comment, blanks take a pending backslash and change nothing else. -/
theorem after_gapOf {mode : Mode} (sound : mode.Sound) {comment : Text}
    (isComment : IsComment comment) : mode.after (gapOf comment) = mode.settled := by
  apply sound.after_ordinary
  · intro c member
    rcases mem_gapOf member with rfl | rfl <;> rfl
  · simpa [gapOf] using isComment.ne_nil

end Scan.Comment

namespace Scan.Mode

theorem escaped_step {mode : Mode} (settled : mode.escaped = false) {c : Char} (other : c ≠ '\\') :
    (mode.step c).escaped = false := by
  simp only [step, settled, other, Bool.false_eq_true, if_false]
  split
  · split
    · rfl
    · exact settled
  · split
    · rfl
    · exact settled

/-- Without backslashes none is pending. -/
theorem escaped_after {mode : Mode} (settled : mode.escaped = false) {text : Text}
    (free : '\\' ∉ text) : (mode.after text).escaped = false := by
  induction text generalizing mode with
  | nil => exact settled
  | cons c rest ih =>
    simp only [List.mem_cons, not_or] at free
    exact ih (escaped_step settled (Ne.symm free.1)) free.2

theorem settled_of_not_escaped {mode : Mode} (settled : mode.escaped = false) :
    mode.settled = mode := by
  rw [Mode.settled, ← settled]

end Scan.Mode

namespace Scan.Comment

/-- Without backslashes both forms of a text are read alike. -/
theorem after_blank {mode : Mode} (sound : mode.Sound) (settled : mode.escaped = false)
    {text : Text} (free : '\\' ∉ strip text) :
    mode.after (blank text) = mode.after (strip text) := by
  induction text using comment_induction generalizing mode with
  | nil => simp
  | plain c rest bare ih =>
    rw [strip_cons bare, List.mem_cons, not_or] at free
    rw [blank_cons bare, strip_cons bare]
    exact ih (sound.step c) (Mode.escaped_step settled (Ne.symm free.1)) free.2
  | comment comment rest isComment ih =>
    rw [strip_commented isComment] at free ⊢
    rw [blank_commented isComment, Mode.after_append, after_gapOf sound isComment,
      Mode.settled_of_not_escaped settled]
    exact ih sound settled free

end Scan.Comment
end ThemeCss
