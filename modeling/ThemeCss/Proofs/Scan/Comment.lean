import ThemeCss.Proofs.Text.Rewrite
import ThemeCss.Proofs.Text.Search
import ThemeCss.Scan.Comment

/-!
# Stripping comments

A text that never opens a comment is its own stripped form, and a comment at the start goes without
a trace in what follows.
-/
namespace ThemeCss.Scan.Comment

def opener : Text := ['/', '*']

def closer : Text := ['*', '/']

theorem holds_opener_cons (c d : Char) (rest : Text) :
    Text.holds opener (c :: d :: rest)
      = ((c == '/' && d == '*') || Text.holds opener (d :: rest)) := by
  by_cases slash : c = '/' <;> by_cases star : d = '*' <;>
    simp [Text.holds, Text.splitAtWord?, opener, Text.dropWord?, slash, star]

/-- A character that is neither a slash nor a star keeps comments on its two sides apart. -/
theorem holds_opener_append {c : Char} (slash : c ≠ '/') (star : c ≠ '*') (first second : Text) :
    Text.holds opener (first ++ c :: second)
      = (Text.holds opener first || Text.holds opener second) := by
  have starts : Text.holds opener (c :: second) = Text.holds opener second := by
    cases second with
    | nil => simp [Text.holds, Text.splitAtWord?, opener, Text.dropWord?, slash]
    | cons d rest => simp [holds_opener_cons, slash]
  -- The induction looks two characters ahead, for the opener may start at the last one of `first`.
  induction first with
  | nil => simpa [Text.holds, Text.splitAtWord?, opener, Text.dropWord?] using starts
  | cons d rest ih =>
    cases rest with
    | nil =>
      rw [List.singleton_append, holds_opener_cons, starts]
      simp [Text.holds, Text.splitAtWord?, opener, Text.dropWord?, star]
    | cons e rest =>
      rw [List.cons_append, List.cons_append, holds_opener_cons, holds_opener_cons,
        ← List.cons_append, ih, Bool.or_assoc]

theorem matcher_blind : Text.Blind matcher := by
  intro before other text
  unfold matcher
  split <;> simp_all

theorem matcher_eq_none {text : Text} (free : Text.startsWith opener text = false) :
    matcher none text = none := by
  unfold matcher
  split
  next rest => simp [Text.startsWith, opener, Text.dropWord?] at free
  next => rfl

theorem strip_of_openerFree {text : Text} (free : Text.holds opener text = false) :
    strip text = text := by
  apply Text.rewrite_of_none _ matcher_blind
  intro suffix _ tail
  apply matcher_eq_none
  -- A comment that starts at a later place would be held by the whole text.
  cases starts : Text.startsWith opener suffix with
  | false => rfl
  | true =>
    obtain ⟨after, dropped⟩ := Option.isSome_iff_exists.mp starts
    have spelled : Text.holds opener suffix = true := by
      rw [Text.dropWord?_eq_some_iff.mp dropped]
      exact Text.holds_append [] after
    rw [Text.holds_of_part tail.isInfix spelled] at free
    exact free

/-- A text that opens no comment stays, if a character that belongs to no opener follows. -/
theorem strip_append {c : Char} (slash : c ≠ '/') (star : c ≠ '*') {first : Text}
    (free : Text.holds opener first = false) (second : Text) :
    strip (first ++ c :: second) = first ++ c :: strip second := by
  apply Text.rewrite_concat_of_none _ matcher_blind
  intro before starts
  apply matcher_eq_none
  have beforeFree : Text.holds opener before = false := Text.not_holds_of_part free starts.isInfix
  -- An opener has two characters: both, one or none of them stand in front of `c`.
  rcases before with _ | ⟨d, _ | ⟨e, before⟩⟩
  · simp [Text.startsWith, opener, Text.dropWord?, slash]
  · simp [Text.startsWith, opener, Text.dropWord?, star]
  · rw [holds_opener_cons, Bool.or_eq_false_iff] at beforeFree
    have other : ¬(d = '/' ∧ e = '*') := by simpa using beforeFree.1
    simpa [Text.startsWith, opener, Text.dropWord?] using other

/-- A comment at the start is dropped whole. -/
theorem strip_comment {body rest : Text}
    (ends : Text.splitAtWord? closer (body ++ closer ++ rest) = some (body, rest)) :
    strip (opener ++ body ++ closer ++ rest) = strip rest := by
  -- The matcher covers both delimiters, four characters more than the body.
  have covers : matcher none (opener ++ body ++ closer ++ rest)
      = some ((), (opener ++ body ++ closer).length) := by
    have size : (opener ++ body ++ closer).length = body.length + 4 := by
      simp only [opener, closer, List.length_append, List.length_cons, List.length_nil]
      omega
    rw [size]
    simp only [opener, closer, List.cons_append, List.nil_append, List.append_assoc] at ends ⊢
    simp [matcher, ends]
  exact Text.rewrite_of_match _ matcher_blind rest (by simp [opener]) covers

end ThemeCss.Scan.Comment
