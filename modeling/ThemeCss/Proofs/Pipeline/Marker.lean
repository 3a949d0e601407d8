import Mathlib
import ThemeCss.Pipeline
import ThemeCss.Proofs.Scan.Comment

/-!
# The marker in the pipeline

A converted sheet carries a marker, and a sheet with the marker passes through the converter. The
marker is a comment, though, and expansion comes first: it leaves a sheet alone that spells no
reference and drops the comments of every other. So a second run of the pipeline keeps its input
exactly when no reference is left in it, or when converting it again without comments happens to
give the same sheet.
-/
namespace ThemeCss

open Dark Scan Variables

namespace Dark

/-- Nothing has been converted yet. -/
def Converter.Fresh (converter : Converter) : Prop := converter.cache.entries = []

theorem fresh_standard : Converter.standard.Fresh := rfl

theorem Converter.convert_of_marked {css : Text} (converter : Converter)
    (marked : Text.holds conversionMarker css = true) :
    converter.convert css = (.ok css, converter) := by
  simp [convert, route, marked]

theorem Converter.convert_of_unmarked {converter : Converter} (fresh : converter.Fresh) {css : Text}
    (unmarked : Text.holds conversionMarker css = false) :
    (converter.convert css).1 = convertText converter.tuning css := by
  -- Nothing is cached, so a marker is all that could stop a conversion.
  have missing : converter.cache.get? (Digest.contentKey css) = none := by
    rw [Cache.get?, fresh]
    rfl
  simp only [convert, route, unmarked, missing, Bool.false_eq_true, if_false]
  split
  next failed => rw [failed]
  next converted => rw [converted]

/-- A conversion that succeeds writes the marker and a line break first. -/
theorem exists_of_convertText {tuning : Tuning Float} {css out : Text}
    (converted : convertText tuning css = .ok out) :
    ∃ body, out = conversionMarker ++ '\n' :: body := by
  unfold convertText at converted
  cases sheet : convertSheet tuning (Sheet.parse css) with
  | error cause => simp [sheet, bind, Except.bind] at converted
  | ok dark =>
    simp only [sheet, bind, Except.bind, pure, Except.pure, Except.ok.injEq] at converted
    exact ⟨dark.write, by rw [← converted]; simp⟩

/-- Whatever a converter returns carries the marker. -/
theorem Converter.holds_marker {converter : Converter} (fresh : converter.Fresh) {css out : Text}
    (converted : (converter.convert css).1 = .ok out) :
    Text.holds conversionMarker out = true := by
  cases marked : Text.holds conversionMarker css with
  -- Marked already: passed through, marker and all.
  | true =>
    rw [converter.convert_of_marked marked] at converted
    simp only [Except.ok.injEq] at converted
    rw [← converted, marked]
  -- Converted here: the marker is written first.
  | false =>
    rw [convert_of_unmarked fresh marked] at converted
    obtain ⟨body, rfl⟩ := exists_of_convertText converted
    exact Text.holds_append [] _

end Dark

theorem transform_nil (converter : Converter) (css : Text) :
    transform (some converter) [] css = (converter.convert (expand css)).1 := by
  simp only [transform, darken]
  cases (converter.convert (expand css)).1 <;> rfl

/-- The marker is a comment, so stripping forgets it. -/
theorem strip_marked (body : Text) :
    Comment.strip (conversionMarker ++ body) = Comment.strip body := by
  have ends : Text.splitAtWord? Comment.closer
      (" pressroom-dark-converted ".toList ++ Comment.closer ++ body)
        = some (" pressroom-dark-converted ".toList, body) := rfl
  exact Comment.strip_comment ends

theorem spellsReference_marked (body : Text) :
    spellsReference (conversionMarker ++ '\n' :: body) = spellsReference ('\n' :: body) := rfl

/-- A sheet in which no reference is left is dark for good. -/
theorem transform_of_unspelled {converter : Converter} {out : Text}
    (marked : Text.holds conversionMarker out = true) (unspelled : spellsReference out = false) :
    transform (some converter) [] out = .ok out := by
  rw [transform_nil, expand_of_unspelled unspelled, converter.convert_of_marked marked]

/-- A reference that is left makes the pipeline take a marked sheet for an unmarked one. -/
theorem transform_of_spelled (converter : Converter) {body : Text}
    (spelled : spellsReference (conversionMarker ++ '\n' :: body) = true) :
    transform (some converter) [] (conversionMarker ++ '\n' :: body)
      = transform (some converter) [] ('\n' :: body) := by
  -- Both sheets spell the reference, and stripped of comments they are the same sheet.
  rw [transform_nil, transform_nil, expand_of_spelled spelled, strip_marked,
    expand_of_spelled (spellsReference_marked body ▸ spelled)]

/-- A second run of the dark pipeline returns its input exactly when the input spells no reference
or when the sheet without comments converts to it once more. A marked sheet that spells a reference
fares as if it had no marker. -/
theorem transform_transform_iff {converter : Converter} (fresh : converter.Fresh) {css out : Text}
    (first : transform (some converter) [] css = .ok out) :
    (transform (some converter) [] out = .ok out ↔
      spellsReference out = false ∨
        (converter.convert (flatten (Comment.strip out))).1 = .ok out) ∧
    (spellsReference out = true → ∀ body, out = conversionMarker ++ '\n' :: body →
      transform (some converter) [] out = transform (some converter) [] ('\n' :: body)) := by
  have marked : Text.holds conversionMarker out = true := by
    rw [transform_nil] at first
    exact Converter.holds_marker fresh first
  -- The marker decides nothing here: what decides is whether expansion leaves the sheet alone.
  constructor
  · cases spelled : spellsReference out with
    | false => simp [transform_of_unspelled marked spelled]
    | true => simp [transform_nil, expand_of_spelled spelled]
  · rintro spelled body rfl
    exact transform_of_spelled converter spelled

/-- A statement keeps its reference, so its dark form keeps it as well. -/
theorem transform_statement : transform (some Converter.standard) [] "@x var(--y)".toList
    = .ok "/* pressroom-dark-converted */\n@x var(--y);".toList := by
  have unexpanded : expand "@x var(--y)".toList = "@x var(--y)".toList := by cbv
  have read : Sheet.parse "@x var(--y)".toList
      = ⟨[.statement "@x var(--y)".toList], []⟩ := by cbv
  rw [transform_nil, unexpanded, Converter.convert_of_unmarked fresh_standard (by decide),
    convertText, read]
  rfl

theorem transform_transform_statement :
    transform (some Converter.standard) [] "@x var(--y)".toList
      = .ok "/* pressroom-dark-converted */\n@x var(--y);".toList ∧
    transform (some Converter.standard) [] "/* pressroom-dark-converted */\n@x var(--y);".toList
      = transform (some Converter.standard) [] "\n@x var(--y);".toList :=
  ⟨transform_statement,
    (transform_transform_iff fresh_standard transform_statement).2 (by decide)
      "@x var(--y);".toList rfl⟩

end ThemeCss
