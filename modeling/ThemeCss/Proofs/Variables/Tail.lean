import ThemeCss.Proofs.Variables.Bare
import ThemeCss.Proofs.Variables.Reach
import ThemeCss.Proofs.Variables.Template

/-!
# Text behind the last call

Text without parentheses that starts with a character no call has is left as it is, whatever stands
before it: it neither completes a call nor closes one. So a value is resolved alike with its
importance mark and without it, and a written template without its tail is the written form of a
template again.
-/
namespace ThemeCss.Scan

/-- A bracket without a partner gets none from text without closing brackets. -/
theorem Bracket.split?_append_eq_none {bracket : Bracket} (sound : bracket.Sound) {text tail : Text}
    (missing : bracket.split? text = none) (free : bracket.closer ∉ tail) :
    bracket.split? (text ++ tail) = none := by
  cases found : bracket.split? (text ++ tail) with
  | none => rfl
  | some parts =>
    obtain ⟨inside, after⟩ := parts
    obtain ⟨balanced, closed⟩ := Bracket.balanced_of_split? sound found
    -- The partner stands before the tail, so it was there already.
    rcases List.append_eq_append_iff.mp (Bracket.splitFrom?_sound found) with
      ⟨gap, _, rfl⟩ | ⟨gap, rfl, parts⟩
    · exact absurd (by simp) free
    · cases gap with
      | nil =>
        rw [List.nil_append] at parts
        exact absurd (parts ▸ List.mem_cons_self ..) free
      | cons c behind =>
        obtain ⟨rfl, _⟩ := List.cons.inj parts
        rw [Bracket.split?_of_balanced sound closed balanced] at missing
        simp at missing

/-- What can stand behind a text without becoming part of a call. -/
structure IsTail (tail : Text) : Prop where
  starts : ∃ c rest, tail = c :: rest ∧ Text.breaks callWord c = true
  opener : '(' ∉ tail
  closer : ')' ∉ tail

namespace IsTail

variable {tail : Text} (isTail : IsTail tail)
include isTail

theorem splitCall?_append (mode : Mode) (text : Text) :
    splitCall? mode (text ++ tail)
      = (splitCall? mode text).map fun (before, call) => (before, call ++ tail) := by
  obtain ⟨c, rest, rfl, apart⟩ := isTail.starts
  have unspelled : spellsReference rest = false :=
    spellsReference_of_free fun member => isTail.opener (List.mem_cons_of_mem _ member)
  rw [splitCall?_append_breaks apart, splitCall?_of_unspelled unspelled]
  cases splitCall? mode text <;> rfl

theorem hasReference_append (text : Text) : hasReference (text ++ tail) = hasReference text := by
  rw [hasReference, isTail.splitCall?_append, Option.isSome_map, hasReference]

theorem balanced_of_append {text : Text} (balanced : Bracket.round.Balanced (text ++ tail)) :
    Bracket.round.Balanced text := by
  have free : ∀ c ∈ tail, c ≠ Bracket.round.opener ∧ c ≠ Bracket.round.closer := by
    intro c member
    constructor
    · rintro rfl
      exact isTail.opener member
    · rintro rfl
      exact isTail.closer member
  exact (Bracket.balanced_append_free_iff free).mp balanced

end IsTail

end ThemeCss.Scan

namespace ThemeCss.Variables

open Scan

/-- A tail is resolved to itself behind anything. -/
theorem resolve_append_tail (definitions : Definitions) (resolving : List Text) (text tail : Text)
    (isTail : IsTail tail) :
    resolve definitions resolving (text ++ tail) = resolve definitions resolving text ++ tail := by
  rw [resolve_eq_flatMap, resolve_eq_flatMap]
  -- By the pieces of the text; the tail joins the last of them.
  fun_induction pieces text with
  | case1 text missing =>
    have whole := isTail.splitCall?_append .code text
    rw [missing, Option.map_none] at whole
    rw [pieces_of_none whole]
    simp [resolvePiece]
  | case2 text before call found unclosed =>
    have whole := isTail.splitCall?_append .code text
    have size := (call_length found).2
    have still := Bracket.split?_append_eq_none Bracket.round_sound unclosed isTail.closer
    rw [← List.drop_append_of_le_length size] at still
    rw [found, Option.map_some] at whole
    rw [pieces_of_unclosed whole still]
    simp [resolvePiece]
  | case3 text before call found arguments rest closes ih =>
    have whole := isTail.splitCall?_append .code text
    obtain ⟨head, still⟩ := split?_call_append found closes tail
    rw [found, Option.map_some] at whole
    rw [pieces_of_closed whole still, head]
    simp [ih]

/-! ### Templates cut short -/

theorem splitCall?_eq_none_of_append {mode : Mode} {first second : Text}
    (missing : splitCall? mode (first ++ second) = none) : splitCall? mode first = none := by
  induction first generalizing mode with
  | nil => rfl
  | cons c rest ih =>
    simp only [List.cons_append, splitCall?] at missing ⊢
    split at missing
    next => simp at missing
    next misses =>
      -- A call that starts in the shorter text would start in the longer one too.
      have starts : ¬ (mode.isCode && (dropCall? (c :: rest)).isSome) = true := by
        intro starts
        rw [Bool.and_eq_true] at starts
        obtain ⟨after, found⟩ := Option.isSome_iff_exists.mp starts.2
        obtain ⟨met, parts, keyword⟩ := Text.exists_isKeyword found
        apply misses
        rw [starts.1, dropCall?, ← List.cons_append, parts, List.append_assoc,
          Text.dropKeyword?_of_isKeyword keyword]
        rfl
      rw [if_neg starts, ih (Option.map_eq_none_iff.mp missing)]
      rfl

theorem endsInCallHead_of_append {first second : Text}
    (openEnd : endsInCallHead (first ++ second) = false) : endsInCallHead second = false := by
  induction first with
  | nil => exact openEnd
  | cons c rest ih =>
    simp only [List.cons_append, endsInCallHead, Bool.or_eq_false_iff] at openEnd
    exact ih openEnd.2

theorem eq_nil_of_concat_eq {first second gap : Text} {c : Char}
    (parts : first ++ [c] = second ++ gap) (free : c ∉ gap) : gap = [] := by
  cases gap with
  | nil => rfl
  | cons d rest =>
    have last := congrArg List.getLast? parts
    rw [List.getLast?_concat, Text.getLast?_append_of_ne_nil second (by simp)] at last
    exact absurd (List.mem_of_getLast? last.symm) free

open Template

/-- A written template without a tail is one again, if nothing is left open where it was cut. -/
theorem Template.exists_render_eq {template : Template} (proper : Proper template)
    {plain tail : Text} (parts : render template = plain ++ tail) (closer : ')' ∉ tail)
    (closed : Closed plain) (openEnd : endsInCallHead plain = false) :
    ∃ shorter, Proper shorter ∧ render shorter = plain := by
  induction template generalizing plain with
  | nil =>
    obtain ⟨rfl, _⟩ := List.append_eq_nil_iff.mp parts.symm
    exact ⟨[], .nil, rfl⟩
  | cons part rest ih =>
    -- What is cut off of the rest is cut off behind the part.
    have behind : ∀ {gap}, Closed part.render → Proper [part] → plain = part.render ++ gap →
        render rest = gap ++ tail → ∃ shorter, Proper shorter ∧ render shorter = plain := by
      rintro gap first single rfl parts
      obtain ⟨shorter, still, rfl⟩ := ih proper.tail parts ((closed_append_iff first).mp closed)
        (endsInCallHead_of_append openEnd)
      exact ⟨part :: shorter, single.append still, rfl⟩
    rw [render_cons] at parts
    cases part with
    | text content =>
      obtain ⟨first, _⟩ := proper_text_iff.mp proper
      rcases List.append_eq_append_iff.mp parts with ⟨gap, whole, parts⟩ | ⟨gap, whole, _⟩
      · exact behind first.closed (.text first .nil) whole parts
      · have callFree := first.splitCall?_eq_none
        rw [show content = plain ++ gap from whole] at callFree
        have missing := splitCall?_eq_none_of_append callFree
        have still : Plain plain := ⟨closed, by rw [hasReference, missing]; rfl, openEnd⟩
        exact ⟨[.text plain], .text still .nil, List.append_nil plain⟩
    | reference name fallback =>
      obtain ⟨named, readable, inner, _⟩ := proper.reference_parts
      have single : Proper [.reference name fallback] :=
        proper_reference_iff.mpr ⟨named, readable, inner, .nil⟩
      have first := closed_reference named inner.closed
      rcases List.append_eq_append_iff.mp parts with ⟨gap, whole, parts⟩ | ⟨gap, whole, cut⟩
      · exact behind first single whole parts
      · -- The parenthesis that ends the call is not part of the tail, so nothing is cut off of it.
        rw [cut, List.mem_append, not_or] at closer
        have none := eq_nil_of_concat_eq whole closer.1
        rw [none, List.append_nil] at whole
        exact behind first single (by rw [whole, List.append_nil]) (by rw [cut, none]; rfl)

end ThemeCss.Variables
