import ThemeCss.Proofs.Dark.Literal
import ThemeCss.Proofs.Dark.Sealed

/-!
# Converted values

Each pass of a conversion writes literals over neutral parts of the text between sealed parts. So
the value that comes out is the value that went in, repainted.
-/
namespace ThemeCss.Dark

open Colour Scan Theme

/-- What the matcher covers in ordinary text is kept, or it is neutral and a literal is written. -/
def Paints (matcher : Text.Matcher Text) (replace : Text → Text → Except ColourError Text) :
    Prop :=
  ∀ place text value size written, (∀ c ∈ text, isOrdinary c = true) →
    matcher place text = some (value, size) →
      replace value (text.take (size - 1 + 1)) = .ok written →
        written = text.take (size - 1 + 1) ∨
          Neutral (text.take (size - 1 + 1)) ∧ IsLiteral written

theorem paints_hex (tuning : Tuning Float) (role : Role) :
    Paints hexMatcher (convertHexLiteral tuning role) := by
  intro place text digits size written ordinary found converted
  obtain ⟨hexadecimal, covered⟩ := exists_of_hexMatcher found
  have pigments : Pigments digits := fun c member => isPigment_of_isHexDigit (hexadecimal c member)
  rw [covered] at converted ⊢
  unfold convertHexLiteral at converted
  split at converted
  -- A literal that cannot be read stays.
  · left
    exact (Except.ok.inj converted).symm
  · right
    constructor
    · exact neutral_hex pigments.ordinary pigments.unparenthesised
    · obtain ⟨rgb, _, same⟩ := Text.exists_of_bind_ok converted
      rw [← Except.ok.inj same]
      exact isLiteral_hexLiteral rgb hexadecimal

theorem paints_call (tuning : Tuning Float) (role : Role) {name : Text}
    (apart : Text.breaks name '(' = true ∧ Text.breaks name ')' = true)
    (read : Text → Option Painted) : Paints (callMatcher name) (convertCall tuning role read) := by
  intro place text body size written ordinary found converted
  obtain ⟨head, inside, covered, headFree, insideFree⟩ := exists_of_callMatcher apart found
  unfold convertCall at converted
  split at converted
  · left
    exact (Except.ok.inj converted).symm
  · right
    constructor
    · have each : ∀ c ∈ head ++ ('(' :: inside ++ [')']), isOrdinary c = true := by
        intro c member
        rw [← covered] at member
        exact ordinary c (List.mem_of_mem_take member)
      simp only [List.forall_mem_append, List.forall_mem_cons] at each
      rw [covered]
      exact neutral_call each.1 each.2.1.2 headFree insideFree
    · obtain ⟨rgb, _, same⟩ := Text.exists_of_bind_ok converted
      rw [← Except.ok.inj same]
      exact isLiteral_writeCall _

/-- Closed parts repainted one by one. -/
theorem repainted_flatten {olds news : List Text}
    (each : List.Forall₂ (fun old new => Closed old ∧ Repainted .code old new) olds news) :
    Repainted .code olds.flatten news.flatten := by
  induction each with
  | nil => exact .nil .code
  | cons part _ ih =>
    obtain ⟨closed, repainted⟩ := part
    rw [List.flatten_cons, List.flatten_cons]
    apply repainted.append
    rwa [closed.after]

theorem repainted_tryRewrite {matcher : Text.Matcher Text}
    {replace : Text → Text → Except ColourError Text} (paints : Paints matcher replace)
    {text new : Text} (ordinary : ∀ c ∈ text, isOrdinary c = true)
    (rewritten : Text.tryRewrite matcher replace text = .ok new) : Repainted .code text new := by
  obtain ⟨parts, rfl, each⟩ := Text.exists_of_tryRewrite rewritten
  -- Each fragment is kept with its place in the text, which says that it is ordinary.
  have listed := (List.forall₂_and_left (p := (· ∈ Text.fragments matcher none text)) _ _).mpr
    ⟨fun _ member => member, each⟩
  have whole : Repainted .code ((Text.fragments matcher none text).map Text.Fragment.text).flatten
      parts.flatten := by
    apply repainted_flatten
    apply List.forall₂_map_left_iff.mpr
    apply listed.imp
    rintro fragment part ⟨member, answered⟩
    cases fragment with
    | plain c =>
      obtain rfl : [c] = part := Except.ok.inj answered
      have single := ordinary c (Text.mem_of_plain member)
      exact ⟨.cons single closed_nil, .refl .code [c]⟩
    | hit value covered =>
      obtain ⟨place, suffix, size, inside, found, rfl⟩ := Text.exists_of_hit member
      have suffixOrdinary : ∀ c ∈ suffix, isOrdinary c = true := fun c held =>
        ordinary c (inside.subset held)
      have closed : Closed (suffix.take (size - 1 + 1)) :=
        closed_of_ordinary fun c held => suffixOrdinary c (List.mem_of_mem_take held)
      refine ⟨closed, ?_⟩
      rcases paints place suffix value size part suffixOrdinary found answered with
        same | ⟨neutral, isLiteral⟩
      · rw [same]
        exact .refl .code _
      · have single := Repainted.literal neutral isLiteral (.nil .code)
        rwa [List.append_nil, List.append_nil] at single
  rwa [← List.flatMap_def, Text.flatMap_text_fragments] at whole

theorem repainted_convertPlain {tuning : Tuning Float} {role : Role} {text new : Text}
    (ordinary : ∀ c ∈ text, isOrdinary c = true)
    (converted : convertPlain tuning role text = .ok new) : Repainted .code text new := by
  obtain ⟨first, hexed, rest⟩ := Text.exists_of_bind_ok converted
  obtain ⟨second, rgbed, hsled⟩ := Text.exists_of_bind_ok rest
  -- A repainted text is as ordinary as the old one, so the next pass can go over it.
  have one := repainted_tryRewrite (paints_hex tuning role) ordinary hexed
  have two := repainted_tryRewrite (paints_call tuning role ⟨by decide, by decide⟩ parseRgb?)
    (one.ordinary ordinary) rgbed
  have three := repainted_tryRewrite (paints_call tuning role ⟨by decide, by decide⟩ parseHsl?)
    (two.ordinary (one.ordinary ordinary)) hsled
  exact (one.trans two).trans three

/-- A converted value is the old one with its literals repainted. -/
theorem repainted_convertValue {tuning : Tuning Float} {role : Role} {value new : Text}
    (closed : Closed value) (free : '\\' ∉ value)
    (converted : convertValue tuning role value = .ok new) : Repainted .code value new := by
  unfold convertValue at converted
  split at converted
  -- A keyword stays.
  · obtain rfl : value = new := Except.ok.inj converted
    exact .refl .code value
  · obtain ⟨parts, returned, joined⟩ := Text.exists_of_bind_ok converted
    rw [← Except.ok.inj joined]
    have listed := (List.forall₂_and_left (p := (· ∈ segments value)) _ _).mpr
      ⟨fun _ member => member, Text.mapM_ok_iff.mp returned⟩
    have whole : Repainted .code ((segments value).map Segment.text).flatten parts.flatten := by
      apply repainted_flatten
      apply List.forall₂_map_left_iff.mpr
      apply listed.imp
      rintro segment part ⟨member, answered⟩
      have segmentClosed := isClosed_segments closed free segment member
      cases segment with
      | plain content =>
        exact ⟨closed_of_ordinary segmentClosed, repainted_convertPlain segmentClosed answered⟩
      | «sealed» content =>
        obtain rfl : content = part := Except.ok.inj answered
        exact ⟨segmentClosed, .refl .code content⟩
    rwa [← List.flatMap_def, flatMap_text_segments] at whole

end ThemeCss.Dark
