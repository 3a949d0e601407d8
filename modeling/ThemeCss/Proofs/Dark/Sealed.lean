import ThemeCss.Dark.Sealed
import ThemeCss.Proofs.Scan.Balance
import ThemeCss.Proofs.Text.Attempt
import ThemeCss.Proofs.Text.Rewrite
import ThemeCss.Proofs.Text.Keyword

/-!
# Segments of a value

In a closed value without backslashes every segment is closed: a sealed part ends where its string
or its call does, or at the end of the value, and between sealed parts no string starts.
-/
namespace ThemeCss.Dark

open Scan

def Segment.text : Segment → Text
  | .plain content => content
  | .sealed content => content

/-- Closed, and outside sealed parts without quotes and backslashes. -/
def Segment.IsClosed : Segment → Prop
  | .plain content => ∀ c ∈ content, isOrdinary c = true
  | .sealed content => Closed content

/-- The same of the fragments that segments are gathered from. -/
def IsClosedFragment : Text.Fragment Unit → Prop
  | .plain c => isOrdinary c = true
  | .hit _ covered => Closed covered

theorem flatMap_text_gather (parts : List (Text.Fragment Unit)) :
    (gather parts).flatMap Segment.text = parts.flatMap Text.Fragment.text := by
  fun_induction gather parts with
  | case1 => rfl
  | case2 value covered rest ih => simp [Segment.text, Text.Fragment.text, ih]
  | case3 c rest content segments same ih =>
    simp only [same, List.flatMap_cons, Segment.text] at ih
    simp [Segment.text, Text.Fragment.text, ← ih]
  | case4 c rest other ih => simp [Segment.text, Text.Fragment.text, ih]

theorem flatMap_text_segments (value : Text) : (segments value).flatMap Segment.text = value := by
  rw [segments, flatMap_text_gather, Text.flatMap_text_fragments]

theorem isClosed_gather {parts : List (Text.Fragment Unit)}
    (closed : ∀ part ∈ parts, IsClosedFragment part) :
    ∀ segment ∈ gather parts, segment.IsClosed := by
  fun_induction gather parts with
  | case1 => simp
  | case2 value covered rest ih =>
    simp only [List.forall_mem_cons] at closed ⊢
    exact ⟨closed.1, ih closed.2⟩
  | case3 c rest content segments same ih =>
    simp only [List.forall_mem_cons] at closed
    have behind := ih closed.2
    simp only [same, List.forall_mem_cons, Segment.IsClosed] at behind
    simp only [List.forall_mem_cons, Segment.IsClosed]
    exact ⟨⟨closed.1, behind.1⟩, behind.2⟩
  | case4 c rest other ih =>
    simp only [List.forall_mem_cons] at closed ⊢
    constructor
    · intro d member
      rw [List.mem_singleton.mp member]
      exact closed.1
    · exact ih closed.2

/-! ### Sealed parts -/

theorem stringSize_cons {quote c : Char} (plain : c ≠ '\\') (rest : Text) :
    stringSize quote (c :: rest) = if c = quote then 1 else stringSize quote rest + 1 := by
  rw [stringSize]
  · rintro rfl
    exact absurd rfl plain
  · rintro d tail rfl
    exact absurd rfl plain

/-- A string that is closed somewhere is closed where it is taken to end. -/
theorem after_string {quote : Char} {text : Text} (free : '\\' ∉ text)
    (closed : Mode.after ⟨some quote, false⟩ text = .code) :
    Mode.after ⟨some quote, false⟩ (text.take (stringSize quote text)) = .code ∧
      Closed (text.drop (stringSize quote text)) := by
  induction text with
  | nil => simp [Mode.code] at closed
  | cons c rest ih =>
    simp only [List.mem_cons, not_or] at free
    have plain : c ≠ '\\' := fun same => free.1 same.symm
    rw [stringSize_cons plain]
    by_cases ends : c = quote
    · subst ends
      have back : Mode.step ⟨some c, false⟩ c = .code := by simp [Mode.step, plain]
      rw [Mode.after_cons, back] at closed
      simpa [back, Closed] using closed
    · have stays : Mode.step ⟨some quote, false⟩ c = ⟨some quote, false⟩ := by
        simp [Mode.step, plain, ends]
      rw [Mode.after_cons, stays] at closed
      simpa [ends, stays] using ih free.2 closed

/-- The opening of a sealed call has four characters, none of which a scan looks for. -/
theorem exists_of_startsSealedCall {text : Text} (starts : startsSealedCall text = true) :
    ∃ opening rest, text = opening ++ rest ∧ opening.length = 4 ∧
      ∀ c ∈ opening, isOrdinary c = true := by
  simp only [startsSealedCall, List.any_eq_true] at starts
  obtain ⟨word, listed, starts⟩ := starts
  obtain ⟨rest, dropped⟩ := Option.isSome_iff_exists.mp starts
  obtain ⟨met, rfl, keyword⟩ := Text.exists_isKeyword dropped
  have known : ∀ word ∈ sealedFunctions, word.length = 4 ∧
      ['\'', '"', '\\'].all (Text.breaks word) = true := by decide
  obtain ⟨size, apart⟩ := known word listed
  have ordinary := ordinary_of_avoids (Text.avoids_of_isKeyword apart keyword)
  exact ⟨met, rest, rfl, (Text.isKeyword_length keyword).trans size, ordinary⟩

/-- In a closed text a sealed part is closed, and so is what follows it. -/
theorem closed_of_sealedMatcher {before : Option Char} {c : Char} {rest : Text} {size : Nat}
    (closed : Closed (c :: rest)) (free : '\\' ∉ c :: rest)
    (found : sealedMatcher before (c :: rest) = some ((), size)) :
    Closed (c :: rest.take (size - 1)) ∧ Closed (rest.drop (size - 1)) := by
  simp only [List.mem_cons, not_or] at free
  have plain : c ≠ '\\' := fun same => free.1 same.symm
  simp only [sealedMatcher] at found
  split at found
  -- A string.
  next quote =>
    simp only [Option.some.injEq, Prod.mk.injEq, true_and] at found
    have opens : Mode.code.step c = ⟨some c, false⟩ := by simp [Mode.step, Mode.code, plain, quote]
    rw [Closed, Mode.after_cons, opens] at closed
    rw [← found, Nat.add_sub_cancel_left, Closed, Mode.after_cons, opens]
    exact after_string free.2 closed
  next =>
    split at found
    next call =>
      obtain ⟨opening, behind, parts, four, ordinary⟩ := exists_of_startsSealedCall call.1
      split at found
      -- A call with its closing parenthesis.
      next inside after closes =>
        simp only [Option.some.injEq, Prod.mk.injEq, true_and] at found
        obtain ⟨d, name, rfl⟩ := List.exists_cons_of_length_eq_add_one four
        simp only [List.cons_append, List.cons.injEq] at parts
        obtain ⟨rfl, rfl⟩ := parts
        have three : name.length = 3 := by simpa using four
        rw [← three, List.drop_left] at closes
        have insideClosed := (Bracket.balanced_of_split? Bracket.round_sound closes).2
        have behindParts := Bracket.splitFrom?_sound closes
        have covered : Closed (c :: name ++ (inside ++ [')'])) :=
          (closed_of_ordinary ordinary).append (insideClosed.append (.cons rfl closed_nil))
        have whole : name ++ behind = (name ++ (inside ++ [')'])) ++ after := by
          rw [behindParts]
          simp [Bracket.round]
        have size : size - 1 = (name ++ (inside ++ [')'])).length := by
          simp only [← found, List.length_append, List.length_singleton, three]
          omega
        rw [size, whole, List.take_left, List.drop_left]
        rw [whole, ← List.cons_append] at closed
        exact ⟨covered, (closed_append_iff covered).mp closed⟩
      -- A call that takes the rest of the text.
      next =>
        simp only [Option.some.injEq, Prod.mk.injEq, true_and] at found
        rw [← found, Nat.add_sub_cancel, List.take_length, List.drop_length]
        exact ⟨closed, closed_nil⟩
    next => simp at found

/-- A closed text falls into closed fragments. -/
theorem isClosed_fragments {before : Option Char} {text : Text} (closed : Closed text)
    (free : '\\' ∉ text) :
    ∀ part ∈ Text.fragments sealedMatcher before text, IsClosedFragment part := by
  fun_induction Text.fragments sealedMatcher before text with
  | case1 => simp
  | case2 before c rest misses ih =>
    have unquoted : Mode.isQuote c = false := by
      cases quote : Mode.isQuote c with
      | false => rfl
      | true => simp [sealedMatcher, quote] at misses
    simp only [List.mem_cons, not_or] at free
    have plain : c ≠ '\\' := fun same => free.1 same.symm
    have ordinary : isOrdinary c = true := by simp [isOrdinary, unquoted, plain]
    simp only [List.forall_mem_cons]
    exact ⟨ordinary, ih ((closed_cons ordinary).mp closed) free.2⟩
  | case3 before c rest value size found inner ih =>
    obtain ⟨covered, behind⟩ := closed_of_sealedMatcher closed free found
    simp only [List.forall_mem_cons]
    refine ⟨covered, ih behind ?_⟩
    intro member
    exact free (List.mem_cons_of_mem _ (List.mem_of_mem_drop member))

theorem isClosed_segments {value : Text} (closed : Closed value) (free : '\\' ∉ value) :
    ∀ segment ∈ segments value, segment.IsClosed :=
  isClosed_gather (isClosed_fragments closed free)

end ThemeCss.Dark
