import ThemeCss.Proofs.Text.Rewrite

/-!
# When attempts fail

An attempt of several steps fails when one of them does. Where each step has a condition on which it
fails, with one cause for all, so has the whole: in a sequence, over a list, and for the hits that a
text is rewritten at.
-/
namespace ThemeCss

/-- The attempt fails with the cause when the condition holds, and returns when it does not. -/
structure FailsIff {ε α : Type} (cause : ε) (condition : Prop) (attempt : Except ε α) : Prop where
  error : condition → attempt = .error cause
  ok : ¬ condition → ∃ value, attempt = .ok value

namespace FailsIff

variable {ε α β : Type} {cause : ε} {p q : Prop}

theorem returned (value : α) : FailsIff cause False (.ok value) :=
  ⟨False.elim, fun _ => ⟨value, rfl⟩⟩

theorem congr {attempt : Except ε α} (fails : FailsIff cause p attempt) (same : q ↔ p) :
    FailsIff cause q attempt :=
  ⟨fun holds => fails.error (same.mp holds), fun none => fails.ok (mt same.mpr none)⟩

theorem bind {first : Except ε α} {rest : α → Except ε β} (fails : FailsIff cause p first)
    (later : ∀ value, first = .ok value → FailsIff cause q (rest value)) :
    FailsIff cause (p ∨ q) (first >>= rest) := by
  by_cases early : p
  · rw [fails.error early]
    exact ⟨fun _ => rfl, fun none => absurd (.inl early) none⟩
  · obtain ⟨value, answered⟩ := fails.ok early
    rw [answered]
    exact (later value answered).congr (or_iff_right early)

/-- A last step that returns adds no failure. -/
theorem map {first : Except ε α} (fails : FailsIff cause p first) (f : α → β) :
    FailsIff cause p (first >>= fun value => .ok (f value)) :=
  (fails.bind fun value _ => returned (f value)).congr (or_iff_left id).symm

theorem mapM {f : α → Except ε β} {condition : α → Prop} {xs : List α}
    (each : ∀ x ∈ xs, FailsIff cause (condition x) (f x)) :
    FailsIff cause (∃ x ∈ xs, condition x) (xs.mapM f) := by
  induction xs with
  | nil => exact (returned []).congr (by simp)
  | cons x xs ih =>
    rw [List.mapM_cons]
    have head := each x (List.mem_cons_self ..)
    have tail := ih fun y member => each y (List.mem_cons_of_mem _ member)
    apply (head.bind fun y _ => tail.map (y :: ·)).congr
    simp

end FailsIff

namespace Text

variable {ε α : Type} {cause : ε} {matcher : Matcher α} {replace : α → Text → Except ε Text}

theorem mem_hitValues_iff {parts : List (Fragment α)} {value : α} :
    value ∈ hitValues parts ↔ ∃ covered, .hit value covered ∈ parts := by
  induction parts with
  | nil => simp [hitValues]
  | cons part rest ih => cases part <;> simp [hitValues, ih, exists_or]

/-- A text is rewritten unless a hit has no replacement. -/
theorem failsIff_tryRewrite {condition : α → Prop}
    (each : ∀ value covered, FailsIff cause (condition value) (replace value covered))
    (text : Text) :
    FailsIff cause (∃ value ∈ hitValues (fragments matcher none text), condition value)
      (tryRewrite matcher replace text) := by
  -- The attempts of the parts are those that rewriting makes, found by unification.
  refine ((FailsIff.mapM (?parts : ∀ fragment ∈ fragments matcher none text,
    FailsIff cause (∃ value ∈ hitValues [fragment], condition value) _)).map List.flatten).congr ?_
  case parts =>
    intro fragment _
    cases fragment with
    | plain c => exact (FailsIff.returned [c]).congr (by simp [hitValues])
    | hit value covered => exact (each value covered).congr (by simp [hitValues])
  constructor
  · rintro ⟨value, member, holds⟩
    obtain ⟨covered, listed⟩ := mem_hitValues_iff.mp member
    exact ⟨_, listed, value, by simp [hitValues], holds⟩
  · rintro ⟨fragment, listed, value, member, holds⟩
    obtain ⟨covered, single⟩ := mem_hitValues_iff.mp member
    rw [← List.mem_singleton.mp single] at listed
    exact ⟨value, mem_hitValues_iff.mpr ⟨covered, listed⟩, holds⟩

end Text
end ThemeCss
