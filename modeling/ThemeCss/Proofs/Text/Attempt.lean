import Mathlib.Data.List.Forall2
import ThemeCss.Text.Fragment

/-!
# Rewriting that may fail

An attempt over a list returns when it does for every member, and then it returns their results in
order. So a text is rewritten when every fragment is replaced, and the replacements are put
together.
-/
namespace ThemeCss.Text

/-- What is attempted after a first step has its result. -/
theorem exists_of_bind_ok {ε α β : Type} {first : Except ε α} {rest : α → Except ε β} {result : β}
    (returned : first >>= rest = .ok result) :
    ∃ value, first = .ok value ∧ rest value = .ok result := by
  cases first with
  | error cause => simp [bind, Except.bind] at returned
  | ok value => exact ⟨value, rfl, returned⟩

theorem mapM_ok_iff {ε α β : Type} {f : α → Except ε β} {xs : List α} {ys : List β} :
    xs.mapM f = .ok ys ↔ List.Forall₂ (fun x y => f x = .ok y) xs ys := by
  induction xs generalizing ys with
  | nil => cases ys <;> simp [pure, Except.pure]
  | cons x xs ih =>
    rw [List.mapM_cons]
    -- The first failure is the answer, at this member or at a later one.
    cases first : f x with
    | error cause => cases ys <;> simp [bind, Except.bind, first]
    | ok y =>
      cases others : xs.mapM f with
      | error cause => cases ys <;> simp [bind, Except.bind, first, others, ← ih]
      | ok rest => cases ys <;> simp [bind, Except.bind, pure, Except.pure, first, others, ← ih]

variable {α : Type} {matcher : Matcher α} {before : Option Char} {text : Text}

/-- What a fragment is replaced by. -/
def Fragment.attempt {ε : Type} (replace : α → Text → Except ε Text) :
    Fragment α → Except ε Text
  | .plain c => .ok [c]
  | .hit value covered => replace value covered

theorem tryRewrite_ok_iff {ε : Type} {replace : α → Text → Except ε Text} {new : Text} :
    tryRewrite matcher replace text = .ok new ↔ ∃ parts : List Text, new = parts.flatten ∧
      List.Forall₂ (fun fragment part => fragment.attempt replace = .ok part)
        (fragments matcher none text) parts := by
  have attempted : tryRewrite matcher replace text
      = (fragments matcher none text).mapM (Fragment.attempt replace) >>=
        fun parts => .ok parts.flatten := rfl
  rw [attempted]
  constructor
  · intro rewritten
    obtain ⟨parts, returned, joined⟩ := exists_of_bind_ok rewritten
    exact ⟨parts, (Except.ok.inj joined).symm, mapM_ok_iff.mp returned⟩
  · rintro ⟨parts, rfl, each⟩
    rw [mapM_ok_iff.mpr each]
    rfl

theorem exists_of_tryRewrite {ε : Type} {replace : α → Text → Except ε Text} {new : Text}
    (rewritten : tryRewrite matcher replace text = .ok new) :
    ∃ parts : List Text, new = parts.flatten ∧
      List.Forall₂ (fun fragment part => fragment.attempt replace = .ok part)
        (fragments matcher none text) parts := tryRewrite_ok_iff.mp rewritten

/-- What stands between hits is kept. -/
theorem exists_of_attempts {ε : Type} {replace : α → Text → Except ε Text} {text : Text}
    {fragments : List (Fragment α)} {parts : List Text}
    (each : List.Forall₂ (fun fragment part => fragment.attempt replace = .ok part)
      (text.map .plain ++ fragments) parts) :
    ∃ rest, parts.flatten = text ++ rest.flatten ∧
      List.Forall₂ (fun fragment part => fragment.attempt replace = .ok part) fragments rest := by
  induction text generalizing parts with
  | nil => exact ⟨parts, rfl, each⟩
  | cons c text ih =>
    obtain _ | @⟨_, part, _, parts, answered, others⟩ := each
    obtain rfl : [c] = part := Except.ok.inj answered
    obtain ⟨rest, whole, left⟩ := ih others
    exact ⟨rest, by rw [List.flatten_cons, whole]; rfl, left⟩

end ThemeCss.Text
