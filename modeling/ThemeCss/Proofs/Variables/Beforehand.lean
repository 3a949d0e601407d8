import ThemeCss.Proofs.Variables.Reach
import ThemeCss.Proofs.Variables.Within

/-!
# Definitions resolved beforehand

Expansion does not look up the definitions as they are declared. It resolves each of them first,
with its own name in progress, and looks up the results. Where no result holds a reference this
changes nothing, whatever the text: a name stands for the same on both ways, what it stands for is
not looked into again, and it never gives way to a fallback.
-/
namespace ThemeCss.Variables

open Scan

variable {raw : Definitions}

/-- Outside every definition a name is usable as before, and stands for what was resolved. -/
theorem usable?_resolveAll (raw : Definitions) (name : Text) :
    usable? (resolveAll raw) [] name = (usable? raw [] name).map (resolve raw [name]) := by
  simp only [usable?]
  split
  · exact Entries.find?_map (fun name value => resolve raw [name] value) raw name
  · rfl

/-- No definition is left with a reference once it is resolved. -/
def Conclusive (raw : Definitions) : Prop := ∀ entry ∈ resolveAll raw, hasReference entry.2 = false

theorem Conclusive.of_usable? (conclusive : Conclusive raw) {name value : Text}
    (found : usable? raw [] name = some value) :
    hasReference (resolve raw [name] value) = false := by
  have resolved : usable? (resolveAll raw) [] name = some (resolve raw [name] value) := by
    rw [usable?_resolveAll, found, Option.map_some]
  exact conclusive _ (Entries.mem_of_find?_eq_some (find?_of_usable? resolved))

/-- A call stands for the same on both ways when its fallback does. -/
theorem resolvePiece_resolveAll (conclusive : Conclusive raw) {head arguments : Text}
    (spare : ∀ fallback, calledFallback? arguments = some fallback →
      resolve (resolveAll raw) [] fallback = resolve raw [] fallback) :
    resolvePiece (resolveAll raw) [] (.call head arguments)
      = resolvePiece raw [] (.call head arguments) := by
  simp only [resolvePiece, usable?_resolveAll]
  cases found : usable? raw [] (calledName arguments) with
  | none =>
    rw [Option.map_none]
    cases given : calledFallback? arguments with
    | none => rfl
    | some fallback => exact spare fallback given
  | some value =>
    -- Looking the result up again finds nothing to resolve in it.
    have free := conclusive.of_usable? found
    simp only [Option.map_some, resolve_of_referenceFree free, free]
    rfl

/-- Resolving with the definitions resolved beforehand is resolving with the raw ones. -/
theorem resolve_resolveAll_eq (conclusive : Conclusive raw) (text : Text) :
    resolve (resolveAll raw) [] text = resolve raw [] text := by
  rw [resolve_eq_flatMap, resolve_eq_flatMap, List.flatMap_def, List.flatMap_def]
  congr 1
  apply List.map_congr_left
  intro piece member
  cases piece with
  | text => rfl
  | unclosed => rfl
  | call head arguments =>
    exact resolvePiece_resolveAll conclusive fun fallback _given =>
      resolve_resolveAll_eq conclusive fallback
termination_by text.length
decreasing_by
  exact Nat.lt_of_le_of_lt (fallback_length_le _given) (arguments_length_lt member)

/-- Two names that stand for each other, one of them with a way out of the circle. -/
def reciprocal : Definitions :=
  [("--a".toList, "1 var(--b)".toList), ("--b".toList, "var(--a, 2)".toList)]

/-- Calls of them in capitals, in a string, in a fallback, beside an undefined one, and unclosed. -/
def tangled : Text := "VAR(--a)'var(--b' var(--u, var(--b, 3)) var(--u) var(--a".toList

theorem resolve_resolveAll_reciprocal :
    Conclusive reciprocal ∧
      resolve (resolveAll reciprocal) [] tangled = resolve reciprocal [] tangled ∧
      resolve reciprocal [] tangled = "1 2'var(--b' 2 var(--u) var(--a".toList := by
  have resolved : resolveAll reciprocal
      = [("--a".toList, "1 2".toList), ("--b".toList, "2".toList)] :=
    @resolveAll_of_within 4 _ _ (by decide +kernel)
  have conclusive : Conclusive reciprocal := by
    rw [Conclusive, resolved]
    decide
  have afterwards : resolve reciprocal [] tangled
      = "1 2'var(--b' 2 var(--u) var(--a".toList :=
    @resolve_of_within 5 _ _ _ _ (by decide +kernel)
  exact ⟨conclusive, resolve_resolveAll_eq conclusive tangled, afterwards⟩

end ThemeCss.Variables
