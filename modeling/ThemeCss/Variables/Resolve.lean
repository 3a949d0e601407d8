import ThemeCss.Entries
import ThemeCss.Scan.Reference
import ThemeCss.Scan.Split
import ThemeCss.Sheet.Declaration

/-!
# Resolving references

A reference stands for the definition of its name, resolved in turn. A name being resolved is
undefined while it is, which cuts cycles. A reference without a usable definition, or whose
definition still holds a reference, gives way to its fallback if that is not empty; otherwise the
definition stands as far as it resolved, and without one the call stays as text.

Going into a definition uses up one defined name and going into a fallback shortens the text, so
resolving ends for every finite set of definitions, cyclic or malformed.
-/
namespace ThemeCss.Variables

open Scan Sheet

variable {Value : Type}

/-- The definition a reference may use here. -/
def usable? (definitions : Entries Text Value) (resolving : List Text) (name : Text) :
    Option Value :=
  if Declaration.isCustomName name ∧ name ∉ resolving then definitions.find? name else none

/-- The definitions not yet being resolved. -/
def available (definitions : Entries Text Value) (resolving : List Text) : Entries Text Value :=
  definitions.filter fun (name, _) => name ∉ resolving

theorem available_length_lt {definitions : Entries Text Value} {resolving : List Text}
    {name : Text} {raw : Value}
    (found : usable? definitions resolving name = some raw) :
    (available definitions (name :: resolving)).length
      < (available definitions resolving).length := by
  simp only [usable?] at found
  split at found
  next fresh =>
    -- The name leaves the available ones, and it was one of them.
    have narrower : available definitions (name :: resolving)
        = (available definitions resolving).filter fun (other, _) => other ≠ name := by
      simp only [available, List.filter_filter]
      congr 1
      funext entry
      by_cases same : entry.1 = name <;> simp [same]
    have member : (name, raw) ∈ available definitions resolving := by
      have listed := Entries.mem_of_find?_eq_some found
      simp [available, listed, fresh.2]
    rw [narrower]
    exact List.length_filter_lt_length_iff_exists.mpr ⟨(name, raw), member, by simp⟩
  next => simp at found

theorem splitComma?_length {depth : Int} {mode : Mode} {text before after : Text}
    (found : splitComma? depth mode text = some (before, after)) :
    text.length = before.length + 1 + after.length := by
  rw [splitComma?_sound found, List.length_append, List.length_cons]
  omega

theorem trim_length_le (text : Text) : (Text.trim text).length ≤ text.length := by
  have right := Text.dropWhile_length_le Text.isBlank (Text.trimLeft text).reverse
  have left := Text.dropWhile_length_le Text.isBlank text
  simp only [Text.trim, Text.trimRight, List.length_reverse] at *
  exact Nat.le_trans right left

def calledName (arguments : Text) : Text := (splitArguments arguments).1

/-- The fallback of a call; an empty one counts as none. -/
def calledFallback? (arguments : Text) : Option Text :=
  (splitArguments arguments).2.filter (!·.isEmpty)

theorem fallback_length_le {arguments fallback : Text}
    (found : calledFallback? arguments = some fallback) : fallback.length ≤ arguments.length := by
  simp only [calledFallback?, splitArguments, Option.filter_eq_some_iff] at found
  split at found
  next before after cut =>
    have size := splitComma?_length cut
    have trimmed := trim_length_le after
    have same : Text.trim after = fallback := by simpa using found.1
    rw [← same]
    omega
  next => simp at found

/-- What a call is written as when nothing replaces it. -/
def literalCall (arguments : Text) : Text := callWord ++ arguments ++ [')']

def resolve (definitions : Definitions) (resolving : List Text) (value : Text) : Text :=
  (pieces value).attach.flatMap fun ⟨piece, _member⟩ =>
    match piece with
    | .text content => content
    | .unclosed rest => rest
    | .call _ arguments =>
      match _defined : usable? definitions resolving (calledName arguments) with
      -- No definition to go into: the fallback, or the call as it is written.
      | none =>
        match _given : calledFallback? arguments with
        | none => literalCall arguments
        | some fallback => resolve definitions resolving fallback
      | some raw =>
        -- The name is in progress while its definition is resolved, so a cycle finds it undefined.
        let resolved := resolve definitions (calledName arguments :: resolving) raw
        if hasReference resolved then
          match _given : calledFallback? arguments with
          | none => resolved
          | some fallback => resolve definitions resolving fallback
        else resolved
termination_by ((available definitions resolving).length, value.length)
decreasing_by
  all_goals first
    -- Into a definition one name fewer is available; into a fallback the text gets shorter.
    | exact Prod.Lex.left _ _ (available_length_lt _defined)
    | exact Prod.Lex.right _
        (Nat.lt_of_le_of_lt (fallback_length_le _given) (arguments_length_lt _member))

/-- What stands for a piece of the text. -/
def resolvePiece (definitions : Definitions) (resolving : List Text) : Piece → Text
  | .text content => content
  | .unclosed rest => rest
  | .call _ arguments =>
    match usable? definitions resolving (calledName arguments) with
    | none =>
      match calledFallback? arguments with
      | none => literalCall arguments
      | some fallback => resolve definitions resolving fallback
    | some raw =>
      let resolved := resolve definitions (calledName arguments :: resolving) raw
      if hasReference resolved then
        match calledFallback? arguments with
        | none => resolved
        | some fallback => resolve definitions resolving fallback
      else resolved

/-- Resolving a text resolves its pieces side by side. -/
theorem resolve_eq_flatMap (definitions : Definitions) (resolving : List Text) (value : Text) :
    resolve definitions resolving value
      = (pieces value).flatMap (resolvePiece definitions resolving) := by
  rw [resolve]
  -- The membership that termination needs says nothing about the value.
  conv => rhs; rw [← List.attach_map_subtype_val (pieces value), List.flatMap_map]
  congr 1
  funext ⟨piece, member⟩
  cases piece with
  | text => rfl
  | unclosed => rfl
  | call head arguments =>
    simp only [resolvePiece]
    split <;> rename_i defined
    · split <;> rename_i given <;> simp [defined, given]
    · simp only [defined]
      split
      · split <;> rename_i given <;> simp [given]
      · rfl

end ThemeCss.Variables
