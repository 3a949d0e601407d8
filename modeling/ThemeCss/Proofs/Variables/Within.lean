import ThemeCss.Variables.Expand

/-!
# Resolving within a depth

Resolving goes down in definitions and in the length of the text at once, so a closed instance of it
does not compute by itself. Within a given depth it is a plain recursion on the depth, which fails
if it has to go deeper and otherwise gives what resolving gives.
-/
namespace ThemeCss.Variables

open Scan

section inside

variable (resolveInside : List Text → Text → Option Text) (definitions : Definitions)
  (resolving : List Text)

/-- The fallback of a call, given how to resolve it, or what stands without one. -/
def fallbackWithin (arguments otherwise : Text) : Option Text :=
  match calledFallback? arguments with
  | none => some otherwise
  | some fallback => resolveInside resolving fallback

/-- What stands for a piece, given how to resolve what it refers to. -/
def pieceWithin : Piece → Option Text
  | .text content => some content
  | .unclosed rest => some rest
  | .call _ arguments =>
    match usable? definitions resolving (calledName arguments) with
    | none => fallbackWithin resolveInside resolving arguments (literalCall arguments)
    | some raw =>
      (resolveInside (calledName arguments :: resolving) raw).bind fun resolved =>
        if hasReference resolved then fallbackWithin resolveInside resolving arguments resolved
        else some resolved

end inside

def resolveWithin : Nat → Definitions → List Text → Text → Option Text
  | 0, _, _, _ => none
  | depth + 1, definitions, resolving, value =>
    ((pieces value).mapM
      (pieceWithin (resolveWithin depth definitions) definitions resolving)).map List.flatten

def resolveAllWithin (depth : Nat) (raw : Definitions) : Option Definitions :=
  raw.mapM fun (name, value) => (resolveWithin depth raw [name] value).map (name, ·)

def expandWithin (depth : Nat) (css : Text) : Option Text :=
  if spellsReference css then do
    let source := Comment.strip css
    let scope ← resolveAllWithin depth (definitions source)
    let expanded ← resolveWithin depth scope [] source
    return if (customDeclarations expanded).isEmpty then expanded else dropCustom expanded
  else some css

/-- What is attempted on each of a list and succeeds can be run on each. -/
theorem map_of_mapM {α β : Type} {attempt : α → Option β} {run : α → β}
    (sound : ∀ {item result}, attempt item = some result → run item = result) {items : List α}
    {results : List β} (found : items.mapM attempt = some results) : items.map run = results := by
  induction items generalizing results with
  | nil => simpa using found
  | cons item rest ih =>
    simp only [List.mapM_cons, Option.bind_eq_bind, Option.bind_eq_some_iff] at found
    obtain ⟨first, here, others, behind, same⟩ := found
    rw [List.map_cons, sound here, ih behind]
    exact Option.some.inj same

section inside

variable {resolveInside : List Text → Text → Option Text} {definitions : Definitions}
  {resolving : List Text}
  (inside : ∀ {resolving value text}, resolveInside resolving value = some text →
    resolve definitions resolving value = text)
include inside

theorem fallback_of_within {arguments otherwise text : Text}
    (found : fallbackWithin resolveInside resolving arguments otherwise = some text) :
    (match calledFallback? arguments with
      | none => otherwise
      | some fallback => resolve definitions resolving fallback) = text := by
  rw [fallbackWithin] at found
  cases given : calledFallback? arguments with
  | none =>
    rw [given] at found
    exact Option.some.inj found
  | some fallback =>
    rw [given] at found
    exact inside found

theorem resolvePiece_of_within {piece : Piece} {text : Text}
    (found : pieceWithin resolveInside definitions resolving piece = some text) :
    resolvePiece definitions resolving piece = text := by
  cases piece with
  | text content => exact Option.some.inj found
  | unclosed rest => exact Option.some.inj found
  | call head arguments =>
    rw [pieceWithin] at found
    rw [resolvePiece]
    cases defined : usable? definitions resolving (calledName arguments) with
    | none =>
      rw [defined] at found
      exact fallback_of_within inside found
    | some raw =>
      rw [defined] at found
      obtain ⟨resolved, settled, found⟩ := Option.bind_eq_some_iff.mp found
      simp only [inside settled]
      split at found
      next left =>
        rw [if_pos left]
        exact fallback_of_within inside found
      next gone =>
        rw [if_neg gone]
        exact Option.some.inj found

end inside

theorem resolve_of_within {depth : Nat} {definitions : Definitions} {resolving : List Text}
    {value text : Text} (found : resolveWithin depth definitions resolving value = some text) :
    resolve definitions resolving value = text := by
  induction depth generalizing resolving value text with
  | zero => simp [resolveWithin] at found
  | succ depth ih =>
    obtain ⟨texts, each, rfl⟩ := Option.map_eq_some_iff.mp found
    rw [resolve_eq_flatMap, List.flatMap_def, map_of_mapM (resolvePiece_of_within ih) each]

theorem resolveAll_of_within {depth : Nat} {raw scope : Definitions}
    (found : resolveAllWithin depth raw = some scope) : resolveAll raw = scope := by
  refine map_of_mapM (fun {entry result} attempt => ?_) found
  obtain ⟨text, here, rfl⟩ := Option.map_eq_some_iff.mp attempt
  exact congrArg (entry.1, ·) (resolve_of_within here)

theorem expand_of_within {depth : Nat} {css expanded : Text}
    (found : expandWithin depth css = some expanded) : expand css = expanded := by
  simp only [expandWithin, Option.bind_eq_bind] at found
  split at found
  next spelled =>
    obtain ⟨scope, defined, found⟩ := Option.bind_eq_some_iff.mp found
    obtain ⟨text, resolved, same⟩ := Option.bind_eq_some_iff.mp found
    rw [expand_of_spelled spelled, flatten, resolveAll_of_within defined,
      resolve_of_within resolved]
    exact Option.some.inj same
  next unspelled =>
    rw [expand_of_unspelled (by simpa using unspelled)]
    exact Option.some.inj found

end ThemeCss.Variables
