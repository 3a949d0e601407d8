import Mathlib.Data.List.Basic
import ThemeCss.Proofs.Variables.Template

/-!
# Resolving is substitution

The resolver reads flat text: it looks for the next call in code, for the parenthesis that closes it
and for the comma in between, and it searches again in what it put in. On a written template all
three searches find what the template says is there, because text pieces are plain and arguments
are balanced, and what was put in is a written template again. So resolving the text is substituting
in the template, for any definitions, cyclic or not.
-/
namespace ThemeCss.Variables

open Scan Template

theorem resolve_plain {text : Text} (plain : Plain text) (definitions : Definitions)
    (resolving : List Text) : resolve definitions resolving text = text := by
  simp [resolve_eq_flatMap, pieces_plain plain, resolvePiece]

/-- A plain start and the call behind it are resolved on their own. -/
theorem resolve_call {first arguments : Text} (plain : Plain first) (closed : Closed arguments)
    (balanced : Bracket.round.Balanced arguments) (definitions : Definitions)
    (resolving : List Text) (rest : Text) :
    resolve definitions resolving (first ++ callWord ++ arguments ++ [')'] ++ rest)
      = first ++ resolvePiece definitions resolving (.call callWord arguments)
          ++ resolve definitions resolving rest := by
  rw [resolve_eq_flatMap, pieces_call plain closed balanced, resolve_eq_flatMap _ _ rest]
  simp [resolvePiece]

/-! ### Arguments -/

/-- A name holds nothing that a split of arguments stops at. -/
theorem splitComma?_name {name : Text} (named : IsName name) (rest : Text) :
    splitComma? 0 .code (name ++ rest)
      = (splitComma? 0 .code rest).map fun (before, after) => (name ++ before, after) := by
  have free := named.free
  have ordinary := named.ordinary
  -- Ink at the ends is lost on the way down the name, so only what holds of each character is kept.
  clear named
  induction name with
  | nil => simp
  | cons c name ih =>
    simp only [Text.Avoids, List.forall_mem_cons] at free ordinary
    have plain := free.1
    simp only [List.mem_cons, List.not_mem_nil, or_false, not_or] at plain
    rw [List.cons_append, splitComma?, if_neg (by simp [plain])]
    simp only [plain, and_false, if_false, Mode.step_code_ordinary ordinary.1, ih free.2 ordinary.2,
      Option.map_map]
    rfl

theorem splitArguments_arguments {name : Text} {fallback : Template} (named : IsName name)
    (readable : fallback ≠ [] → IsValue (render fallback)) :
    splitArguments (arguments name fallback)
      = (name, if fallback.isEmpty then none else some (render fallback)) := by
  by_cases given : fallback = []
  · have whole := splitComma?_name named []
    simp only [List.append_nil, splitComma?, Option.map_none] at whole
    rw [given, arguments_bare, splitArguments, whole]
    simp only [Text.trim_of_trimmed named.trimmed, List.isEmpty_nil, if_true]
  · have whole : arguments name fallback = name ++ (',' :: ' ' :: render fallback) := by
      simp [arguments_guarded name given]
    -- The name passes the search by, so the comma it finds is the one written behind the name.
    have comma : splitComma? 0 .code (arguments name fallback)
        = some (name, ' ' :: render fallback) := by
      rw [whole, splitComma?_name named]
      simp [splitComma?]
    have blank : Text.Blank [' '] := by decide
    have start : Text.trim (' ' :: render fallback) = render fallback := by
      rw [← List.singleton_append, Text.trim_blank_append blank,
        Text.trim_of_trimmed (readable given).trimmed]
    rw [splitArguments, comma]
    simp [Text.trim_of_trimmed named.trimmed, start, given]

theorem calledFallback?_arguments {name : Text} {fallback : Template} (named : IsName name)
    (readable : fallback ≠ [] → IsValue (render fallback)) :
    calledFallback? (arguments name fallback)
      = if fallback = [] then none else some (render fallback) := by
  simp only [calledFallback?, splitArguments_arguments named readable, List.isEmpty_iff]
  split
  · rfl
  next given => simp [Option.filter, (readable given).nonempty]

/-- What the resolver makes of the call that a reference is written as. -/
theorem resolvePiece_arguments {definitions : Definitions} {resolving : List Text} {name : Text}
    {fallback : Template} (named : IsName name)
    (readable : fallback ≠ [] → IsValue (render fallback)) :
    resolvePiece definitions resolving (.call callWord (arguments name fallback))
      = match usable? definitions resolving name with
        | none =>
          if fallback = [] then (Part.reference name []).render
          else resolve definitions resolving (render fallback)
        | some raw =>
          if hasReference (resolve definitions (name :: resolving) raw) ∧ fallback ≠ [] then
            resolve definitions resolving (render fallback)
          else resolve definitions (name :: resolving) raw := by
  have called : calledName (arguments name fallback) = name := by
    rw [calledName, splitArguments_arguments named readable]
  simp only [resolvePiece, called, calledFallback?_arguments named readable]
  -- A fallback is written exactly if there is one, and it is never empty.
  by_cases given : fallback = []
  · subst given
    cases usable? definitions resolving name with
    | none => simp [Part.render_reference, literalCall, arguments_bare]
    | some raw => simp
  · cases usable? definitions resolving name with
    | none => simp [given]
    | some raw => simp [given]

section step

variable {definitions : Entries Text Template} {resolving : List Text} {name : Text}
  {fallback : Template} (named : IsName name)
  (readable : fallback ≠ [] → IsValue (render fallback))
include named readable

/-- A call without a usable definition gives way to its fallback. -/
theorem resolvePiece_undefined (missing : usable? definitions resolving name = none) :
    resolvePiece (renderAll definitions) resolving (.call callWord (arguments name fallback))
      = if fallback = [] then (Part.reference name []).render
        else resolve (renderAll definitions) resolving (render fallback) := by
  rw [resolvePiece_arguments named readable, usable?_renderAll, missing, Option.map_none]

/-- A call of a definition stands for it, unless it holds a call still and there is a fallback. -/
theorem resolvePiece_defined {body expanded : Template}
    (found : usable? definitions resolving name = some body) (proper : Proper expanded)
    (bodyText : resolve (renderAll definitions) (name :: resolving) (render body)
      = render expanded) :
    resolvePiece (renderAll definitions) resolving (.call callWord (arguments name fallback))
      = if expanded.holdsReference ∧ fallback ≠ [] then
          resolve (renderAll definitions) resolving (render fallback)
        else render expanded := by
  rw [resolvePiece_arguments named readable, usable?_renderAll, found, Option.map_some]
  simp only [bodyText, hasReference_render proper]

end step

/-- A reference behind plain text is replaced on its own. -/
theorem resolve_reference {definitions : Definitions} {resolving : List Text} {first : Text}
    (plain : Plain first) {name : Text} {fallback rest new newRest : Template}
    (proper : Proper (.reference name fallback :: rest))
    (here : resolvePiece definitions resolving (.call callWord (arguments name fallback))
      = render new)
    (behind : resolve definitions resolving (render rest) = render newRest) :
    resolve definitions resolving (first ++ render (.reference name fallback :: rest))
      = first ++ render (new ++ newRest) := by
  obtain ⟨named, readable, inner, _⟩ := proper.reference_parts
  have whole := resolve_call plain (closed_arguments named inner.closed)
    (balanced_arguments named readable) definitions resolving (render rest)
  rw [here, behind] at whole
  rw [render_append, ← List.append_assoc, ← whole]
  simp [Part.render_reference]

/-- Resolving a written template behind plain text substitutes in the template. -/
theorem resolve_append_render {definitions : Entries Text Template}
    (defined : ∀ entry ∈ definitions, Proper entry.2) (resolving : List Text) (template : Template)
    (proper : Proper template) (first : Text) (plain : Plain first) :
    resolve (renderAll definitions) resolving (first ++ render template)
      = first ++ render (substitute definitions resolving template) := by
  -- The induction is the one of substitution: into definitions, fallbacks and the rest. Text pieces
  -- pile up in `first` until the next reference, since calls are searched for past all of them.
  fun_induction substitute definitions resolving template generalizing first with
  | case1 resolving => simp [resolve_plain plain]
  | case2 resolving content rest ih =>
    cases proper with
    | text plainContent tail =>
      simpa using ih tail (first ++ content) (plain.append plainContent)
  -- A definition that still holds a reference: the fallback takes its place.
  | case3 resolving name fallback rest body found expanded unresolved ihBody ihFallback ihRest =>
    obtain ⟨named, readable, inner, tail⟩ := proper.reference_parts
    have bodyProper := defined _ (mem_of_usable? found)
    apply resolve_reference plain proper _ (ihRest tail [] plain_nil)
    rw [resolvePiece_defined named readable found (proper_substitute defined bodyProper)
      (ihBody bodyProper [] plain_nil), if_pos unresolved]
    exact ihFallback inner [] plain_nil
  -- A definition that is settled, or nothing to fall back on.
  | case4 resolving name fallback rest body found expanded settled ihBody ihRest =>
    obtain ⟨named, readable, _, tail⟩ := proper.reference_parts
    have bodyProper := defined _ (mem_of_usable? found)
    apply resolve_reference plain proper _ (ihRest tail [] plain_nil)
    rw [resolvePiece_defined named readable found (proper_substitute defined bodyProper)
      (ihBody bodyProper [] plain_nil), if_neg settled]
  -- Neither definition nor fallback: the call is written as it was.
  | case5 resolving name rest missing ihRest =>
    obtain ⟨named, readable, _, tail⟩ := proper.reference_parts
    change _ = first ++ render ([.reference name []] ++ substitute definitions resolving rest)
    apply resolve_reference plain proper _ (ihRest tail [] plain_nil)
    rw [resolvePiece_undefined named readable missing, if_pos rfl, render_cons, render_nil,
      List.append_nil]
  -- No definition, but a fallback.
  | case6 resolving name fallback rest missing given ihFallback ihRest =>
    obtain ⟨named, readable, inner, tail⟩ := proper.reference_parts
    apply resolve_reference plain proper _ (ihRest tail [] plain_nil)
    rw [resolvePiece_undefined named readable missing, if_neg given]
    exact ihFallback inner [] plain_nil

/-- Resolving a written template writes what substitution makes of it, whatever the definitions
refer to and whatever is in progress. -/
theorem resolve_render {definitions : Entries Text Template}
    (defined : ∀ entry ∈ definitions, Proper entry.2) (resolving : List Text) {template : Template}
    (proper : Proper template) :
    resolve (renderAll definitions) resolving (render template)
      = render (substitute definitions resolving template) :=
  resolve_append_render defined resolving template proper [] plain_nil

/-- Two definitions that refer to each other. -/
def cyclic : Entries Text Template :=
  [("--a".toList, [.reference "--b".toList []]), ("--b".toList, [.reference "--a".toList []])]

theorem proper_cyclic : ∀ entry ∈ cyclic, Proper entry.2 := by decide

def guarded : Template :=
  [.text "1px ".toList, .reference "--a".toList [.reference "--c".toList [.text "red".toList]]]

theorem proper_guarded : Proper guarded := by decide

/-- A cycle gives way to the fallback, and so does the name without definition in it. -/
theorem resolve_render_cyclic :
    resolve (renderAll cyclic) [] "1px var(--a, var(--c, red))".toList = "1px red".toList :=
  (resolve_render proper_cyclic [] proper_guarded).trans (by cbv)

end ThemeCss.Variables
