import ThemeCss.Proofs.Scan.Plain
import ThemeCss.Proofs.Text.Search
import ThemeCss.Proofs.Text.Trim
import ThemeCss.Variables.Resolve

/-!
# Templates

A template is what a value means to the resolver: text with references standing in it, each with a
name and perhaps a fallback that is a template again. Substitution is defined on this tree, with the
names in progress passed down so that a cycle ends where it meets itself. It never looks at
characters; that the resolver does the same to the written template is the subject of
`Proofs.Variables.Substitution`.
-/
namespace ThemeCss.Variables

open Scan

/-- A piece of a template; a reference with an empty fallback has none. -/
inductive Part where
  | text (content : Text)
  | reference (name : Text) (fallback : List Part)
  deriving Repr

abbrev Template := List Part

mutual

def Part.render : Part → Text
  | .text content => content
  | .reference name fallback =>
    callWord ++ (name ++ if fallback.isEmpty then [] else [',', ' '] ++ Template.render fallback)
      ++ [')']

/-- A template as it is written in a sheet. -/
def Template.render : List Part → Text
  | [] => []
  | part :: rest => part.render ++ Template.render rest

end

def Part.isReference : Part → Bool
  | .text _ => false
  | .reference _ _ => true

namespace Template

def holdsReference (template : Template) : Bool := template.any Part.isReference

/-- Replaces references by what they stand for. A definition that still holds a reference gives way
to the fallback; a reference without definition and fallback stays. -/
def substitute (definitions : Entries Text Template) (resolving : List Text) : Template → Template
  | [] => []
  | .text content :: rest => .text content :: substitute definitions resolving rest
  | .reference name fallback :: rest =>
    match _defined : usable? definitions resolving name with
    | some body =>
      let expanded := substitute definitions (name :: resolving) body
      if expanded.holdsReference ∧ fallback ≠ [] then
        substitute definitions resolving fallback ++ substitute definitions resolving rest
      else expanded ++ substitute definitions resolving rest
    | none =>
      if fallback = [] then .reference name [] :: substitute definitions resolving rest
      else substitute definitions resolving fallback ++ substitute definitions resolving rest
termination_by template => ((available definitions resolving).length, sizeOf template)
decreasing_by
  all_goals first
    | exact Prod.Lex.left _ _ (available_length_lt _defined)
    | exact Prod.Lex.right _ (by simp +arith)

/-- The definitions as text. -/
def renderAll (definitions : Entries Text Template) : Definitions :=
  definitions.map fun (name, body) => (name, render body)

/-- What a call refers to: ink at both ends and nothing that a split of arguments looks for. -/
structure IsName (name : Text) : Prop where
  nonempty : name ≠ []
  trimmed : Text.Trimmed name
  free : Text.Avoids [',', '(', ')', '\'', '"', '\\'] name

/-- Text that can stand as a value, also behind the comma of a call. -/
structure IsValue (text : Text) : Prop where
  nonempty : text ≠ []
  trimmed : Text.Trimmed text
  balanced : Bracket.round.Balanced text

instance (name : Text) : Decidable (IsName name) :=
  decidable_of_iff (name ≠ [] ∧ Text.Trimmed name ∧
      Text.Avoids [',', '(', ')', '\'', '"', '\\'] name)
    ⟨fun ⟨nonempty, trimmed, free⟩ => ⟨nonempty, trimmed, free⟩,
      fun ⟨nonempty, trimmed, free⟩ => ⟨nonempty, trimmed, free⟩⟩

instance (text : Text) : Decidable (IsValue text) :=
  decidable_of_iff (text ≠ [] ∧ Text.Trimmed text ∧ Bracket.round.Balanced text)
    ⟨fun ⟨nonempty, trimmed, balanced⟩ => ⟨nonempty, trimmed, balanced⟩,
      fun ⟨nonempty, trimmed, balanced⟩ => ⟨nonempty, trimmed, balanced⟩⟩

/-- Text pieces are plain, names are names and fallbacks are values. -/
inductive Proper : Template → Prop
  | nil : Proper []
  | text {content : Text} {rest : Template} (plain : Plain content) (tail : Proper rest) :
    Proper (.text content :: rest)
  | bare {name : Text} {rest : Template} (named : IsName name) (tail : Proper rest) :
    Proper (.reference name [] :: rest)
  | guarded {name : Text} {fallback rest : Template} (named : IsName name)
    (given : fallback ≠ []) (readable : IsValue (render fallback)) (inner : Proper fallback)
    (tail : Proper rest) : Proper (.reference name fallback :: rest)

end Template

mutual

def Part.isProper : Part → Bool
  | .text content => decide (Plain content)
  | .reference name fallback =>
    decide (Template.IsName name) &&
      (fallback.isEmpty || decide (Template.IsValue (Template.render fallback))) &&
      Template.isProper fallback

/-- Whether a template is proper. -/
def Template.isProper : Template → Bool
  | [] => true
  | part :: rest => part.isProper && Template.isProper rest

end

/-- What stands between the parentheses of a reference. -/
def Template.arguments (name : Text) (fallback : Template) : Text :=
  name ++ if fallback.isEmpty then [] else [',', ' '] ++ render fallback

@[simp] theorem Part.render_text (content : Text) : (Part.text content).render = content := rfl

theorem Part.render_reference (name : Text) (fallback : Template) :
    (Part.reference name fallback).render
      = callWord ++ Template.arguments name fallback ++ [')'] := rfl

namespace Template

@[simp] theorem render_nil : render [] = [] := rfl

@[simp] theorem render_cons (part : Part) (rest : Template) :
    render (part :: rest) = part.render ++ render rest := rfl

@[simp] theorem render_append (first second : Template) :
    render (first ++ second) = render first ++ render second := by
  induction first with
  | nil => rfl
  | cons part rest ih => rw [List.cons_append, render_cons, render_cons, ih, List.append_assoc]

theorem Proper.append {first second : Template} (left : Proper first) (right : Proper second) :
    Proper (first ++ second) := by
  induction left with
  | nil => exact right
  | text plain _ ih => exact .text plain ih
  | bare named _ ih => exact .bare named ih
  | guarded named given readable inner _ _ ih => exact .guarded named given readable inner ih

theorem IsName.ordinary {name : Text} (named : IsName name) :
    ∀ c ∈ name, isOrdinary c = true := ordinary_of_avoids (named.free.of_subset (by decide))

theorem IsName.balanced {name : Text} (named : IsName name) : Bracket.round.Balanced name := by
  apply Bracket.balanced_of_free
  intro c member
  have free := named.free c member
  simp only [List.mem_cons, List.not_mem_nil, or_false, not_or] at free
  exact ⟨free.2.1, free.2.2.1⟩

/-- What a proper reference carries; an absent fallback is proper too. -/
theorem Proper.reference_parts {name : Text} {fallback rest : Template}
    (proper : Proper (.reference name fallback :: rest)) :
    IsName name ∧ (fallback ≠ [] → IsValue (render fallback)) ∧ Proper fallback ∧
      Proper rest := by
  cases proper with
  | bare named tail => exact ⟨named, fun given => absurd rfl given, .nil, tail⟩
  | guarded named given readable inner tail => exact ⟨named, fun _ => readable, inner, tail⟩

theorem proper_text_iff {content : Text} {rest : Template} :
    Proper (.text content :: rest) ↔ Plain content ∧ Proper rest := by
  constructor
  · intro proper
    cases proper with
    | text plain tail => exact ⟨plain, tail⟩
  · exact fun ⟨plain, tail⟩ => .text plain tail

theorem proper_reference_iff {name : Text} {fallback rest : Template} :
    Proper (.reference name fallback :: rest) ↔
      IsName name ∧ (fallback ≠ [] → IsValue (render fallback)) ∧ Proper fallback ∧
        Proper rest := by
  constructor
  · exact Proper.reference_parts
  · rintro ⟨named, readable, inner, tail⟩
    by_cases given : fallback = []
    · rw [given]
      exact .bare named tail
    · exact .guarded named given (readable given) inner tail

theorem isProper_iff : ∀ template : Template, isProper template = true ↔ Proper template
  | [] => by simp [isProper, Proper.nil]
  | .text content :: rest => by
    rw [proper_text_iff, ← isProper_iff rest]
    simp [isProper, Part.isProper]
  | .reference name fallback :: rest => by
    rw [proper_reference_iff, ← isProper_iff fallback, ← isProper_iff rest]
    by_cases given : fallback = [] <;> simp [isProper, Part.isProper, given, and_assoc]

instance (template : Template) : Decidable (Proper template) :=
  decidable_of_iff _ (isProper_iff template)

theorem Proper.tail {part : Part} {rest : Template} (proper : Proper (part :: rest)) :
    Proper rest := by
  cases proper with
  | text _ tail => exact tail
  | bare _ tail => exact tail
  | guarded _ _ _ _ tail => exact tail

theorem arguments_bare (name : Text) : arguments name [] = name := by simp [arguments]

theorem arguments_guarded (name : Text) {fallback : Template} (given : fallback ≠ []) :
    arguments name fallback = name ++ [',', ' '] ++ render fallback := by
  simp [arguments, given]

theorem closed_arguments {name : Text} {fallback : Template} (named : IsName name)
    (inner : Closed (render fallback)) : Closed (arguments name fallback) := by
  have nameClosed := closed_of_ordinary named.ordinary
  have comma : Closed [',', ' '] := by decide
  by_cases given : fallback = []
  · rw [given, arguments_bare]
    exact nameClosed
  · rw [arguments_guarded name given]
    exact (nameClosed.append comma).append inner

theorem closed_reference {name : Text} {fallback : Template} (named : IsName name)
    (inner : Closed (render fallback)) : Closed (Part.reference name fallback).render := by
  have head : Closed callWord := by decide
  have last : Closed [')'] := by decide
  exact (head.append (closed_arguments named inner)).append last

theorem Proper.closed {template : Template} (proper : Proper template) :
    Closed (render template) := by
  induction proper with
  | nil => exact closed_nil
  | text plain _ ih => exact plain.closed.append ih
  | bare named _ ih =>
    exact (closed_reference named (show Closed (render []) from closed_nil)).append ih
  | guarded named _ _ _ _ inner ih => exact (closed_reference named inner).append ih

theorem balanced_arguments {name : Text} {fallback : Template} (named : IsName name)
    (readable : fallback ≠ [] → IsValue (render fallback)) :
    Bracket.round.Balanced (arguments name fallback) := by
  by_cases given : fallback = []
  · rw [given, arguments_bare]
    exact named.balanced
  · rw [arguments_guarded name given]
    have nameClosed := closed_of_ordinary named.ordinary
    have comma : Bracket.round.Balanced [',', ' '] := by decide
    have commaClosed : Closed [',', ' '] := by decide
    exact (named.balanced.append nameClosed comma).append (nameClosed.append commaClosed)
      (readable given).balanced

/-- The written template holds a call exactly when the template holds a reference. -/
theorem hasReference_render {template : Template} (proper : Proper template) :
    hasReference (render template) = template.holdsReference := by
  induction template with
  | nil => rfl
  | cons part rest ih =>
    -- Text pieces are plain and passed over; the first reference is a call.
    cases part with
    | text content =>
      cases proper with
      | text plain tail =>
        rw [render_cons, Part.render_text, plain.hasReference_append, ih tail]
        rfl
    | reference name fallback =>
      rw [render_cons, Part.render_reference, List.append_assoc, List.append_assoc,
        hasReference_callWord]
      rfl

theorem mem_of_usable? {Value : Type} {definitions : Entries Text Value} {resolving : List Text}
    {name : Text} {value : Value} (found : usable? definitions resolving name = some value) :
    (name, value) ∈ definitions := by
  simp only [usable?] at found
  split at found
  · exact Entries.mem_of_find?_eq_some found
  · simp at found

/-- Substitution keeps templates proper. -/
theorem proper_substitute {definitions : Entries Text Template} {resolving : List Text}
    {template : Template} (defined : ∀ entry ∈ definitions, Proper entry.2)
    (proper : Proper template) : Proper (substitute definitions resolving template) := by
  -- Every result is put together from the text, the fallbacks and the definitions.
  fun_induction substitute definitions resolving template with
  | case1 => exact .nil
  | case2 resolving content rest ih =>
    cases proper with
    | text plain tail => exact .text plain (ih tail)
  | case3 resolving name fallback rest body found expanded unresolved _ ihFallback ihRest =>
    obtain ⟨_, _, inner, tail⟩ := proper.reference_parts
    exact (ihFallback inner).append (ihRest tail)
  | case4 resolving name fallback rest body found expanded settled ihBody ihRest =>
    exact (ihBody (defined _ (mem_of_usable? found))).append (ihRest proper.tail)
  | case5 resolving name rest missing ihRest =>
    exact .bare proper.reference_parts.1 (ihRest proper.tail)
  | case6 resolving name fallback rest missing given ihFallback ihRest =>
    obtain ⟨_, _, inner, tail⟩ := proper.reference_parts
    exact (ihFallback inner).append (ihRest tail)

theorem find?_renderAll (definitions : Entries Text Template) (name : Text) :
    (renderAll definitions).find? name = (definitions.find? name).map render := by
  induction definitions with
  | nil => rfl
  | cons entry rest ih =>
    obtain ⟨other, body⟩ := entry
    simp only [renderAll, List.map_cons, Entries.find?]
    split
    · rfl
    · exact ih

theorem usable?_renderAll (definitions : Entries Text Template) (resolving : List Text)
    (name : Text) :
    usable? (renderAll definitions) resolving name
      = (usable? definitions resolving name).map render := by
  simp only [usable?]
  split
  · exact find?_renderAll definitions name
  · rfl

end Template
end ThemeCss.Variables
