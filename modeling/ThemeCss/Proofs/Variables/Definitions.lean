import ThemeCss.Proofs.Variables.Reach
import ThemeCss.Proofs.Variables.Values
import ThemeCss.Variables.Expand

/-!
# Definitions resolved first

Expansion resolves each definition with its own name in progress and puts the results into the text
of the sheet. Where no reference is left in them, this is substituting the raw definitions all the
way, since nothing that was put in is looked at again.
-/
namespace ThemeCss.Variables

open Scan

namespace Template

/-- Each definition substituted as far as the others allow. -/
def resolved (definitions : Entries Text Template) : Entries Text Template :=
  definitions.map fun (name, body) => (name, substitute definitions [name] body)

/-- No definition is left with a reference. -/
def Settled (definitions : Entries Text Template) : Prop :=
  ∀ entry ∈ resolved definitions, entry.2.holdsReference = false

instance (definitions : Entries Text Template) : Decidable (Settled definitions) :=
  inferInstanceAs (Decidable (∀ entry ∈ resolved definitions, _))

variable {definitions : Entries Text Template}

/-- Resolving the written definitions is resolving the definitions. -/
theorem resolveAll_renderAll (defined : ∀ entry ∈ definitions, Proper entry.2) :
    resolveAll (renderAll definitions) = renderAll (resolved definitions) := by
  simp only [resolveAll, renderAll, resolved, List.map_map]
  apply List.map_congr_left
  intro entry member
  have body := resolve_append_render defined [entry.1] entry.2 (defined entry member) [] plain_nil
  simp only [renderAll, List.nil_append] at body
  simp only [Function.comp, body]

theorem proper_resolved (defined : ∀ entry ∈ definitions, Proper entry.2) :
    ∀ entry ∈ resolved definitions, Proper entry.2 := by
  intro entry member
  simp only [resolved, List.mem_map] at member
  obtain ⟨raw, listed, rfl⟩ := member
  exact proper_substitute defined (defined raw listed)

/-- A text is resolved by its own definitions as its template is by theirs. -/
theorem resolve_resolveAll (defined : ∀ entry ∈ definitions, Proper entry.2) {template : Template}
    (proper : Proper template)
    (found : Variables.definitions (render template) = renderAll definitions) :
    resolve (resolveAll (Variables.definitions (render template))) [] (render template)
      = render (substitute (resolved definitions) [] template) := by
  have whole := resolve_append_render (proper_resolved defined) [] template proper [] plain_nil
  rw [found, resolveAll_renderAll defined]
  simpa only [List.nil_append] using whole

theorem find?_resolved (name : Text) :
    (resolved definitions).find? name
      = (definitions.find? name).map (substitute definitions [name]) :=
  Entries.find?_map (fun name body => substitute definitions [name] body) definitions name

theorem usable?_resolved (name : Text) :
    usable? (resolved definitions) [] name
      = (usable? definitions [] name).map (substitute definitions [name]) := by
  simp only [usable?]
  split
  · exact find?_resolved name
  · rfl

/-- A template without references stands for itself. -/
theorem substitute_of_plain {template : Template} (plain : template.holdsReference = false)
    (resolving : List Text) : substitute definitions resolving template = template := by
  induction template with
  | nil => simp [substitute]
  | cons part rest ih =>
    cases part with
    | text content =>
      have tail : Template.holdsReference rest = false := by
        simpa [holdsReference, Part.isReference] using plain
      rw [substitute_text, ih tail]
    | reference name fallback => simp [holdsReference, Part.isReference] at plain

theorem plain_of_usable? (settled : Settled definitions) {name : Text} {body : Template}
    (found : usable? definitions [] name = some body) :
    (substitute definitions [name] body).holdsReference = false := by
  have resolvedFound : usable? (resolved definitions) [] name
      = some (substitute definitions [name] body) := by
    rw [usable?_resolved, found, Option.map_some]
  exact settled _ (mem_of_usable? resolvedFound)

/-- Substituting settled definitions once is substituting the raw ones all the way. -/
theorem substitute_resolved (settled : Settled definitions) : ∀ template : Template,
    substitute (resolved definitions) [] template = substitute definitions [] template
  | [] => by simp [substitute]
  | .text content :: rest => by
    rw [substitute_text, substitute_text, substitute_resolved settled rest]
  | .reference name fallback :: rest => by
    have inner := substitute_resolved settled fallback
    have behind := substitute_resolved settled rest
    rw [substitute, substitute, usable?_resolved]
    cases found : usable? definitions [] name with
    | none => simp only [Option.map_none, inner, behind]
    | some body =>
      -- A settled definition holds no reference, so it stays as it is and needs no fallback.
      have plain := plain_of_usable? settled found
      simp only [Option.map_some, substitute_of_plain plain, plain, Bool.false_eq_true, false_and,
        if_false, behind]
termination_by template => sizeOf template

/-! ### From declarations to definitions -/

theorem renderAll_set (entries : Entries Text Template) (name : Text) (body : Template) :
    renderAll (entries.set name body) = (renderAll entries).set name (render body) := by
  induction entries with
  | nil => rfl
  | cons entry rest ih =>
    obtain ⟨other, old⟩ := entry
    simp only [Entries.set, renderAll, List.map_cons] at ih ⊢
    split
    · rfl
    · rw [List.map_cons, ih]

/-- The last declaration of a name counts, written or not. -/
theorem renderAll_ofList (pairs : List (Text × Template)) :
    renderAll (Entries.ofList pairs)
      = Entries.ofList (pairs.map fun (name, body) => (name, render body)) := by
  -- Generalised over the entries gathered so far, since each declaration is set into them.
  have step : ∀ entries : Entries Text Template,
      renderAll (pairs.foldl (fun entries pair => entries.set pair.1 pair.2) entries)
        = (pairs.map fun (name, body) => (name, render body)).foldl
            (fun entries pair => entries.set pair.1 pair.2) (renderAll entries) := by
    induction pairs with
    | nil => intro entries; rfl
    | cons pair rest ih =>
      intro entries
      rw [List.map_cons, List.foldl_cons, List.foldl_cons, ih, renderAll_set]
  exact step []

end Template
end ThemeCss.Variables
