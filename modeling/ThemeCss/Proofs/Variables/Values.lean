import ThemeCss.Proofs.Scan.Chunks
import ThemeCss.Proofs.Variables.Substitution

/-!
# What substitution keeps of a value

A reference is a call with balanced arguments and ink at both ends, and so is what comes in its
place when every definition is a value. So substitution keeps a text a value, and brings in no
characters but those of the template and the definitions. Once the definitions are resolved without
a reference left, substituting them once is substituting all the way.
-/
namespace ThemeCss.Variables

open Scan Template

/-! ### Alike texts -/

/-- The second text has ink where the first has and closes what the first closes. -/
structure Alike (old new : Text) : Prop where
  empty : new = [] ↔ old = []
  starts : (∀ c ∈ old.head?, Text.isBlank c = false) → ∀ c ∈ new.head?, Text.isBlank c = false
  ends : (∀ c ∈ old.getLast?, Text.isBlank c = false) →
    ∀ c ∈ new.getLast?, Text.isBlank c = false
  depth : ∀ depth, Bracket.round.depth? depth .code new = Bracket.round.depth? depth .code old

theorem Alike.refl (text : Text) : Alike text text := ⟨Iff.rfl, id, id, fun _ => rfl⟩

/-- Alike texts stand side by side. -/
theorem Alike.append {first first' second second' : Text} (closed : Closed first)
    (closed' : Closed first') (left : Alike first first') (right : Alike second second') :
    Alike (first ++ second) (first' ++ second') := by
  refine ⟨?_, ?_, ?_, ?_⟩
  · rw [List.append_eq_nil_iff, List.append_eq_nil_iff, left.empty, right.empty]
  · intro starts
    -- The first ink is that of `first`, unless `first` is empty, and then so is its replacement.
    by_cases none : first = []
    · rw [left.empty.mpr none, List.nil_append]
      rw [none, List.nil_append] at starts
      exact right.starts starts
    · have some : first' ≠ [] := fun none' => none (left.empty.mp none')
      rw [Text.head?_append_of_ne_nil some]
      rw [Text.head?_append_of_ne_nil none] at starts
      exact left.starts starts
  · intro ends
    -- The same from the other end.
    by_cases none : second = []
    · rw [right.empty.mpr none, List.append_nil]
      rw [none, List.append_nil] at ends
      exact left.ends ends
    · have some : second' ≠ [] := fun none' => none (right.empty.mp none')
      rw [Text.getLast?_append_of_ne_nil _ some]
      rw [Text.getLast?_append_of_ne_nil _ none] at ends
      exact right.ends ends
  · intro depth
    -- Both starts are closed, so the second counts go on from the same depth in the same mode.
    rw [Bracket.depth?_append, Bracket.depth?_append, left.depth, closed.after, closed'.after]
    cases Bracket.round.depth? depth .code first with
    | none => rfl
    | some reached => exact right.depth reached

/-- Values are alike. -/
theorem alike_of_isValue {old new : Text} (left : IsValue old) (right : IsValue new) :
    Alike old new := by
  refine ⟨?_, fun _ => right.trimmed.starts, fun _ => right.trimmed.ends, ?_⟩
  · simp [left.nonempty, right.nonempty]
  · intro depth
    rw [left.balanced.depth, right.balanced.depth]

theorem Alike.isValue {old new : Text} (alike : Alike old new) (value : IsValue old) :
    IsValue new := by
  refine ⟨fun none => value.nonempty (alike.empty.mp none), ⟨?_, ?_⟩, ?_⟩
  · exact alike.starts value.trimmed.starts
  · exact alike.ends value.trimmed.ends
  · exact (alike.depth 0).trans value.balanced

/-- A reference as it is written is a value. -/
theorem isValue_reference {name : Text} {fallback : Template} (named : IsName name)
    (readable : fallback ≠ [] → IsValue (render fallback)) (inner : Proper fallback) :
    IsValue (Part.reference name fallback).render := by
  have enclosed : Bracket.round.Balanced ('(' :: arguments name fallback ++ [')']) :=
    (balanced_arguments named readable).enclose Bracket.round_sound
      (closed_arguments named inner.closed)
  -- The parentheses of the call enclose the arguments, whatever is open around it.
  have parts : (Part.reference name fallback).render
      = ['v', 'a', 'r'] ++ ('(' :: arguments name fallback ++ [')']) := by
    rw [Part.render_reference]
    rfl
  have first : Text.Trimmed ['v', 'a', 'r'] := by decide
  have last : Text.Trimmed [')'] := by decide
  have trimmed := first.between (by simp) last (by simp) ('(' :: arguments name fallback)
  rw [parts]
  refine ⟨by simp, ?_, Bracket.Balanced.append (by decide) (by decide) enclosed⟩
  rwa [List.append_assoc] at trimmed

/-! ### Substitution -/

section substitute

variable {definitions : Entries Text Template} (defined : ∀ entry ∈ definitions, Proper entry.2)
  (values : ∀ entry ∈ definitions, IsValue (render entry.2))
include defined values

theorem alike_substitute (resolving : List Text) {template : Template} (proper : Proper template) :
    Alike (render template) (render (substitute definitions resolving template)) := by
  -- A reference and its replacement are values, so they are alike whatever they say.
  have replace : ∀ {name : Text} {fallback rest rest' new : Template},
      Proper (.reference name fallback :: rest) → Proper new → IsValue (render new) →
      Alike (render rest) (render rest') →
      Alike (render (.reference name fallback :: rest)) (render (new ++ rest')) := by
    intro name fallback rest rest' new proper newProper newValue behind
    obtain ⟨named, readable, inner, _⟩ := proper.reference_parts
    have old := isValue_reference named readable inner
    rw [render_cons, render_append]
    exact Alike.append (closed_reference named inner.closed) newProper.closed
      (alike_of_isValue old newValue) behind
  fun_induction substitute definitions resolving template with
  | case1 resolving => exact .refl _
  | case2 resolving content rest ih =>
    cases proper with
    | text plain tail =>
      rw [render_cons, render_cons]
      exact Alike.append plain.closed plain.closed (.refl content) (ih tail)
  | case3 resolving name fallback rest body found expanded unresolved _ ihFallback ihRest =>
    obtain ⟨_, readable, inner, tail⟩ := proper.reference_parts
    exact replace proper (proper_substitute defined inner)
      ((ihFallback inner).isValue (readable unresolved.2)) (ihRest tail)
  | case4 resolving name fallback rest body found expanded settled ihBody ihRest =>
    have member := mem_of_usable? found
    have bodyProper := defined _ member
    exact replace proper (proper_substitute defined bodyProper)
      ((ihBody bodyProper).isValue (values _ member)) (ihRest proper.tail)
  | case5 resolving name rest missing ihRest =>
    obtain ⟨named, _, _, tail⟩ := proper.reference_parts
    have bare : Proper [.reference name []] := .bare named .nil
    have value := isValue_reference named (fun given => absurd rfl given) .nil
    exact replace proper bare (by simpa using value) (ihRest tail)
  | case6 resolving name fallback rest missing given ihFallback ihRest =>
    obtain ⟨_, readable, inner, tail⟩ := proper.reference_parts
    exact replace proper (proper_substitute defined inner)
      ((ihFallback inner).isValue (readable given)) (ihRest tail)

/-- What stands for a value is a value. -/
theorem isValue_substitute (resolving : List Text) {template : Template} (proper : Proper template)
    (value : IsValue (render template)) :
    IsValue (render (substitute definitions resolving template)) :=
  (alike_substitute defined values resolving proper).isValue value

end substitute

theorem mem_render_arguments {name : Text} {fallback : Template} {c : Char}
    (member : c ∈ render fallback) : c ∈ (Part.reference name fallback).render := by
  have given : fallback ≠ [] := by
    rintro rfl
    simp at member
  rw [Part.render_reference, arguments_guarded name given]
  simp [member]

/-- A character of a changed template is one of the old template if it is so part by part. -/
theorem mem_render_step {part : Part} {rest new newRest : Template} {c : Char} {Other : Prop}
    (here : c ∈ render new → c ∈ part.render ∨ Other)
    (behind : c ∈ render newRest → c ∈ render rest ∨ Other)
    (member : c ∈ render (new ++ newRest)) : c ∈ render (part :: rest) ∨ Other := by
  rw [render_append] at member
  rw [render_cons]
  rcases List.mem_append.mp member with inNew | inRest
  · exact (here inNew).imp_left (List.mem_append_left _)
  · exact (behind inRest).imp_left (List.mem_append_right _)

/-- Substitution brings in no characters but those of the definitions. -/
theorem mem_of_mem_substitute {definitions : Entries Text Template} {resolving : List Text}
    {template : Template} {c : Char}
    (member : c ∈ render (substitute definitions resolving template)) :
    c ∈ render template ∨ ∃ entry ∈ definitions, c ∈ render entry.2 := by
  -- What is left as it was brings in nothing.
  have kept : ∀ {part : Part}, c ∈ render [part] →
      c ∈ part.render ∨ ∃ entry ∈ definitions, c ∈ render entry.2 := by
    intro part held
    rw [render_cons, render_nil, List.append_nil] at held
    exact .inl held
  fun_induction substitute definitions resolving template with
  | case1 => exact .inl member
  | case2 resolving content rest ih => exact mem_render_step kept ih member
  | case3 resolving name fallback rest body found expanded unresolved _ ihFallback ihRest =>
    refine mem_render_step (fun held => ?_) ihRest member
    exact (ihFallback held).imp_left mem_render_arguments
  | case4 resolving name fallback rest body found expanded settled ihBody ihRest =>
    refine mem_render_step (fun held => .inr ?_) ihRest member
    rcases ihBody held with inner | other
    · exact ⟨_, mem_of_usable? found, inner⟩
    · exact other
  | case5 resolving name rest missing ihRest => exact mem_render_step kept ihRest member
  | case6 resolving name fallback rest missing given ihFallback ihRest =>
    refine mem_render_step (fun held => ?_) ihRest member
    exact (ihFallback held).imp_left mem_render_arguments

/-! ### Side by side -/

theorem substitute_text (definitions : Entries Text Template) (resolving : List Text)
    (content : Text) (rest : Template) :
    substitute definitions resolving (.text content :: rest)
      = .text content :: substitute definitions resolving rest := by
  rw [substitute]

theorem substitute_cons (definitions : Entries Text Template) (resolving : List Text)
    (part : Part) (rest : Template) :
    substitute definitions resolving (part :: rest)
      = substitute definitions resolving [part] ++ substitute definitions resolving rest := by
  cases part with
  | text content => simp [substitute]
  | reference name fallback =>
    rw [substitute, substitute]
    -- Only the first part asks for its definition; the rest is substituted beside it.
    cases found : usable? definitions resolving name with
    | none =>
      simp only
      split <;> simp [substitute]
    | some body =>
      simp only
      split <;> simp [substitute]

theorem substitute_append (definitions : Entries Text Template) (resolving : List Text)
    (first second : Template) :
    substitute definitions resolving (first ++ second)
      = substitute definitions resolving first ++ substitute definitions resolving second := by
  induction first with
  | nil => simp [substitute]
  | cons part rest ih =>
    rw [List.cons_append, substitute_cons, ih, substitute_cons _ _ part rest, List.append_assoc]

end ThemeCss.Variables
