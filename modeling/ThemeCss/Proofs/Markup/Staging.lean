import ThemeCss.Markup.Staging

/-!
# The document around a stage

A host is found again where it was put, whatever it holds: with a host attached, the search for the
owner comes to the same element as without, because it does not look into the host. From that every
act of a block on a stage keeps the document what it was but for the host, and taking the host off
at the end leaves the document as it was given.
-/
namespace ThemeCss.Markup

/-! ### Finding the owner again -/

section owner

variable (hidden : Markup → Bool) (change other : List Markup → List Markup)

theorem mapBody?_element (tag : Tag) (children : List Markup) :
    mapBody? hidden change (.element tag children)
      = if hidden (.element tag children) then none
        else if tag.name = bodyName then some (.element tag (change children))
        else (mapFirstBody? hidden change children).map (.element tag) := by
  rw [mapBody?]

theorem mapFirstBody?_cons (markup : Markup) (forest : List Markup) :
    mapFirstBody? hidden change (markup :: forest)
      = match mapBody? hidden change markup with
        | some changed => some (changed :: forest)
        | none => (mapFirstBody? hidden change forest).map (markup :: ·) := by
  cases found : mapBody? hidden change markup <;> simp [mapFirstBody?, found]

@[simp] theorem mapBody?_text (content : Text) :
    mapBody? hidden change (.text content) = none := by simp [mapBody?]

@[simp] theorem mapBody?_comment (content : Text) :
    mapBody? hidden change (.comment content) = none := by simp [mapBody?]

theorem mapFirstBody?_append {first : List Markup}
    (missing : mapFirstBody? hidden change first = none) (second : List Markup) :
    mapFirstBody? hidden change (first ++ second)
      = (mapFirstBody? hidden change second).map (first ++ ·) := by
  induction first with
  | nil => simp
  | cons markup forest ih =>
    rw [mapFirstBody?_cons] at missing
    split at missing
    · cases missing
    next head =>
      rw [List.cons_append, mapFirstBody?_cons, head, ih (Option.map_eq_none_iff.mp missing)]
      simp [Option.map_map, Function.comp_def]

theorem mapBody?_hidden {markup : Markup} (hides : hidden markup = true) :
    mapBody? hidden change markup = none := by
  cases markup with
  | text | comment => simp
  | element tag children => rw [mapBody?_element, if_pos hides]

mutual

/-- Hiding elements does not bring a body to light. -/
theorem mapBody?_eq_none : (markup : Markup) →
    mapBody? (fun _ => false) change markup = .none → mapBody? hidden other markup = .none
  | .element tag children, missing => by
    rw [mapBody?_element, if_neg Bool.false_ne_true] at missing
    rw [mapBody?_element]
    split at missing
    · cases missing
    next inner =>
      rw [Option.map_eq_none_iff] at missing
      rw [if_neg inner, mapFirstBody?_eq_none children missing]
      exact ite_self _
  | .text _, _ | .comment _, _ => by simp

theorem mapFirstBody?_eq_none : (forest : List Markup) →
    mapFirstBody? (fun _ => false) change forest = .none →
      mapFirstBody? hidden other forest = .none
  | [], _ => by rw [mapFirstBody?]
  | markup :: forest, missing => by
    rw [mapFirstBody?_cons] at missing ⊢
    split at missing
    · cases missing
    next first =>
      rw [Option.map_eq_none_iff] at missing
      rw [mapBody?_eq_none markup first, mapFirstBody?_eq_none forest missing]
      rfl

end

variable (hosted : Markup)

theorem ne_of_sizeOf_lt {hosted markup : Markup} (larger : sizeOf hosted < sizeOf markup) :
    markup ≠ hosted := by
  rintro rfl
  exact Nat.lt_irrefl _ larger

mutual

/-- An element that took the host is larger than the host, so it is not hidden, and it gives the
host back. -/
theorem mapBody?_hosted : (markup : Markup) → {changed : Markup} →
    mapBody? (fun _ => false) (· ++ [hosted]) markup = some changed →
      sizeOf hosted < sizeOf changed ∧
        mapBody? (fun markup => markup = hosted) List.dropLast changed = some markup
  | .element tag children, changed, took => by
    rw [mapBody?_element, if_neg Bool.false_ne_true] at took
    split at took
    next body =>
      obtain rfl := Option.some.inj took
      have inside : hosted ∈ children ++ [hosted] := by simp
      have larger : sizeOf hosted < sizeOf (Markup.element tag (children ++ [hosted])) := by
        have below := List.sizeOf_lt_of_mem inside
        simp only [element.sizeOf_spec]
        omega
      refine ⟨larger, ?_⟩
      rw [mapBody?_element, if_neg (by simpa using ne_of_sizeOf_lt larger), if_pos body,
        List.dropLast_concat]
    next inner =>
      obtain ⟨others, deeper, rfl⟩ := Option.map_eq_some_iff.mp took
      obtain ⟨below, back⟩ := mapFirstBody?_hosted children deeper
      have larger : sizeOf hosted < sizeOf (Markup.element tag others) := by
        simp only [element.sizeOf_spec]
        omega
      refine ⟨larger, ?_⟩
      rw [mapBody?_element, if_neg (by simpa using ne_of_sizeOf_lt larger), if_neg inner, back]
      rfl
  | .text _, _, took | .comment _, _, took => by simp at took

theorem mapFirstBody?_hosted : (forest : List Markup) → {changed : List Markup} →
    mapFirstBody? (fun _ => false) (· ++ [hosted]) forest = some changed →
      sizeOf hosted < sizeOf changed ∧
        mapFirstBody? (fun markup => markup = hosted) List.dropLast changed = some forest
  | [], _, took => by
    rw [mapFirstBody?] at took
    cases took
  | markup :: forest, changed, took => by
    rw [mapFirstBody?_cons] at took
    split at took
    next first found =>
      obtain rfl := Option.some.inj took
      obtain ⟨below, back⟩ := mapBody?_hosted markup found
      refine ⟨?_, ?_⟩
      · simp only [List.cons.sizeOf_spec]
        omega
      · rw [mapFirstBody?_cons, back]
    next first =>
      obtain ⟨others, deeper, rfl⟩ := Option.map_eq_some_iff.mp took
      obtain ⟨below, back⟩ := mapFirstBody?_hosted forest deeper
      refine ⟨?_, ?_⟩
      · simp only [List.cons.sizeOf_spec]
        omega
      · rw [mapFirstBody?_cons, mapBody?_eq_none _ _ _ markup first, back]
        rfl

end

end owner

/-- A host is taken off where it was put. -/
theorem detach_attach (document hosted : Markup) :
    detach (attach document hosted) hosted = document := by
  cases document with
  | text | comment => rfl
  | element tag children =>
    rw [attach, mapOwner, detach, mapOwner]
    cases took : mapFirstBody? (fun _ => false) (· ++ [hosted]) children with
    | some changed =>
      rw [Option.getD_some, (mapFirstBody?_hosted hosted children took).2, Option.getD_some]
    | none =>
      -- Without a body the host is the last child, where it is hidden.
      have missing : mapFirstBody? (fun markup => markup = hosted) List.dropLast
          (children ++ [hosted]) = none := by
        rw [mapFirstBody?_append _ _ (mapFirstBody?_eq_none _ _ _ children took),
          mapFirstBody?_cons, mapBody?_hidden _ _ (by simp), mapFirstBody?]
        rfl
      rw [Option.getD_none, missing, Option.getD_none, List.dropLast_concat]

/-! ### Acts on a stage -/

/-- What a block can do to a stage: rewrite what the host holds, or take the host off. -/
inductive Act where
  | rewrite (forest : List Markup)
  | takeOff

namespace Stage

def perform (stage : Stage) : Act → Stage
  | .rewrite forest => stage.replace forest
  | .takeOff => stage.leave

def play (stage : Stage) (acts : List Act) : Stage := acts.foldl perform stage

/-- The document of a stage is the one given, with the host attached to it or without. -/
structure Over (document : Markup) (stage : Stage) : Prop where
  on : stage.attached = true → stage.document = attach document (host stage.forest)
  off : stage.attached = false → stage.document = document

variable {document : Markup} {stage : Stage}

theorem over_enter (document : Markup) (forest : List Markup) :
    (enter document forest).Over document :=
  ⟨fun _ => rfl, fun off => absurd off (by simp [enter])⟩

/-- Leaving a stage gives the document back, whether the host is still there or not. -/
theorem Over.leave_eq (kept : stage.Over document) :
    stage.leave = ⟨document, stage.forest, false⟩ := by
  obtain ⟨_, forest, attached⟩ := stage
  cases attached with
  | true =>
    have put : _ = attach document (host forest) := kept.on rfl
    subst put
    rw [leave, if_pos rfl, detach_attach]
  | false =>
    obtain rfl := kept.off rfl
    rfl

theorem Over.perform (kept : stage.Over document) (act : Act) :
    (stage.perform act).Over document := by
  cases act with
  | takeOff =>
    rw [Stage.perform, kept.leave_eq]
    exact ⟨fun on => absurd on (by simp), fun _ => rfl⟩
  | rewrite forest =>
    obtain ⟨_, earlier, attached⟩ := stage
    cases attached with
    | true =>
      have put : _ = attach document (host earlier) := kept.on rfl
      subst put
      rw [Stage.perform, replace, if_pos rfl, detach_attach]
      exact ⟨fun _ => rfl, fun off => absurd off (by simp)⟩
    | false =>
      obtain rfl := kept.off rfl
      exact ⟨fun on => absurd on (by simp [Stage.perform, replace]), fun _ => rfl⟩

theorem Over.play (kept : stage.Over document) (acts : List Act) :
    (stage.play acts).Over document := by
  induction acts generalizing stage with
  | nil => exact kept
  | cons act acts ih => exact ih (kept.perform act)

/-- The stage without the host on the document. -/
def cleared (document : Markup) (stage : Stage) : Stage := ⟨document, stage.forest, false⟩

end Stage

/-! ### Blocks -/

section block

variable [Library] {m : Type → Type} [Monad m] {Outcome : Type} {document : Markup} {markup : Text}

/-- A block that answers what to do to its stage along with what it came to, be that a failure. -/
def playing (block : Stage → m (Outcome × List Act)) (stage : Stage) : m (Outcome × Stage) := do
  let (outcome, acts) ← block stage
  return (outcome, stage.play acts)

theorem hostContent_of_error {fault : Library.Fault} (unread : Library.read markup = .error fault) :
    hostContent markup = .error (.unreadable fault) := by
  rw [hostContent, unread]

theorem hostContent_of_ok {forest : List Markup} (read : Library.read markup = .ok forest) :
    hostContent markup
      = if isStageable forest then .ok forest else .error .forbiddenCharacter := by
  rw [hostContent, read]

/-- Markup that cannot be staged is refused before there is a stage. -/
theorem onStage_of_error {cause : StageError} (refused : hostContent markup = .error cause)
    (block : Stage → m (Outcome × Stage)) :
    onStage document markup block = pure (.error cause) := by
  simp [onStage, refused]

/-- It is reported as such if the library refuses it, and only then. -/
theorem isReported_iff {cause : StageError} (refused : hostContent markup = .error cause) :
    cause.isReported = true ↔
      ∃ fault, Library.read markup = .error fault ∧ Library.refuses fault = true := by
  cases read : Library.read markup with
  | error fault =>
    rw [hostContent_of_error read] at refused
    obtain rfl := Except.error.inj refused
    simp [StageError.isReported]
  | ok forest =>
    rw [hostContent_of_ok read] at refused
    split at refused
    · cases refused
    · obtain rfl := Except.error.inj refused
      simp [StageError.isReported]

variable [LawfulMonad m]

/-- Behind a block the host is off and the document as it was given. -/
theorem onStage_playing (block : Stage → m (Outcome × List Act)) :
    onStage document markup (playing block)
      = Except.map (fun (outcome, stage) => (outcome, stage.cleared document))
          <$> onStage document markup (playing block) := by
  cases content : hostContent markup with
  | error cause => simp [onStage_of_error content, Except.map]
  | ok forest =>
    have left (acts : List Act) : ((Stage.enter document forest).play acts).leave
        = ((Stage.enter document forest).play acts).cleared document :=
      ((Stage.over_enter document forest).play acts).leave_eq
    simp [onStage, content, playing, left, Stage.cleared, Except.map]

end block

end ThemeCss.Markup
