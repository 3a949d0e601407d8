import ThemeCss.Markup.Html
import ThemeCss.Proofs.Inline.Walk
import ThemeCss.Proofs.Markup.Staging

/-!
# Resolving on a stage

Whatever the walk over staged markup comes to, all it does to the document is to rewrite what the
host holds, so the document is given back as it was.
-/
namespace ThemeCss.Inline

open Markup Variables

section stage

variable [Library] {Failure : Type} {m : Type → Type} [Monad m] [LawfulMonad m]

/-- On a stage the walk answers what it answers without one. -/
theorem resolveStage_outcome (live : LiveStyle Failure m) (stage : Stage) :
    (·.1) <$> resolveStage live stage
      = Except.map publish <$> (resolveForest live [] stage.forest).run := by
  simp only [resolveStage, resolveForest_run, map_eq_pure_bind, bind_assoc, pure_bind]
  apply bind_congr
  rintro ⟨forest, _ | _⟩ <;> rfl

/-- Resolving a stage rewrites what the host holds and nothing else. -/
theorem resolveStage_eq (live : LiveStyle Failure m) :
    resolveStage live = playing fun stage => do
      let (forest, ending) ← walkForest live [] stage.forest
      return (ending.map fun () => publish forest, [.rewrite forest]) := by
  funext stage
  simp [resolveStage, playing, Stage.play, Stage.perform]

/-- The document comes out of resolving as it went in. -/
theorem resolveStyles_eq (live : LiveStyle Failure m) (document : Markup) (markup : Text) :
    resolveStyles live document markup
      = (fun (outcome, _) => (outcome, document)) <$> resolveStyles live document markup := by
  rw [resolveStyles]
  split
  · rw [resolveStage_eq, onStage_playing]
    simp only [bind_map_left, map_bind]
    apply bind_congr
    rintro (cause | run) <;> simp [Except.map, Stage.cleared]
  · simp

/-- Every way out gives the document back: out of resolving, whatever the renderer answers and
wherever it fails; out of a block, whatever it came to and whether or not it took the host off; and
out of markup that cannot be staged, which no block is run on. That is reported as a failure to
stage if the library refuses the markup, but not if its leading text cannot be set. -/
theorem document_restored (document : Markup) (markup : Text) :
    (∀ live : LiveStyle Failure m, resolveStyles live document markup
      = (fun (outcome, _) => (outcome, document)) <$> resolveStyles live document markup) ∧
    (∀ (Outcome : Type) (block : Stage → m (Outcome × List Act)),
      onStage document markup (playing block)
        = Except.map (fun (outcome, stage) => (outcome, stage.cleared document))
            <$> onStage document markup (playing block)) ∧
    ∀ cause, hostContent markup = .error cause →
      (∀ (Outcome : Type) (block : Stage → m (Outcome × Stage)),
        onStage document markup block = pure (.error cause)) ∧
      (∀ live : LiveStyle Failure m, Scan.spellsReference markup = true →
        resolveStyles live document markup = pure (.error (.unstaged cause), document)) ∧
      (cause.isReported = true ↔
        ∃ fault, Library.read markup = .error fault ∧ Library.refuses fault = true) := by
  refine ⟨fun live => resolveStyles_eq live document markup, fun _ => onStage_playing, ?_⟩
  intro cause refused
  refine ⟨fun _ => onStage_of_error refused, fun live spelled => ?_, isReported_iff refused⟩
  rw [resolveStyles, if_pos spelled, onStage_of_error refused, pure_bind]

end stage

/-- A document without a body. -/
def bodiless : Markup := .element ⟨"div".toList, []⟩ [.element ⟨"p".toList, []⟩ []]

/-- A renderer that always fails. -/
def failing : LiveStyle Text Id := fun _ property => throw property

/-- A block that empties the host and takes it off. -/
def clearing : Stage → Id (Unit × List Act) := fun _ => pure ((), [.rewrite [], .takeOff])

/-- The last markup starts with a control character, which is read but cannot be set. -/
theorem document_restored_bodiless :
    (Id.run (resolveStyles failing bodiless "<p style='a: var(--x)'>".toList)).2 = bodiless ∧
    (∀ run, Id.run (onStage bodiless "<p>".toList (playing clearing)) = .ok run →
      run.2 = ⟨bodiless, run.2.forest, false⟩) ∧
    (hostContent "<!doctype var(".toList = .error .emptyDocument ∧
      Id.run (resolveStyles failing bodiless "<!doctype var(".toList)
        = (.error (.unstaged .emptyDocument), bodiless) ∧
      StageError.emptyDocument.isReported = true) ∧
    hostContent "&#1;x".toList = .error .forbiddenCharacter ∧
      (∀ block : Stage → Id (Unit × Stage),
        Id.run (onStage bodiless "&#1;x".toList block) = .error .forbiddenCharacter) ∧
      ¬ ∃ fault, Library.read "&#1;x".toList = .error fault ∧ Library.refuses fault = true := by
  have unread : hostContent "<!doctype var(".toList = .error .emptyDocument := by
    apply hostContent_of_error
    exact if_pos (by decide +kernel)
  have unset : hostContent "&#1;x".toList = .error .forbiddenCharacter := by
    have read : Library.read "&#1;x".toList = .ok [.text [Char.ofNat 1, 'x']] :=
      (readFragment_of_part (by decide)).trans (congrArg Except.ok (by decide +kernel))
    rw [hostContent_of_ok read]
    exact if_neg (by decide)
  obtain ⟨resolved, _⟩ :=
    @document_restored _ Text Id _ _ bodiless "<p style='a: var(--x)'>".toList
  obtain ⟨_, played, _⟩ := @document_restored _ Text Id _ _ bodiless "<p>".toList
  obtain ⟨_, _, unstaged⟩ := @document_restored _ Text Id _ _ bodiless "<!doctype var(".toList
  obtain ⟨_, _, forbidden⟩ := @document_restored _ Text Id _ _ bodiless "&#1;x".toList
  obtain ⟨_, ended, _⟩ := unstaged _ unread
  obtain ⟨skipped, _, reported⟩ := forbidden _ unset
  refine ⟨congrArg (·.2) (resolved failing), ?_, ⟨unread, ended failing (by decide), rfl⟩, unset,
    skipped Unit, fun refused => nomatch reported.mpr refused⟩
  intro run ended
  have same := played Unit clearing
  rw [show onStage bodiless "<p>".toList (playing clearing) = .ok run from ended] at same
  exact congrArg (·.2) (Except.ok.inj same)

end ThemeCss.Inline
