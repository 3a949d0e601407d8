import ThemeCss.Inline.Resolve

/-!
# The walk as a function

The walk over staged markup rewrites it in place and may fail at any element, for want of a live
value or because of a style that no document takes. What it comes to is told by a walk that answers
new markup or fails as a whole: a run in place ends as that one does, and with the same markup.
-/
namespace ThemeCss.Inline

open Markup Variables

variable [Library] {Failure : Type} {m : Type → Type} [Monad m]

mutual

def resolveMarkup (live : LiveStyle Failure m) (scope : Definitions) :
    Markup → Walk Failure m Markup
  | .element tag children => do
    let (tag, inner) ← resolveTag live scope tag
    return .element tag (← resolveForest live inner children)
  | markup => pure markup

def resolveForest (live : LiveStyle Failure m) (scope : Definitions) :
    List Markup → Walk Failure m (List Markup)
  | [] => pure []
  | markup :: forest => do
    let markup ← resolveMarkup live scope markup
    return markup :: (← resolveForest live scope forest)

end

variable [LawfulMonad m] (live : LiveStyle Failure m)

mutual

/-- The walk in place ends as the walk that answers new markup, and with the same markup. -/
theorem resolveMarkup_run (scope : Definitions) : (markup : Markup) →
    (resolveMarkup live scope markup).run
      = (fun (markup, ending) => ending.map fun () => markup) <$> walkMarkup live scope markup
  | .element tag children => by
    rw [resolveMarkup, walkMarkup, ExceptT.run_bind, map_bind]
    apply bind_congr
    rintro (cause | ⟨settled, inner⟩)
    · simp [Except.map]
    · have deeper := resolveForest_run inner children
      simp only [ExceptT.run_bind, deeper, bind_map_left, map_bind]
      apply bind_congr
      rintro ⟨forest, _ | _⟩ <;> simp [Except.map]
  | .text content | .comment content => by simp [resolveMarkup, walkMarkup, Except.map]

theorem resolveForest_run (scope : Definitions) : (forest : List Markup) →
    (resolveForest live scope forest).run
      = (fun (forest, ending) => ending.map fun () => forest) <$> walkForest live scope forest
  | [] => by simp [resolveForest, walkForest, Except.map]
  | markup :: forest => by
    have first := resolveMarkup_run scope markup
    have behind := resolveForest_run scope forest
    rw [resolveForest, walkForest, ExceptT.run_bind, first, bind_map_left, map_bind]
    apply bind_congr
    rintro ⟨walked, cause | _⟩
    · simp [Except.map]
    · simp only [Except.map, ExceptT.run_bind, behind, bind_map_left, map_bind]
      apply bind_congr
      rintro ⟨others, _ | _⟩ <;> simp

end

end ThemeCss.Inline
