import ThemeCss.Proofs.Dark.Passes
import ThemeCss.Proofs.Dark.Session
import ThemeCss.Proofs.Dark.Sheet

/-!
# Sheets that cannot be converted

A conversion fails in one way, where a colour is described that is nearly white. Which sheets that
concerns is read off their text: a declaration that is converted at all calls such a colour outside
the sealed parts of its value, or it is a line or a shadow and its first colour is one. Every other
sheet is converted, whatever its numbers are.
-/
namespace ThemeCss

namespace Theme

theorem failsIff_classify (tuning : Tuning Float) (selector property : Text)
    (colour : Option (Rgb Float)) :
    FailsIff .divisionByZero
      (isSurfaceProperty property = false ∧ isEdgeProperty property = true ∧
        ∃ rgb ∈ colour, Blinds tuning rgb)
      (classify tuning selector property colour) := by
  unfold classify
  dsimp only
  split
  next surface => exact (FailsIff.returned _).congr (by simp [surface])
  next other =>
    split
    next edge =>
      cases colour with
      | none => exact (FailsIff.returned _).congr (by simp)
      | some rgb => exact ((failsIff_edgeRole? tuning rgb).map _).congr (by simp [other, edge])
    next =>
      split
      all_goals exact (FailsIff.returned _).congr (by simp_all)

end Theme

namespace Dark

open Colour Sheet

variable (tuning : Tuning Float)

/-! ### Values -/

/-- A sealed part is not looked into. -/
def Segment.Glares : Segment → Prop
  | .plain content => Dark.Glares content
  | .sealed _ => False

instance : DecidablePred Segment.Glares
  | .plain content => inferInstanceAs (Decidable (Dark.Glares content))
  | .sealed _ => instDecidableFalse

/-- Unless the value is a keyword. -/
def ValueGlares (value : Text) : Prop :=
  keywords.any (Text.isKeyword · (Text.trim value)) = false ∧
    ∃ segment ∈ segments value, segment.Glares

instance (value : Text) : Decidable (ValueGlares value) := inferInstanceAs (Decidable (_ ∧ _))

theorem failsIff_convertValue (role : Role) (value : Text) :
    FailsIff .divisionByZero (ValueGlares value) (convertValue tuning role value) := by
  unfold convertValue ValueGlares
  split
  next keyword => exact (FailsIff.returned _).congr (by simp [keyword])
  next other =>
    have each (segment : Segment) (_ : segment ∈ segments value) :
        FailsIff .divisionByZero segment.Glares (convertSegment tuning role segment) := by
      cases segment with
      | plain content => exact failsIff_convertPlain tuning role content
      | «sealed» content => exact .returned _
    exact ((FailsIff.mapM each).map _).congr (by simp [other])

/-! ### Declarations -/

/-- The declaration is converted, and a colour that is described for it is nearly white. -/
def DeclarationGlares (declaration : Declaration) : Prop :=
  declaration.isMalformed = false ∧ holdsAddress declaration.value = false ∧
    ((Theme.isSurfaceProperty declaration.property = false ∧
        Theme.isEdgeProperty declaration.property = true ∧
        ∃ rgb ∈ firstColour? declaration.value, Theme.Blinds tuning rgb) ∨
      ValueGlares declaration.value)

instance : DecidablePred (DeclarationGlares tuning) := fun _ =>
  inferInstanceAs (Decidable (_ ∧ _ ∧ (_ ∧ _ ∧ (∃ rgb, rgb ∈ firstColour? _ ∧ _) ∨ _)))

theorem failsIff_convertDeclaration (selector : Text) (declaration : Declaration) :
    FailsIff .divisionByZero (DeclarationGlares tuning declaration)
      (convertDeclaration tuning selector declaration) := by
  unfold convertDeclaration DeclarationGlares
  split
  next stays =>
    apply (FailsIff.returned _).congr
    rw [Bool.or_eq_true] at stays
    rcases stays with malformed | address
    · simp [malformed]
    · simp [address]
  next converts =>
    simp only [Bool.or_eq_true, not_or, Bool.not_eq_true] at converts
    have classified := Theme.failsIff_classify tuning selector declaration.property
      (firstColour? declaration.value)
    apply (classified.bind fun role _ =>
      (failsIff_convertValue tuning role declaration.value).map _).congr
    simp [converts]

theorem failsIff_convertDeclarations (selector : Text) (declarations : List Declaration) :
    FailsIff .divisionByZero (∃ declaration ∈ declarations, DeclarationGlares tuning declaration)
      (convertDeclarations tuning selector declarations) :=
  .mapM fun declaration _ => failsIff_convertDeclaration tuning selector declaration

/-! ### Nodes -/

mutual

theorem failsIff_convertNode : ∀ node : Node,
    FailsIff .divisionByZero
      (∃ declaration ∈ node.declarations, DeclarationGlares tuning declaration)
      (convertNode tuning node)
  | .rule selector declarations => (failsIff_convertDeclarations tuning selector declarations).map _
  | .statement _ => (FailsIff.returned _).congr (by simp [Node.declarations])
  | .group _ children => (failsIff_convertNodes children).map _
  | .block prelude body =>
    (failsIff_convertDeclarations tuning prelude (Declaration.parseAll body)).map _

theorem failsIff_convertNodes : ∀ nodes : List Node,
    FailsIff .divisionByZero
      (∃ declaration ∈ Node.allDeclarations nodes, DeclarationGlares tuning declaration)
      (convertNodes tuning nodes)
  | [] => (FailsIff.returned _).congr (by simp [Node.allDeclarations])
  | node :: nodes => by
    have first := failsIff_convertNode node
    have others := failsIff_convertNodes nodes
    apply (first.bind fun _ _ => others.map _).congr
    simp [Node.allDeclarations, or_and_right, exists_or]

end

/-! ### Sheets -/

/-- A declaration in the sheet glares, and the sheet is not marked as dark already. -/
def SheetGlares (css : Text) : Prop :=
  Text.holds conversionMarker css = false ∧
    ∃ declaration ∈ Node.allDeclarations (Sheet.parse css).nodes,
      DeclarationGlares tuning declaration

instance (css : Text) : Decidable (SheetGlares tuning css) := inferInstanceAs (Decidable (_ ∧ _))

theorem failsIff_answer (css : Text) :
    FailsIff .divisionByZero (SheetGlares tuning css) (answer tuning css) := by
  unfold answer SheetGlares
  split
  next marked => exact (FailsIff.returned _).congr (by simp [marked])
  next unmarked =>
    have sheet := (failsIff_convertNodes tuning (Sheet.parse css).nodes).map
      fun nodes => { Sheet.parse css with nodes }
    exact (sheet.map _).congr (by simp [unmarked])

/-- A converter without a past returns the dark form of every sheet in which no colour that it
describes is nearly white. If one is, it divides by zero. -/
theorem convert_returns_unless_glares {converter : Converter} (fresh : converter.Fresh)
    (css : Text) :
    if SheetGlares converter.tuning css then (converter.convert css).1 = .error .divisionByZero
    else ∃ out, (converter.convert css).1 = .ok out := by
  have fails := failsIff_answer converter.tuning css
  rw [Converter.convert_of_fresh fresh]
  split
  next glares => exact fails.error glares
  next dim => exact fails.ok dim

/-- Between full channels, the double next to full. -/
def glaring : Sheet where
  nodes := [.rule "p".toList [⟨"color".toList, "rgb(255, 254.99999999999997, 255)".toList, false⟩]]
  trailing := []

theorem write_glaring : glaring.write = "p{color: rgb(255, 254.99999999999997, 255)}".toList := by
  decide

theorem convert_glaring :
    Converter.standard.Fresh ∧
    SheetGlares Converter.standard.tuning "p{color: rgb(255, 254.99999999999997, 255)}".toList ∧
    (Converter.standard.convert "p{color: rgb(255, 254.99999999999997, 255)}".toList).1
      = .error .divisionByZero := by
  rw [← write_glaring]
  have wellFormed : glaring.WellFormed := by decide
  have read : Sheet.parse glaring.write = glaring := by
    rw [parse_of_commentFree (commentFree_write wellFormed), readNodes_write wellFormed]
  have glares : SheetGlares Converter.standard.tuning glaring.write := by
    rw [SheetGlares, read]
    constructor
    · decide
    · decide +kernel
  have failed := convert_returns_unless_glares fresh_standard glaring.write
  rw [if_pos glares] at failed
  exact ⟨fresh_standard, glares, failed⟩

end Dark
end ThemeCss
