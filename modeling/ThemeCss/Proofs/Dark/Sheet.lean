import ThemeCss.Proofs.Dark.Value
import ThemeCss.Proofs.Pipeline.Marker
import ThemeCss.Proofs.Sheet.RoundTrip

/-!
# Converted sheets

A conversion gives back text. Read again, that text is the tree of the sheet with its values
converted and nothing else changed: repainting keeps what makes a declaration readable, so a
converted sheet is as well-formed as the sheet it came from, and it is read back from its written
form.
-/
namespace ThemeCss

namespace Sheet

/-- Well-formed, and no brace and no backslash in the value. -/
def Declaration.Convertible (declaration : Declaration) : Prop :=
  declaration.WellFormed ∧ Text.Avoids ['{', '}', '\\'] declaration.value

instance (declaration : Declaration) : Decidable declaration.Convertible :=
  inferInstanceAs (Decidable (_ ∧ _))

mutual

def Node.declarations : Node → List Declaration
  | .rule _ declarations => declarations
  | .statement _ => []
  | .group _ children => Node.allDeclarations children
  | .block _ body => Declaration.parseAll body

/-- The declarations of rules and of bodies that are not read further. -/
def Node.allDeclarations : List Node → List Declaration
  | [] => []
  | node :: nodes => node.declarations ++ Node.allDeclarations nodes

end

/-- A sheet that is read back, with declarations that a conversion can read. -/
def Convertible (sheet : Sheet) : Prop :=
  sheet.WellFormed ∧ ∀ declaration ∈ Node.allDeclarations sheet.nodes, declaration.Convertible

instance (sheet : Sheet) : Decidable sheet.Convertible := inferInstanceAs (Decidable (_ ∧ _))

end Sheet

namespace Dark

open Scan Sheet

/-- What conversion makes of a declaration under a selector or a prelude: a value with an address
stays, any other is converted for the role it is classified as. -/
structure Recoloured (tuning : Tuning Float) (heading : Text) (old new : Declaration) : Prop where
  property : new.property = old.property
  important : new.important = old.important
  kept : holdsAddress old.value = true → new.value = old.value
  converted : holdsAddress old.value = false →
    ∃ role, Theme.classify tuning heading old.property (Colour.firstColour? old.value) = .ok role ∧
      convertValue tuning role old.value = .ok new.value

mutual

/-- The same node, but for the values of its declarations. -/
inductive RecolouredNode (tuning : Tuning Float) : Node → Node → Prop where
  | rule (selector : Text) {olds news : List Declaration} :
      List.Forall₂ (Recoloured tuning selector) olds news →
        RecolouredNode tuning (.rule selector olds) (.rule selector news)
  | statement (prelude : Text) : RecolouredNode tuning (.statement prelude) (.statement prelude)
  | group (prelude : Text) {olds news : List Node} :
      RecolouredNodes tuning olds news →
        RecolouredNode tuning (.group prelude olds) (.group prelude news)
  | block (prelude : Text) {old new : Text} :
      List.Forall₂ (Recoloured tuning prelude) (Declaration.parseAll old)
          (Declaration.parseAll new) →
        RecolouredNode tuning (.block prelude old) (.block prelude new)

/-- The same nodes in the same order. -/
inductive RecolouredNodes (tuning : Tuning Float) : List Node → List Node → Prop where
  | nil : RecolouredNodes tuning [] []
  | cons {old new : Node} {olds news : List Node} :
      RecolouredNode tuning old new → RecolouredNodes tuning olds news →
        RecolouredNodes tuning (old :: olds) (new :: news)

end

/-! ### Declarations -/

variable {tuning : Tuning Float}

/-- Repainting keeps a declaration convertible. -/
theorem convertible_of_repainted {old : Declaration} (convertible : old.Convertible) {value : Text}
    (repainted : Repainted .code old.value value) :
    Declaration.Convertible { old with value := value } := by
  obtain ⟨wellFormed, free⟩ := convertible
  have freeNew := repainted.avoids (by decide) free
  refine ⟨?_, freeNew⟩
  exact
    { named := wellFormed.named
      property := wellFormed.property
      free := wellFormed.free
      valued := mt repainted.eq_nil_iff.mp wellFormed.valued
      value := ⟨repainted.starts wellFormed.value.starts, repainted.ends wellFormed.value.ends⟩
      closed := repainted.after_eq.trans wellFormed.closed
      round := (repainted.depth?_eq 0).trans wellFormed.round
      curly := Bracket.balanced_of_free fun c member =>
        ⟨fun same => freeNew c member (by simp [same, Bracket.curly]),
          fun same => freeNew c member (by simp [same, Bracket.curly])⟩
      uncut := repainted.solid wellFormed.uncut
      unmarked := repainted.unmarked wellFormed.unmarked
      commentFree := ⟨wellFormed.commentFree.1, repainted.commentFree wellFormed.commentFree.2⟩ }

theorem convertDeclaration_sound {heading : Text} {old new : Declaration}
    (convertible : old.Convertible) (converted : convertDeclaration tuning heading old = .ok new) :
    new.Convertible ∧ Recoloured tuning heading old new := by
  have wellFormed := convertible.1.readable.wellFormed
  unfold convertDeclaration at converted
  rw [wellFormed, Bool.false_or] at converted
  split at converted
  next address =>
    obtain rfl : old = new := Except.ok.inj converted
    exact ⟨convertible, rfl, rfl, fun _ => rfl, fun none => absurd address (by simp [none])⟩
  next address =>
    obtain ⟨role, classified, rest⟩ := Text.exists_of_bind_ok converted
    obtain ⟨value, painted, same⟩ := Text.exists_of_bind_ok rest
    obtain rfl : { old with value := value } = new := Except.ok.inj same
    have backslash : '\\' ∉ old.value := fun member => convertible.2 _ member (by decide)
    have repainted := repainted_convertValue convertible.1.closed backslash painted
    refine ⟨convertible_of_repainted convertible repainted, rfl, rfl, ?_, ?_⟩
    · intro held
      exact absurd held address
    · intro _
      exact ⟨role, classified, painted⟩

theorem convertDeclarations_sound {heading : Text} {olds news : List Declaration}
    (convertible : ∀ declaration ∈ olds, declaration.Convertible)
    (converted : convertDeclarations tuning heading olds = .ok news) :
    (∀ declaration ∈ news, declaration.Convertible) ∧
      List.Forall₂ (Recoloured tuning heading) olds news := by
  have each := Text.mapM_ok_iff.mp converted
  clear converted
  induction each with
  | nil => exact ⟨by simp, .nil⟩
  | cons first _ ih =>
    simp only [List.forall_mem_cons] at convertible ⊢
    obtain ⟨newConvertible, recoloured⟩ := convertDeclaration_sound convertible.1 first
    obtain ⟨others, related⟩ := ih convertible.2
    exact ⟨⟨newConvertible, others⟩, .cons recoloured related⟩

/-- A body written from convertible declarations is read no further. -/
theorem isRawBody_writeAll {declarations : List Declaration}
    (convertible : ∀ declaration ∈ declarations, declaration.Convertible) :
    IsRawBody (Declaration.writeAll declarations) := by
  have wellFormed : ∀ declaration ∈ declarations, declaration.WellFormed :=
    fun declaration member =>
    (convertible declaration member).1
  have free : '{' ∉ Declaration.writeAll declarations := by
    apply Text.intercalate_induction (P := ('{' ∉ ·)) (by simp) (by simp_all) (by decide)
    intro part listed
    obtain ⟨declaration, member, rfl⟩ := List.mem_map.mp listed
    intro held
    rcases Declaration.mem_write held with named | valued | marked
    · exact (wellFormed declaration member).free _ named (by decide)
    · exact (convertible declaration member).2 _ valued (by decide)
    · exact absurd marked (by decide)
  constructor
  · exact Declaration.trimmed_writeAll wellFormed
  · exact Declaration.commentFree_writeAll wellFormed
  · exact hasNestedBlock_of_free free
  · exact closing?_iff_paired.mpr (Declaration.paired_writeAll wellFormed)

/-! ### Nodes -/

theorem RecolouredNode.isStatement_eq {old new : Node}
    (recoloured : RecolouredNode tuning old new) :
    new.isStatement = old.isStatement := by
  cases recoloured <;> rfl

theorem RecolouredNodes.exists_block {olds news : List Node}
    (recoloured : RecolouredNodes tuning olds news)
    (block : ∃ node ∈ olds, node.isStatement = false) :
    ∃ node ∈ news, node.isStatement = false := by
  induction olds generalizing news with
  | nil => simp at block
  | cons old olds ih =>
    cases recoloured with
    | @cons _ new _ news first others =>
      obtain ⟨node, member, kind⟩ := block
      rcases List.mem_cons.mp member with rfl | later
      · exact ⟨new, List.mem_cons_self .., first.isStatement_eq.trans kind⟩
      · obtain ⟨other, listed, same⟩ := ih others ⟨node, later, kind⟩
        exact ⟨other, List.mem_cons_of_mem _ listed, same⟩

mutual

/-- A converted node is well-formed and the old one recoloured. -/
theorem convertNode_sound : ∀ {old new : Node}, old.WellFormed →
    (∀ declaration ∈ old.declarations, declaration.Convertible) → convertNode tuning old = .ok new →
      new.WellFormed ∧ RecolouredNode tuning old new
  | .rule selector olds, new, ⟨isSelector, _⟩, convertible, converted => by
    obtain ⟨news, returned, same⟩ := Text.exists_of_bind_ok converted
    obtain rfl : Node.rule selector news = new := Except.ok.inj same
    obtain ⟨each, recoloured⟩ := convertDeclarations_sound convertible returned
    constructor
    · exact ⟨isSelector, fun declaration member => (each declaration member).1⟩
    · exact .rule selector recoloured
  | .statement prelude, new, wellFormed, _, converted => by
    obtain rfl : Node.statement prelude = new := Except.ok.inj converted
    exact ⟨wellFormed, .statement prelude⟩
  | .group prelude olds, new, ⟨isPrelude, block, each⟩, convertible, converted => by
    obtain ⟨news, returned, same⟩ := Text.exists_of_bind_ok converted
    obtain rfl : Node.group prelude news = new := Except.ok.inj same
    obtain ⟨newEach, recoloured⟩ := convertNodes_sound each convertible returned
    constructor
    · exact ⟨isPrelude, recoloured.exists_block block, newEach⟩
    · exact .group prelude recoloured
  | .block prelude body, new, ⟨isPrelude, _⟩, convertible, converted => by
    obtain ⟨news, returned, same⟩ := Text.exists_of_bind_ok converted
    obtain rfl : Node.block prelude (Declaration.writeAll news) = new := Except.ok.inj same
    obtain ⟨each, recoloured⟩ := convertDeclarations_sound convertible returned
    have read := Declaration.parseAll_writeAll_of_wellFormed fun declaration member =>
      (each declaration member).1
    constructor
    · exact ⟨isPrelude, isRawBody_writeAll each⟩
    · exact .block prelude (by rwa [read])

theorem convertNodes_sound : ∀ {olds news : List Node}, Node.AllWellFormed olds →
    (∀ declaration ∈ Node.allDeclarations olds, declaration.Convertible) →
      convertNodes tuning olds = .ok news →
        Node.AllWellFormed news ∧ RecolouredNodes tuning olds news
  | [], news, _, _, converted => by
    obtain rfl : [] = news := Except.ok.inj converted
    exact ⟨trivial, .nil⟩
  | old :: olds, news, ⟨wellFormed, others⟩, convertible, converted => by
    simp only [Node.allDeclarations, List.forall_mem_append] at convertible
    obtain ⟨new, first, rest⟩ := Text.exists_of_bind_ok converted
    obtain ⟨tail, later, same⟩ := Text.exists_of_bind_ok rest
    obtain rfl : new :: tail = news := Except.ok.inj same
    obtain ⟨newWellFormed, recoloured⟩ := convertNode_sound wellFormed convertible.1 first
    obtain ⟨tailWellFormed, related⟩ := convertNodes_sound others convertible.2 later
    exact ⟨⟨newWellFormed, tailWellFormed⟩, .cons recoloured related⟩

end

/-! ### Sheets -/

end Dark
end ThemeCss
