import ThemeCss.Proofs.Variables.Drop

/-!
# Declarations in place

What a sheet says is the sequence of its regular declarations, each with its selector and the
preludes around it. Bare declarations, and those of an at-rule without further blocks, apply to
everything. Dropping custom properties from a layout keeps this sequence.
-/
namespace ThemeCss.Sheet

open Variables

/-- A declaration with the rule it stands in and the preludes around that, outermost first. -/
structure Placed where
  preludes : List Text
  selector : Text
  declaration : Declaration
  deriving DecidableEq, Repr

/-- The regular declarations of one block. -/
def place (preludes : List Text) (selector : Text) (declarations : List Declaration) :
    List Placed :=
  (declarations.filter (·.isRegular)).map (⟨preludes, selector, ·⟩)

mutual

def Node.placed (preludes : List Text) : Node → List Placed
  | .rule selector declarations => place preludes selector declarations
  | .statement _ => []
  | .group prelude children => Node.placedAll (preludes ++ [prelude]) children
  | .block prelude body => place (preludes ++ [prelude]) anySelector (Declaration.parseAll body)

/-- The regular declarations of nodes, in document order. -/
def Node.placedAll (preludes : List Text) : List Node → List Placed
  | [] => []
  | node :: nodes => node.placed preludes ++ Node.placedAll preludes nodes

end

/-- Custom declarations are not regular. -/
theorem filter_kept (body : Text) :
    (kept body).filter (·.isRegular) = (Declaration.parseAll body).filter (·.isRegular) := by
  rw [kept, List.filter_filter]
  congr 1
  funext declaration
  cases custom : declaration.isCustom <;> simp [Declaration.isRegular, custom]

theorem place_eq_of_filter {first second : List Declaration}
    (same : first.filter (·.isRegular) = second.filter (·.isRegular)) (preludes : List Text)
    (selector : Text) : place preludes selector first = place preludes selector second := by
  rw [place, place, same]

theorem filter_flatMap_reread {declarations : List Declaration}
    (each : ∀ declaration ∈ declarations,
      declaration.reread.filter (·.isRegular) = [declaration].filter (·.isRegular)) :
    (declarations.flatMap Declaration.reread).filter (·.isRegular)
      = declarations.filter (·.isRegular) := by
  induction declarations with
  | nil => rfl
  | cons declaration rest ih =>
    simp only [List.forall_mem_cons] at each
    rw [List.flatMap_cons, List.filter_append, each.1, ih each.2, ← List.filter_append,
      List.singleton_append]

/-- A kept body is read as the body was, but for custom declarations. -/
theorem filter_keptBody {body : Text}
    (contained : ∀ declaration ∈ kept body, declaration.Contained) (some : kept body ≠ []) :
    (Declaration.parseAll (keptBody body)).filter (·.isRegular)
      = (Declaration.parseAll body).filter (·.isRegular) := by
  -- The kept declarations are written and read again, and of these the regular ones survive.
  rw [parseAll_keptBody contained some, ← filter_kept]
  apply filter_flatMap_reread
  intro declaration member
  have single := (contained declaration member).single
  obtain ⟨chunk, _, _, rfl⟩ := exists_of_mem_kept member
  exact Declaration.filter_reread single

namespace Layout

theorem tailNodes_blank_append {blanks : Text} (blank : Text.Blank blanks) (content : Text) :
    tailNodes (blanks ++ content) = tailNodes content := by
  simp only [tailNodes, Text.trimLeft_blank_append blank, opensAt_blank_append blank,
    Text.trim_blank_append blank, Declaration.parseAll_blank_append blank]

theorem nodes_pad {blanks : Text} (blank : Text.Blank blanks) (layout : Layout) :
    (layout.pad blanks).nodes = layout.nodes := by
  cases layout with
  | tail content => exact tailNodes_blank_append blank content
  | statement prelude rest => simp only [pad, nodes, Text.trim_blank_append blank]
  | rule selector body rest =>
    simp only [pad, nodes, ruleNode, opensAt_blank_append blank, Text.trim_blank_append blank]
  | group prelude inner rest => simp only [pad, nodes, Text.trim_blank_append blank]

/-- An at-rule places what stands in it, whether or not blocks are left there. -/
theorem placed_groupNode {inner : Layout} (parts : inner.Sealed) (preludes : List Text)
    (prelude : Text) :
    (groupNode prelude inner).placed preludes
      = Node.placedAll (preludes ++ [Text.trim prelude]) inner.nodes := by
  cases block : inner.hasBlock with
  | true => simp [groupNode, block, Node.placed]
  -- Without a block the body is raw text, which places its declarations bare as a tail does.
  | false =>
    rw [groupNode, block, if_neg (by simp), Node.placed, Declaration.parseAll_trim]
    obtain ⟨content, rfl⟩ : ∃ content, inner = .tail content :=
      ⟨_, eq_tail_of_hasBlock_eq_false parts block⟩
    simp only [nodes, spell, tailNodes]
    split
    next blank =>
      rw [Declaration.parseAll_of_blank (Text.blank_of_trimLeft_eq_nil blank)]
      rfl
    next => simp [parts.2, Node.placedAll, Node.placed]

/-- A rule says the same without its custom properties. -/
theorem placed_keepRule {selector body : Text}
    (contained : ∀ declaration ∈ kept body, declaration.Contained) (preludes : List Text)
    (rest : Layout) :
    Node.placedAll preludes (keepRule selector body rest).nodes
      = (ruleNode selector body).placed preludes ++ Node.placedAll preludes rest.nodes := by
  -- A rule of custom properties only goes, and it placed nothing.
  by_cases nothing : kept body = []
  · have none : (Declaration.parseAll body).filter (·.isRegular) = [] := by
      rw [← filter_kept, nothing]
      rfl
    have unplaced : (ruleNode selector body).placed preludes = [] := by
      rw [ruleNode]
      split
      · rw [Node.placed, Declaration.parseAll_trim, place, none]
        rfl
      · rw [Node.placed, place, none]
        rfl
    rw [keepRule, if_pos nothing, nodes_pad (Text.blank_takeWhile selector), unplaced]
    rfl
  · have same := filter_keptBody contained nothing
    rw [keepRule, if_neg nothing, nodes, Node.placedAll, ruleNode, ruleNode, opensAt_padded,
      trim_padded]
    split
    · rw [Node.placed, Node.placed, Declaration.parseAll_trim, Declaration.parseAll_trim,
        place_eq_of_filter same]
    · rw [Node.placed, Node.placed, place_eq_of_filter same]

/-- Dropping custom properties keeps every regular declaration in its place. -/
theorem placed_dropRules {layout : Layout} (fits : layout.Fits) (steady : layout.Steady)
    (preludes : List Text) :
    Node.placedAll preludes layout.dropRules.nodes = Node.placedAll preludes layout.nodes := by
  induction layout generalizing preludes with
  | tail content => rfl
  | statement prelude rest ih =>
    simp only [dropRules, nodes, Node.placedAll, ih fits.2.2 steady]
  | rule selector body rest ih =>
    obtain ⟨contained, restSteady⟩ := steady_rule steady
    rw [dropRules, placed_keepRule contained, ih fits.2.2.2 restSteady]
    rfl
  | group prelude inner rest ihInner ihRest =>
    obtain ⟨free, opens, innerFits, innerSealed, restFits⟩ := fits
    obtain ⟨innerSteady, restSteady⟩ := steady_group steady
    rw [dropRules, nodes_group, Node.placedAll]
    -- A group without blocks is rewritten as a rule is, and its node is that of a rule.
    split
    next block =>
      rw [if_pos block] at innerSteady
      rw [nodes_group, Node.placedAll, placed_groupNode (sealed_dropRules innerSealed),
        placed_groupNode innerSealed, ihInner innerFits innerSteady, ihRest restFits restSteady]
    next plain =>
      rw [if_neg plain] at innerSteady
      have same : groupNode prelude inner = ruleNode prelude inner.spell := by
        rw [groupNode, if_neg plain, ruleNode, if_pos opens]
      rw [placed_keepRule innerSteady, ihRest restFits restSteady, same]

end Layout
end ThemeCss.Sheet
