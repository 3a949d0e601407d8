import ThemeCss.Inline.Resolve
import ThemeCss.Proofs.Lint.Undecoded

/-!
# Where a style is written

A library writes the start tag of an element with its style as an attribute: in quotes, and with
some characters as references. What the program publishes is written node by node, so the style of
every element of a forest stands in it.
-/
namespace ThemeCss.Inline

open Lint Markup Scan

/-- An element with this tag stands in the forest, at its top or below. -/
inductive Within (tag : Tag) : List Markup → Prop
  | here {forest children : List Markup} (listed : .element tag children ∈ forest) :
      Within tag forest
  | inside {forest children : List Markup} {other : Tag}
      (listed : .element other children ∈ forest) (within : Within tag children) :
      Within tag forest

/-- A style with this shade as an attribute, behind what stands before it in its tag. The quotes
around what is written do not occur in it. -/
def IsStyle (style shade entry : Text) : Prop :=
  ∃ quote written, entry = ' ' :: styleName ++ '=' :: quote :: (written ++ [quote]) ∧
    Mode.isQuote quote = true ∧ quote ∉ written ∧ Encoded style shade written

theorem exists_mem_nodes {forest : List Markup} {tag : Tag} {children : List Markup}
    (listed : .element tag children ∈ forest) :
    ∃ tail, (.element tag children, tail) ∈ nodes forest := by
  induction forest with
  | nil => cases listed
  | cons markup forest ih =>
    rcases List.mem_cons.mp listed with rfl | later
    · exact ⟨_, List.mem_cons_self ..⟩
    · obtain ⟨tail, found⟩ := ih later
      cases markup with
      | text => exact ⟨tail, found⟩
      | comment | element => exact ⟨tail, List.mem_cons_of_mem _ found⟩

/-- What stands in a forest stands in one of its nodes. -/
theorem Within.exists_node {tag : Tag} {forest : List Markup} (within : Within tag forest) :
    ∃ node ∈ nodes forest, Within tag [node.1] := by
  cases within with
  | here listed =>
    obtain ⟨tail, found⟩ := exists_mem_nodes listed
    exact ⟨_, found, .here (List.mem_singleton_self _)⟩
  | inside listed within =>
    obtain ⟨tail, found⟩ := exists_mem_nodes listed
    exact ⟨_, found, .inside (List.mem_singleton_self _) within⟩

variable [Library]

/-- The styles of a node are written: each stands as an attribute in a tag. -/
def WritesStyles (markup : Markup) (tail : Text) : Prop :=
  ∀ tag style, Within tag [markup] → tag.value? styleName = some style → style ≠ [] →
    ∃ before entry after shade, Library.write markup tail = before ++ (entry ++ after) ∧
      '<' ∈ before ∧ IsStyle style shade entry

/-- A style of a forest is published if its node is written with it. -/
theorem Within.exists_publish {tag : Tag} {forest : List Markup} (within : Within tag forest)
    {style : Text} (styled : tag.value? styleName = some style) (ink : style ≠ [])
    (writes : ∀ node ∈ nodes forest, WritesStyles node.1 node.2) :
    ∃ before entry after shade, publish forest = before ++ (entry ++ after) ∧
      '<' ∈ before ∧ IsStyle style shade entry := by
  obtain ⟨⟨markup, tail⟩, listed, inside⟩ := within.exists_node
  obtain ⟨before, entry, after, shade, written, bracket, isStyle⟩ :=
    writes _ listed tag style inside styled ink
  obtain ⟨first, others, parts⟩ := List.append_of_mem listed
  refine ⟨escape ((leadingText? forest).getD [])
      ++ (first.flatMap fun node => Library.write node.1 node.2) ++ before,
    entry, after ++ others.flatMap fun node => Library.write node.1 node.2, shade,
    ?_, List.mem_append_right _ bracket, isStyle⟩
  rw [publish, parts, List.flatMap_append, List.flatMap_cons]
  simp only [written]
  simp

end ThemeCss.Inline
