import ThemeCss.Proofs.Inline.Agreement
import ThemeCss.Proofs.Sheet.Upright

/-!
# Three ways of writing declarations

A list of declarations is written in three ways: compactly into the block of a rule, with a
semicolon behind each into a style, and with blanks into a rule that was rewritten. One reader takes
all three back. It cuts at semicolons in the open, so the only thing asked of a declaration is that
its name holds nothing a scan heeds and its value leaves nothing open; what joins the declarations
does not matter.
-/
namespace ThemeCss

namespace Sheet.Declaration

open Scan Variables

/-- What can be written in every way: a trimmed name without the characters that a scan heeds, in
lower case unless it is custom, and a trimmed value that closes its strings and parentheses, has no
semicolon in the open and does not end in an importance mark. -/
structure Portable (declaration : Declaration) : Prop where
  named : declaration.property ≠ []
  property : Text.Trimmed declaration.property
  free : Text.Avoids [':', ';', '(', ')', '\'', '"', '\\'] declaration.property
  lower : declaration.isCustom = false → Text.lower declaration.property = declaration.property
  valued : declaration.value ≠ []
  value : Text.Trimmed declaration.value
  closed : Closed declaration.value
  balanced : Bracket.round.Balanced declaration.value
  uncut : solid 0 .code declaration.value = true
  unmarked : dropImportant? declaration.value = none

instance (declaration : Declaration) : Decidable declaration.Portable :=
  decidable_of_iff (declaration.property ≠ [] ∧ Text.Trimmed declaration.property ∧
      Text.Avoids [':', ';', '(', ')', '\'', '"', '\\'] declaration.property ∧
      (declaration.isCustom = false →
        Text.lower declaration.property = declaration.property) ∧
      declaration.value ≠ [] ∧ Text.Trimmed declaration.value ∧ Closed declaration.value ∧
      Bracket.round.Balanced declaration.value ∧ solid 0 .code declaration.value = true ∧
      dropImportant? declaration.value = none)
    ⟨fun ⟨named, property, free, lower, valued, value, closed, balanced, uncut, unmarked⟩ =>
        ⟨named, property, free, lower, valued, value, closed, balanced, uncut, unmarked⟩,
      fun ⟨named, property, free, lower, valued, value, closed, balanced, uncut, unmarked⟩ =>
        ⟨named, property, free, lower, valued, value, closed, balanced, uncut, unmarked⟩⟩

namespace Portable

variable {declaration : Declaration} (portable : declaration.Portable)
include portable

theorem readable : declaration.Readable where
  named := portable.named
  property := portable.property
  colonFree := fun member => portable.free _ member (by decide)
  valued := portable.valued
  value := portable.value
  mark := .inr portable.unmarked

theorem whole_write : Whole declaration.write := by
  apply portable.readable.whole_write
  · exact inert_of_avoids (portable.free.of_subset (by decide))
  · exact ⟨portable.uncut, nestingAfter_of_balanced portable.balanced, portable.closed⟩

theorem lowerProperty : Inline.lowerProperty declaration = declaration := by
  rw [Inline.lowerProperty]
  split
  next => rfl
  next regular => rw [portable.lower (by simpa using regular)]

end Portable

/-- The body of a rule that was rewritten: blanks around, a semicolon and a blank behind each. -/
def writePadded (declarations : List Declaration) : Text :=
  [' '] ++ (Text.join [';', ' '] (declarations.map write) ++ [';', ' '])

/-- A declaration that the pass over innermost rules keeps: not custom, and without braces. -/
structure Plain (declaration : Declaration) : Prop where
  regular : declaration.isCustom = false
  braceFree : declaration.BraceFree

section list

variable {declarations : List Declaration}
  (portable : ∀ declaration ∈ declarations, declaration.Portable)
include portable

theorem parseAll_writeAll_of_portable : parseAll (writeAll declarations) = declarations :=
  parseAll_writeAll (fun declaration member => (portable declaration member).readable)
    fun declaration member => (portable declaration member).whole_write

theorem parseAll_writePadded : parseAll (writePadded declarations) = declarations := by
  have blank : Text.Blank [' '] := by decide
  rw [writePadded, parseAll_blank_append blank]
  by_cases none : declarations = []
  -- Without declarations only a semicolon is left, and no chunk in front of it or behind it.
  · subst none
    have nothing := chunks_whole whole_nil [' ']
    rw [chunks_of_blank blank] at nothing
    exact congrArg (List.map parse) nothing
  · have readable := fun declaration member => (portable declaration member).readable
    rw [parseAll_join_append blank none fun declaration member =>
      (portable declaration member).whole_write, flatMap_reread_of_readable readable]

variable (plain : ∀ declaration ∈ declarations, declaration.Plain)
include plain

theorem kept_writeAll : kept (writeAll declarations) = declarations := by
  rw [kept, parseAll_writeAll_of_portable portable, List.filter_eq_self]
  intro declaration member
  rw [(plain declaration member).regular]
  rfl

omit portable in
theorem braceFree_writeAll : Variables.BraceFree (writeAll declarations) := by
  apply Variables.BraceFree.join (by decide)
  rw [List.forall_mem_map]
  intro declaration member
  obtain ⟨property, value⟩ := (plain declaration member).braceFree
  exact braceFree_write_of_parts property value

theorem rewriteRule_writeAll (selector : Text) :
    rewriteRule selector (writeAll declarations)
      = if declarations = [] then selector.takeWhile Text.isBlank
        else Layout.spellBlock (selector.takeWhile Text.isBlank ++ Text.trim selector ++ [' '])
          (writePadded declarations) := by
  -- The pass on layouts says what is written; here its rule stands alone.
  have spelled := Layout.spell_keepRule selector (writeAll declarations) (.tail [])
  rw [Layout.keepRule, keptBody, kept_writeAll portable plain] at spelled
  simp only [Layout.spell, List.append_nil] at spelled
  rw [← spelled]
  split
  · simp [Layout.spell]
  · simp [Layout.spell, Layout.spellBlock, writePadded]

omit portable in
/-- The pass over innermost rules meets the compact form as one rule. -/
theorem dropDeclarations_writeAll {selector : Text} (free : Undelimited selector) :
    dropDeclarations (Layout.spellBlock selector (writeAll declarations))
      = rewriteRule selector (writeAll declarations) := by
  refine (rewrite_rules_rule _ free (braceFree_writeAll plain) []).trans ?_
  rw [Text.rewrite_nil, List.append_nil]

end list

end Sheet.Declaration

namespace Inline

open Scan Sheet Variables

/-- The reader takes back what any of the three writers has written: the compact form of a block, a
style, and the padded body. The last is what the pass over rules makes of the compact form, if it
keeps the declarations. -/
theorem writers_reread {declarations : List Declaration}
    (portable : ∀ declaration ∈ declarations, declaration.Portable) :
    Declaration.parseAll (Declaration.writeAll declarations) = declarations ∧
    parse (write declarations) = declarations ∧
    Declaration.parseAll (Declaration.writePadded declarations) = declarations ∧
    ((∀ declaration ∈ declarations, declaration.Plain) → ∀ selector,
      rewriteRule selector (Declaration.writeAll declarations)
        = (if declarations = [] then selector.takeWhile Text.isBlank
          else Layout.spellBlock
            (selector.takeWhile Text.isBlank ++ Text.trim selector ++ [' '])
            (Declaration.writePadded declarations)) ∧
      (Undelimited selector →
        dropDeclarations (Layout.spellBlock selector (Declaration.writeAll declarations))
          = rewriteRule selector (Declaration.writeAll declarations))) := by
  refine ⟨Declaration.parseAll_writeAll_of_portable portable, ?style,
    Declaration.parseAll_writePadded portable, fun plain selector => ⟨?_, fun free => ?_⟩⟩
  case style =>
    apply parse_write_of_readable
    · exact fun declaration member => (portable declaration member).readable
    · exact fun declaration member => (portable declaration member).lowerProperty
    · exact fun declaration member => (portable declaration member).whole_write
  · exact Declaration.rewriteRule_writeAll portable plain selector
  · exact Declaration.dropDeclarations_writeAll plain free

/-- Semicolons in a string and in a data address, an importance mark inside a string, a colon and
odd spacing survive; a list without custom properties also in a rule that is rewritten. -/
theorem writers_reread_awkward :
    let plain : List Declaration :=
      [⟨"background".toList, "url(data:a;b)  ! x".toList, true⟩,
        ⟨"content".toList, "\"a;b: !important\"".toList, false⟩]
    let custom : Declaration := ⟨"--X".toList, "c:d".toList, false⟩
    Declaration.parseAll (Declaration.writeAll (custom :: plain)) = custom :: plain ∧
    parse (write (custom :: plain)) = custom :: plain ∧
    Declaration.parseAll (Declaration.writePadded (custom :: plain)) = custom :: plain ∧
    dropDeclarations (Layout.spellBlock "\np".toList (Declaration.writeAll plain))
      = Layout.spellBlock "\np ".toList (Declaration.writePadded plain) := by
  intro plain custom
  have portable : ∀ declaration ∈ custom :: plain, declaration.Portable := by decide
  have rest : ∀ declaration ∈ plain, declaration.Portable :=
    fun declaration member => portable declaration (List.mem_cons_of_mem _ member)
  -- The custom property is among what is read back; the pass over rules would drop it.
  obtain ⟨compact, style, padded, -⟩ := writers_reread portable
  obtain ⟨-, -, -, rule⟩ := writers_reread rest
  refine ⟨compact, style, padded, ?_⟩
  have kept : ∀ declaration ∈ plain, declaration.Plain := by
    simp only [plain, List.forall_mem_cons]
    exact ⟨⟨rfl, by decide, by decide⟩, ⟨rfl, by decide, by decide⟩, by simp⟩
  obtain ⟨rewritten, dropped⟩ := rule kept "\np".toList
  rw [dropped (by decide), rewritten]
  rfl

end Inline
end ThemeCss
