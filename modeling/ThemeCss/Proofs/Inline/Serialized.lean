import ThemeCss.Markup.Html
import ThemeCss.Proofs.Inline.Written

/-!
# Styles as the library in use writes them

A style is escaped and put in quotes of the kind that it does not hold. If it holds both kinds, it
is put in double ones, and its own double ones are written as references too. Nodes that declare no
content type are written whole, with the styles in them.
-/
namespace ThemeCss.Text

theorem dropWord?_of_not_holds {word text suffix : Text} (free : holds word text = false)
    (tail : suffix <:+ text) : dropWord? word suffix = none := by
  cases found : dropWord? word suffix with
  | none => rfl
  | some after =>
    rw [dropWord?_eq_some_iff.mp found] at tail
    have held := holds_of_part tail.isInfix (holds_append [] after)
    rw [free] at held
    cases held

end ThemeCss.Text

namespace ThemeCss.Inline

open Lint Markup Scan

/-! ### Escaped styles -/

theorem passage?_sound {text passed after : Text} (found : passage? text = some (passed, after)) :
    text = passed ++ after := by
  simp only [passage?] at found
  split at found
  · split at found
    · exact splitThrough?_sound found
    · cases found
  · split at found
    · exact splitThrough?_sound found
    · cases found
  · cases found

theorem shades_cons {style shade : Text} {c d : Char} (here : c = d ∨ isIndifferent c = true)
    (rest : Shades style shade) : Shades (c :: style) (d :: shade) :=
  List.forall_mem_cons.mpr ⟨here, rest⟩

/-- What passes through stands in the written form as it is. -/
theorem encoded_append {style shade written : Text} (encoded : Encoded style shade written)
    (shades : Shades style shade) (passed : Text) :
    Encoded (passed ++ style) (passed ++ shade) (passed ++ written) ∧
      Shades (passed ++ style) (passed ++ shade) := by
  induction passed with
  | nil => exact ⟨encoded, shades⟩
  | cons c rest ih => exact ⟨.same c ih.1, shades_cons (.inl rfl) ih.2⟩

/-- Escaping writes references for indifferent characters only. -/
theorem exists_encoded (style : Text) :
    ∃ shade, Encoded style shade (escapeAttribute style) ∧ Shades style shade := by
  have sign {c : Char} {style written : Text} {name : Text}
      (letters : name.all Char.isAlphanum = true) (indifferent : isIndifferent c = true)
      (behind : ∃ shade, Encoded style shade written ∧ Shades style shade) :
      ∃ shade, Encoded (c :: style) shade ('&' :: (name ++ [';']) ++ written) ∧
        Shades (c :: style) shade := by
    obtain ⟨shade, encoded, shades⟩ := behind
    exact ⟨_, .reference c (isReference_of_letters letters) encoded,
      shades_cons (.inr indifferent) shades⟩
  fun_induction escapeAttribute style with
  | case1 => exact ⟨[], .nil, fun pair member => by cases member⟩
  | case2 c rest passed after found ih =>
    obtain ⟨shade, encoded, shades⟩ := ih
    rw [passage?_sound found]
    exact ⟨_, encoded_append encoded shades passed⟩
  | case3 c rest _ ih =>
    simp only [escapeChar]
    split
    · exact sign (show "amp".toList.all Char.isAlphanum = true by decide) (by decide) ih
    · exact sign (show "lt".toList.all Char.isAlphanum = true by decide) (by decide) ih
    · exact sign (show "gt".toList.all Char.isAlphanum = true by decide) (by decide) ih
    · obtain ⟨shade, encoded, shades⟩ := ih
      exact ⟨_, .same c encoded, shades_cons (.inl rfl) shades⟩

/-! ### Quoted styles -/

/-- The text with its double quotes written as references. -/
def requote (text : Text) : Text := text.flatMap fun c => if c = '"' then quoteReference else [c]

/-- The text with ampersands for its double quotes. -/
def dim (text : Text) : Text := text.map fun c => if c = '"' then '&' else c

theorem requote_of_free {text : Text} (free : '"' ∉ text) : requote text = text := by
  induction text with
  | nil => rfl
  | cons c rest ih =>
    rw [List.mem_cons, not_or] at free
    rw [requote, List.flatMap_cons, ← requote, ih free.2, if_neg (Ne.symm free.1)]
    rfl

/-- References in place of double quotes make a dimmer shade, of the style and of its dim form. -/
theorem encoded_requote {style shade written : Text} (encoded : Encoded style shade written) :
    Encoded style (dim shade) (requote written) ∧
      Encoded (dim style) (dim shade) (requote written) := by
  have quote : IsReference quoteReference :=
    isReference_of_letters (show "quot".toList.all Char.isAlphanum = true by decide)
  induction encoded with
  | nil => exact ⟨.nil, .nil⟩
  | @same style shade written c _ ih =>
    rw [dim, dim, requote, List.map_cons, List.map_cons, List.flatMap_cons]
    split
    · exact ⟨.reference _ quote ih.1, .reference _ quote ih.2⟩
    · exact ⟨.same c ih.1, .same c ih.2⟩
  | @reference style shade written word c reference _ ih =>
    have free : '"' ∉ word := fun member => absurd (reference.ordinary.2 _ member) (by decide)
    have parts : requote (word ++ written) = word ++ requote written := by
      rw [requote, List.flatMap_append, ← requote, ← requote, requote_of_free free]
    rw [parts]
    exact ⟨.reference c reference ih.1, .reference _ reference ih.2⟩

theorem shades_dim {style shade : Text} (shades : Shades style shade) :
    Shades (dim style) (dim shade) := by
  rw [Shades, dim, dim, List.zip_map, List.forall_mem_map]
  rintro ⟨c, d⟩ member
  rcases shades _ member with same | indifferent
  · obtain rfl : c = d := same
    exact .inl rfl
  · have other : c ≠ '"' := by
      rintro rfl
      exact absurd (show isIndifferent '"' = true from indifferent) (by decide)
    exact .inr (by rwa [Prod.map_apply, if_neg other])

theorem mem_of_mem_undecoded {value written : Text} (undecoded : Undecoded value written) {c : Char}
    (quote : Mode.isQuote c = true) (member : c ∈ written) : c ∈ value := by
  induction undecoded with
  | nil => exact member
  | same d _ ih =>
    rcases List.mem_cons.mp member with rfl | later
    · exact List.mem_cons_self ..
    · exact List.mem_cons_of_mem _ (ih later)
  | word _ _ ordinary _ ih =>
    rcases List.mem_append.mp member with inside | later
    · have heeded := ordinary c inside
      rw [isOrdinary, quote] at heeded
      cases heeded
    · exact List.mem_cons_of_mem _ (ih later)

/-- A style as it is written behind its name. -/
def styleEntry (style : Text) : Text := ' ' :: styleName ++ '=' :: quoted (escapeAttribute style)

/-- A style that refers is legible as it is written, unless it holds quotes of both kinds and does
not refer without the double ones. -/
theorem exists_isStyle (style : Text) : ∃ shade, IsStyle style shade (styleEntry style) ∧
    (('"' ∈ style → '\'' ∈ style → hasReference (dim style) = true) → Legible style shade) := by
  obtain ⟨shade, encoded, shades⟩ := exists_encoded style
  have parts : quoted (escapeAttribute style) = if !(escapeAttribute style).contains '"' then
      '"' :: (escapeAttribute style ++ ['"'])
    else if !(escapeAttribute style).contains '\'' then
      '\'' :: (escapeAttribute style ++ ['\''])
    else '"' :: (requote (escapeAttribute style) ++ ['"']) := rfl
  rw [styleEntry, parts]
  split
  next free =>
    exact ⟨shade, ⟨_, _, rfl, rfl, by simpa using free, encoded⟩, fun _ => .inl shades⟩
  next double =>
    split
    next free =>
      exact ⟨shade, ⟨_, _, rfl, rfl, by simpa using free, encoded⟩, fun _ => .inl shades⟩
    next single =>
      obtain ⟨requoted, dimmed⟩ := encoded_requote encoded
      have free : '"' ∉ requote (escapeAttribute style) := by
        intro hidden
        obtain ⟨c, _, member⟩ := List.mem_flatMap.mp hidden
        split at member
        · exact absurd member (by decide)
        next other => exact other (List.mem_singleton.mp member).symm
      have held {c : Char} (quote : Mode.isQuote c = true) (member : c ∈ escapeAttribute style) :
          c ∈ style :=
        mem_of_mem_undecoded (encoded.undecoded_shade shades) quote
          (mem_of_mem_undecoded encoded.undecoded quote member)
      refine ⟨dim shade, ⟨_, _, rfl, rfl, free, requoted⟩, fun shown => .inr ?_⟩
      exact (dimmed.undecoded_shade (shades_dim shades)).hasReference
        (shown (held rfl (by simpa using double)) (held rfl (by simpa using single)))

/-! ### Written nodes -/

/-- What stands in a forest is written in it. -/
theorem exists_writeAllInside (raw : Bool) {forest : List Markup} {markup : Markup}
    (listed : markup ∈ forest) : ∃ before after,
      writeAllInside raw forest = before ++ (writeInside raw markup ++ after) := by
  obtain ⟨first, others, rfl⟩ := List.append_of_mem listed
  clear listed
  induction first with
  | nil => exact ⟨[], writeAllInside raw others, by rw [List.nil_append, writeAllInside]; rfl⟩
  | cons other first ih =>
    obtain ⟨before, after, parts⟩ := ih
    refine ⟨writeInside raw other ++ before, after, ?_⟩
    rw [List.cons_append, writeAllInside, parts, List.append_assoc]

/-- The start tag of every element is written. -/
theorem Within.exists_writeStart {tag : Tag} {forest : List Markup} (within : Within tag forest)
    (raw : Bool) : ∃ before after,
      writeAllInside raw forest = before ++ (writeStart tag ++ after) := by
  induction within generalizing raw with
  | here listed =>
    obtain ⟨before, after, parts⟩ := exists_writeAllInside raw listed
    exact ⟨before, _, by rw [parts, writeInside, List.append_assoc, List.append_assoc]⟩
  | @inside _ _ other listed _ ih =>
    obtain ⟨before, after, parts⟩ := exists_writeAllInside raw listed
    obtain ⟨before', after', inner⟩ := ih (isRaw other.name)
    refine ⟨before ++ (writeStart other ++ before'), after' ++ (writeEnd other ++ after), ?_⟩
    rw [parts, writeInside, inner]
    simp

theorem writeAttribute_style (element style : Text) :
    writeAttribute element ⟨styleName, some style⟩ = styleEntry style := by
  have plain : isSwitch styleName = false := by decide
  have free : namesAddress element styleName = false := by simp [namesAddress, styleName]
  simp [writeAttribute, writeValue, plain, free, styleEntry]

/-- A tag with a style is written with the attribute. -/
theorem exists_writeStart_style {tag : Tag} {style : Text}
    (styled : tag.value? styleName = some style) (ink : style ≠ []) :
    ∃ before after, writeStart tag = '<' :: before ++ (styleEntry style ++ after) := by
  obtain ⟨⟨name, value⟩, found, same⟩ := Option.map_eq_some_iff.mp styled
  have named : name = styleName := by simpa using List.find?_some found
  obtain rfl : value = some style := by
    cases value with
    | none => exact absurd same.symm ink
    | some other => exact congrArg some same
  obtain ⟨first, others, parts⟩ := List.append_of_mem (List.mem_of_find?_eq_some found)
  refine ⟨tag.name ++ first.flatMap (writeAttribute tag.name),
    others.flatMap (writeAttribute tag.name) ++ ['>'], ?_⟩
  rw [writeStart, parts, List.flatMap_append, List.flatMap_cons, named, writeAttribute_style]
  simp

/-- A node that declares no content type is written whole. -/
theorem writeNode_of_typeFree {markup : Markup} {tail : Text}
    (typeFree : Text.holds contentTypeStart (writeInside false markup ++ escape tail) = false) :
    writeNode markup tail = writeInside false markup ++ escape tail := by
  apply Text.rewrite_of_none
  · intro before other text
    rfl
  · intro suffix _ ends
    rw [contentTypeMatcher, Text.dropWord?_of_not_holds typeFree ends]
    rfl

/-- The library in use writes the styles of such a node. -/
theorem writesStyles_of_typeFree {markup : Markup} {tail : Text}
    (typeFree : Text.holds contentTypeStart (writeInside false markup ++ escape tail) = false) :
    WritesStyles markup tail := by
  intro tag style within styled ink
  obtain ⟨before, after, parts⟩ := within.exists_writeStart false
  obtain ⟨before', after', start⟩ := exists_writeStart_style styled ink
  obtain ⟨shade, isStyle, _⟩ := exists_isStyle style
  rw [writeAllInside, writeAllInside, List.append_nil] at parts
  refine ⟨before ++ '<' :: before', styleEntry style, after' ++ (after ++ escape tail), shade, ?_,
    by simp, isStyle⟩
  rw [show Library.write markup tail = _ from writeNode_of_typeFree typeFree, parts, start]
  simp

end ThemeCss.Inline
