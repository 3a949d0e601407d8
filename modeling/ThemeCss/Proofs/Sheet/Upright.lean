import ThemeCss.Proofs.Variables.CommentFree

/-!
# Texts that have a layout

Not every text has a layout: a brace may hide in a string or behind a backslash, or stand in a
selector or a declaration. When the braces of a text stand in code and its tree holds none, the text
can be cut at its braces and semicolons just as the reader cut it.
-/
namespace ThemeCss.Sheet

open Scan Variables

/-- A scan that enters the text in this mode meets every brace in code. -/
def bracesLive (mode : Mode) : Text → Bool
  | [] => true
  | c :: rest => (!isBrace c || mode.isCode) && bracesLive (mode.step c) rest

namespace Declaration

def BraceFree (declaration : Declaration) : Prop :=
  Variables.BraceFree declaration.property ∧ Variables.BraceFree declaration.value

/-- Without braces, and nothing is left open by what is not custom. -/
def Upright (declaration : Declaration) : Prop :=
  declaration.BraceFree ∧ (declaration.isCustom = false → declaration.Contained)

instance (declaration : Declaration) : Decidable declaration.Upright :=
  inferInstanceAs (Decidable ((_ ∧ _) ∧ _))

end Declaration

def Node.isStatement : Node → Bool
  | .statement _ => true
  | _ => false

mutual

/-- Selectors, preludes and declarations without braces, no semicolon in a selector and no statement
in a group. -/
def Node.Upright : Node → Prop
  | .rule selector declarations =>
    Undelimited selector ∧ ∀ declaration ∈ declarations, declaration.Upright
  | .statement prelude => BraceFree prelude
  | .group prelude children =>
    BraceFree prelude ∧ (∀ child ∈ children, child.isStatement = false) ∧
      Node.AllUpright children
  | .block prelude body =>
    BraceFree prelude ∧ ∀ declaration ∈ Declaration.parseAll body, declaration.Upright

def Node.AllUpright : List Node → Prop
  | [] => True
  | node :: nodes => node.Upright ∧ Node.AllUpright nodes

end

mutual

def Node.decideUpright : (node : Node) → Decidable node.Upright
  | .rule selector declarations =>
    inferInstanceAs (Decidable
      (Undelimited selector ∧ ∀ declaration ∈ declarations, declaration.Upright))
  | .statement prelude => inferInstanceAs (Decidable (BraceFree prelude))
  | .group prelude children =>
    have := Node.decideAllUpright children
    inferInstanceAs (Decidable
      (BraceFree prelude ∧ (∀ child ∈ children, child.isStatement = false) ∧
        Node.AllUpright children))
  | .block prelude body =>
    inferInstanceAs (Decidable
      (BraceFree prelude ∧ ∀ declaration ∈ Declaration.parseAll body, declaration.Upright))

def Node.decideAllUpright : (nodes : List Node) → Decidable (Node.AllUpright nodes)
  | [] => .isTrue trivial
  | node :: nodes =>
    have := node.decideUpright
    have := Node.decideAllUpright nodes
    inferInstanceAs (Decidable (node.Upright ∧ Node.AllUpright nodes))

end

instance (nodes : List Node) : Decidable (Node.AllUpright nodes) := Node.decideAllUpright nodes

/-! ### Braces in declarations -/

theorem breaks_of_isBrace {c : Char} (brace : isBrace c = true) :
    Text.breaks "important".toList.reverse c = true := by
  simp only [isBrace, Bool.or_eq_true, beq_iff_eq] at brace
  rcases brace with rfl | rfl <;> decide

theorem isBlank_of_isBrace {c : Char} (brace : isBrace c = true) : Text.isBlank c = false := by
  simp only [isBrace, Bool.or_eq_true, beq_iff_eq] at brace
  rcases brace with rfl | rfl <;> decide

/-- No brace is part of an importance mark. -/
theorem mem_of_dropImportant? {value plain : Text} {c : Char} (brace : isBrace c = true)
    (found : Declaration.dropImportant? value = some plain) (member : c ∈ value) : c ∈ plain := by
  have ink := isBlank_of_isBrace brace
  simp only [Declaration.dropImportant?] at found
  split at found
  · simp at found
  next reversed last =>
    split at found
    next rest start =>
      simp only [Option.some.injEq] at found
      -- Taking off the keyword, the blanks before it and the exclamation mark passes over no brace.
      have inReversed : c ∈ reversed :=
        Text.mem_of_dropKeyword?_breaks (breaks_of_isBrace brace) last (List.mem_reverse.mpr member)
      have behind : c ∈ '!' :: rest := start ▸ Text.mem_trimLeft_of_ink inReversed ink
      rcases List.mem_cons.mp behind with rfl | inRest
      · exact absurd brace (by decide)
      · rw [← found]
        exact Text.mem_trim_of_ink (List.mem_reverse.mpr inRest) ink
    · simp at found

theorem mem_parse_of_brace {chunk : Text} {c : Char} (brace : isBrace c = true)
    (member : c ∈ chunk) :
    c ∈ (Declaration.parse chunk).property ∨ c ∈ (Declaration.parse chunk).value := by
  have ink := isBlank_of_isBrace brace
  rcases Declaration.colon_cases chunk with free | ⟨name, rest, free, rfl⟩
  · rw [Declaration.parse_of_colonFree free]
    exact .inl (Text.mem_trim_of_ink member ink)
  · rw [Declaration.parse_of_colon free]
    -- A brace before the colon goes to the property, one behind it to the value.
    rcases List.mem_append.mp member with inName | behind
    · left
      cases Declaration.dropImportant? (Text.trim rest) <;> exact Text.mem_trim_of_ink inName ink
    · right
      have inRest : c ∈ Text.trim rest := by
        rcases List.mem_cons.mp behind with rfl | inRest
        · exact absurd brace (by decide)
        · exact Text.mem_trim_of_ink inRest ink
      cases found : Declaration.dropImportant? (Text.trim rest) with
      | none => exact inRest
      | some plain => exact mem_of_dropImportant? brace found inRest

/-- A body whose declarations hold no brace holds none. -/
theorem braceFree_of_parseAll {body : Text}
    (each : ∀ declaration ∈ Declaration.parseAll body, declaration.BraceFree) : BraceFree body := by
  intro c member
  cases brace : isBrace c with
  | false => rfl
  | true =>
    have other : c ≠ ';' := by
      rintro rfl
      exact absurd brace (by decide)
    -- A brace is ink and no semicolon, so it would stand in a chunk.
    obtain ⟨chunk, listed, inside⟩ := exists_mem_chunks member (isBlank_of_isBrace brace) other
    have free := each _ (List.mem_map_of_mem listed)
    rcases mem_parse_of_brace brace inside with named | valued
    · rw [free.1 c named] at brace
      exact absurd brace (by simp)
    · rw [free.2 c valued] at brace
      exact absurd brace (by simp)

/-! ### Live braces -/

theorem bracesLive_append (mode : Mode) (first second : Text) :
    bracesLive mode (first ++ second)
      = (bracesLive mode first && bracesLive (mode.after first) second) := by
  induction first generalizing mode with
  | nil => simp [bracesLive]
  | cons c rest ih => simp [bracesLive, ih, Bool.and_assoc]

theorem bracesLive_cons {mode : Mode} {c : Char} (brace : isBrace c = true) {rest : Text}
    (live : bracesLive mode (c :: rest) = true) :
    mode = .code ∧ bracesLive .code rest = true := by
  have ordinary : isOrdinary c = true := by
    simp only [isBrace, Bool.or_eq_true, beq_iff_eq] at brace
    rcases brace with rfl | rfl <;> decide
  simp only [bracesLive, brace, Bool.not_true, Bool.false_or, Bool.and_eq_true] at live
  obtain ⟨code, behind⟩ := live
  rw [Mode.isCode_iff.mp code, Mode.step_code_ordinary ordinary] at behind
  exact ⟨Mode.isCode_iff.mp code, behind⟩

/-- Around a block with live braces every scan is in code at the braces. -/
theorem live_block {mode : Mode} {part inside after : Text} (closed : Closed inside)
    (live : bracesLive mode (part ++ '{' :: (inside ++ '}' :: after)) = true) :
    mode.after part = .code ∧ bracesLive .code inside = true ∧ bracesLive .code after = true := by
  rw [bracesLive_append, Bool.and_eq_true] at live
  obtain ⟨opened, behind⟩ := bracesLive_cons rfl live.2
  rw [bracesLive_append, Bool.and_eq_true, closed.after] at behind
  exact ⟨opened, behind.1, (bracesLive_cons rfl behind.2).2⟩

/-- Without opening braces, live closing ones have no partner. -/
theorem braceFree_of_depth? {mode : Mode} {text : Text} (live : bracesLive mode text = true)
    (free : '{' ∉ text) {reached : Nat}
    (counted : Bracket.curly.depth? 0 mode text = some reached) : BraceFree text := by
  induction text generalizing mode with
  | nil => simp [BraceFree]
  | cons c rest ih =>
    simp only [List.mem_cons, not_or] at free
    -- A live closing brace at depth zero makes the count fail.
    by_cases closer : c = '}'
    · subst closer
      obtain ⟨rfl, _⟩ := bracesLive_cons rfl live
      simp [Bracket.depth?, Bracket.curly] at counted
    · have brace : isBrace c = false := by simp [isBrace, closer, Ne.symm free.1]
      have passed : Bracket.curly.depth? 0 mode (c :: rest)
          = Bracket.curly.depth? 0 (mode.step c) rest := by
        simp [Bracket.depth?, Bracket.curly, closer, Ne.symm free.1]
      simp only [bracesLive, brace, Bool.not_false, Bool.true_or, Bool.true_and] at live
      rw [passed] at counted
      exact List.forall_mem_cons.mpr ⟨brace, ih live free.2 counted⟩

/-- What holds of the text between the braces of a group. -/
structure Enclosed (text : Text) : Prop where
  closed : Closed text
  balanced : Bracket.curly.Balanced text
  plain : ∀ node ∈ (readNodes text).1, node.isStatement = false

/-- In a group every block is closed. -/
theorem Enclosed.exists_split? {part opened : Text} (enclosed : Enclosed (part ++ '{' :: opened))
    (free : '{' ∉ part) (live : bracesLive .code (part ++ '{' :: opened) = true) :
    ∃ inside after, Bracket.curly.split? opened = some (inside, after) := by
  have balanced := enclosed.balanced
  rw [bracesLive_append, Bool.and_eq_true] at live
  obtain ⟨partLive, behind⟩ := live
  obtain ⟨code, _⟩ := bracesLive_cons rfl behind
  rw [Bracket.Balanced, Bracket.depth?_append, code] at balanced
  cases counted : Bracket.curly.depth? 0 .code part with
  | none => simp [counted] at balanced
  | some reached =>
    -- Up to the opening brace the count stays at zero, and from there it comes back to zero.
    have level := (braceFree_of_depth? partLive free counted).balanced
    rw [Bracket.Balanced, counted, Option.some.injEq] at level
    rw [counted, Option.bind_some, level] at balanced
    apply Bracket.exists_splitFrom? Bracket.curly_sound
    simpa [Bracket.depth?, Bracket.curly, Mode.step_code_ordinary (c := '{') rfl] using balanced

/-- Behind a closed block the text of a group is that of a group. -/
theorem Enclosed.behind {part inside after : Text} {node : Node}
    (enclosed : Enclosed (part ++ '{' :: (inside ++ '}' :: after))) (partClosed : Closed part)
    (partFree : BraceFree part) (closed : Closed inside)
    (balanced : Bracket.curly.Balanced inside)
    (read : (readNodes (part ++ '{' :: (inside ++ '}' :: after))).1
      = node :: (readNodes after).1) : Enclosed after := by
  have blockClosed : Closed ('{' :: inside ++ ['}']) :=
    .cons rfl (closed.append (.cons rfl closed_nil))
  have blockBalanced : Bracket.curly.Balanced ('{' :: inside ++ ['}']) :=
    balanced.enclose Bracket.curly_sound closed
  -- The head and the block are closed and balanced, so what is so around them is so behind them.
  have parts : part ++ '{' :: (inside ++ '}' :: after)
      = part ++ (('{' :: inside ++ ['}']) ++ after) := by simp
  refine ⟨?_, ?_, ?_⟩
  · have whole := enclosed.closed
    rwa [parts, closed_append_iff partClosed, closed_append_iff blockClosed] at whole
  · have whole := enclosed.balanced
    rwa [parts, Bracket.balanced_append_iff partClosed partFree.balanced,
      Bracket.balanced_append_iff blockClosed blockBalanced] at whole
  · intro other member
    exact enclosed.plain other (read ▸ List.mem_cons_of_mem _ member)

/-! ### Cutting a text -/

theorem braceFree_of_trim {text : Text} (free : BraceFree (Text.trim text)) : BraceFree text := by
  obtain ⟨before, after, left, right, parts⟩ := Text.exists_trim text
  rw [parts]
  exact ((braceFree_of_blank left).append free).append (braceFree_of_blank right)

theorem undelimited_of_trim {text : Text} (free : Undelimited (Text.trim text)) :
    Undelimited text := by
  obtain ⟨before, after, left, right, parts⟩ := Text.exists_trim text
  rw [parts]
  exact ((undelimited_of_blank left).append free).append (undelimited_of_blank right)

/-- A prelude that the reader ends at a brace or semicolon holds neither. -/
theorem undelimited_prelude {prelude : Text} (free : ∀ c ∈ prelude, endsPrelude c = false)
    (braceFree : BraceFree (Text.trim prelude)) : Undelimited prelude := by
  intro c member
  have brace := braceFree_of_trim braceFree c member
  have ends := free c member
  simp only [endsPrelude, Bool.or_eq_false_iff] at ends
  simp [isDelimiter, brace, ends.2]

/-- What the text of a layout has to show. -/
def HasLayout (mode : Mode) (text : Text) : Prop :=
  ∃ layout : Layout, layout.spell = text ∧ layout.Fits ∧ layout.Steady ∧
    (mode = .code → Enclosed text → layout.Sealed)

theorem hasLayout_tail {mode : Mode} {text : Text} (free : BraceFree text)
    (last : opensAt text = true → ';' ∉ text)
    (read : opensAt text = true → ∃ prelude, .statement prelude ∈ (readNodes text).1) :
    HasLayout mode text := by
  refine ⟨.tail text, rfl, ⟨free, last⟩, by simp [Layout.Steady, Layout.bodies], ?_⟩
  -- A group holds no statement, so its tail does not open one.
  intro _ enclosed
  refine ⟨enclosed.closed, ?_⟩
  cases opens : opensAt text with
  | false => rfl
  | true =>
    obtain ⟨prelude, member⟩ := read opens
    exact absurd (enclosed.plain _ member) (by simp [Node.isStatement])

theorem hasLayout_statement {mode next : Mode} {prelude after : Text} (free : Undelimited prelude)
    (opens : opensAt prelude = true) (rest : HasLayout next after) :
    HasLayout mode (prelude ++ ';' :: after) := by
  obtain ⟨layout, rfl, fits, steady, _⟩ := rest
  refine ⟨.statement prelude layout, rfl, ⟨free, opens, fits⟩, steady, ?_⟩
  intro _ enclosed
  have read := readNodes_statement opens (Layout.endsPrelude_of_undelimited free) layout.spell
  have plain := enclosed.plain (.statement (Text.trim prelude))
    (by rw [read]; exact List.mem_cons_self ..)
  exact absurd plain (by simp [Node.isStatement])

/-- The text of a block of declarations. -/
structure IsBody (body : Text) : Prop where
  free : BraceFree body
  closed : Closed body
  contained : ∀ declaration ∈ kept body, declaration.Contained

theorem isBody_of_upright {body : Text} (closed : Closed body)
    (each : ∀ declaration ∈ Declaration.parseAll body, declaration.Upright) : IsBody body where
  free := braceFree_of_parseAll fun declaration member => (each declaration member).1
  closed := closed
  contained := by
    intro declaration member
    rw [kept, List.mem_filter] at member
    exact (each declaration member.1).2 (by simpa using member.2)

section block

variable {mode : Mode} {part inside after : Text} {node : Node} (free : Undelimited part)
  (opened : mode.after part = .code) (rest : HasLayout .code after)
  (read : (readNodes (part ++ '{' :: (inside ++ '}' :: after))).1 = node :: (readNodes after).1)
include free opened rest read

theorem hasLayout_rule (isBody : IsBody inside) :
    HasLayout mode (part ++ '{' :: (inside ++ '}' :: after)) := by
  obtain ⟨layout, rfl, fits, steady, parts⟩ := rest
  refine ⟨.rule part inside layout, rfl, ⟨free, isBody.free, isBody.closed, fits⟩, ?_, ?_⟩
  · intro body member
    rcases List.mem_cons.mp member with rfl | member
    · exact isBody.contained
    · exact steady body member
  · rintro rfl enclosed
    exact ⟨opened, parts rfl
      (enclosed.behind opened free.braceFree isBody.closed isBody.free.balanced read)⟩

theorem hasLayout_group (opens : opensAt part = true) (inner : HasLayout .code inside)
    (enclosed : Enclosed inside) (nested : hasNestedBlock inside = true) :
    HasLayout mode (part ++ '{' :: (inside ++ '}' :: after)) := by
  obtain ⟨layout, rfl, fits, steady, parts⟩ := rest
  obtain ⟨innerLayout, rfl, innerFits, innerSteady, innerParts⟩ := inner
  have innerSealed := innerParts rfl enclosed
  -- The layout inside has a block because the reader saw one in its text.
  have block : innerLayout.hasBlock = true := by
    rwa [← Layout.hasNestedBlock_spell innerFits innerSealed]
  refine ⟨.group part innerLayout layout, rfl, ⟨free, opens, innerFits, innerSealed, fits⟩, ?_, ?_⟩
  · intro body member
    rw [Layout.bodies, if_pos block] at member
    rcases List.mem_append.mp member with member | member
    · exact innerSteady body member
    · exact steady body member
  · rintro rfl outer
    exact ⟨opened, parts rfl
      (outer.behind opened free.braceFree enclosed.closed enclosed.balanced read)⟩

end block

/-- Read to its end, or the text of a group. -/
def Readable (mode : Mode) (text : Text) : Prop :=
  (readNodes text).2 = [] ∨ mode = .code ∧ Enclosed text

/-- A block of a readable text is closed, and scans are in code around it. -/
theorem Readable.exists_block {mode : Mode} {part opened : Text}
    (readable : Readable mode (part ++ '{' :: opened)) (free : '{' ∉ part)
    (unclosed : Bracket.curly.split? opened = none → (readNodes (part ++ '{' :: opened)).2 ≠ [])
    (live : bracesLive mode (part ++ '{' :: opened) = true) :
    ∃ inside after, opened = inside ++ '}' :: after ∧
      Bracket.curly.split? opened = some (inside, after) ∧ mode.after part = .code ∧
      bracesLive .code inside = true ∧ bracesLive .code after = true := by
  obtain ⟨inside, after, found⟩ : ∃ inside after,
      Bracket.curly.split? opened = some (inside, after) := by
    rcases readable with complete | ⟨rfl, enclosed⟩
    · cases found : Bracket.curly.split? opened with
      | none => exact absurd complete (unclosed found)
      | some parts => exact ⟨parts.1, parts.2, rfl⟩
    · exact enclosed.exists_split? free live
  obtain rfl := Bracket.splitFrom?_sound found
  obtain ⟨_, closed⟩ := Bracket.balanced_of_split? Bracket.curly_sound found
  exact ⟨inside, after, rfl, found, live_block closed live⟩

/-- What a text must show to have a layout: braces in code, an upright tree and nothing left
over. -/
structure Legible (mode : Mode) (text : Text) : Prop where
  live : bracesLive mode text = true
  upright : Node.AllUpright (readNodes text).1
  readable : Readable mode text

/-! ### From part to part -/

theorem of_upright_blockNode {head inside : Text} (isHead : IsHead head)
    (upright : (blockNode head inside).Upright) : Undelimited head ∧
      ((∀ declaration ∈ Declaration.parseAll inside, declaration.Upright) ∨
        opensAt head = true ∧ hasNestedBlock inside = true ∧
          (∀ child ∈ (readNodes inside).1, child.isStatement = false) ∧
          Node.AllUpright (readNodes inside).1) := by
  unfold blockNode at upright
  split at upright
  next sign =>
    have free := undelimited_prelude (isHead.endsPrelude sign)
    split at upright
    next nested => exact ⟨free upright.1, .inr ⟨sign, nested, upright.2⟩⟩
    next =>
      obtain ⟨braceFree, each⟩ := upright
      rw [Declaration.parseAll_trim] at each
      exact ⟨free braceFree, .inl each⟩
  next => exact ⟨undelimited_of_trim upright.1, .inl upright.2⟩

section statement

variable {mode : Mode} {prelude : Text} (sign : opensAt prelude = true)
  (free : ∀ c ∈ prelude, endsPrelude c = false)
include sign free

/-- What stands behind a statement is legible again; a group holds no statement, so the text is read
to its end. -/
theorem Legible.statement {after : Text} (legible : Legible mode (prelude ++ ';' :: after)) :
    Undelimited prelude ∧ Legible ((mode.after prelude).step ';') after := by
  obtain ⟨live, upright, readable⟩ := legible
  have read := readNodes_statement sign free after
  rw [read] at upright
  have complete : (readNodes after).2 = [] := by
    rcases readable with complete | ⟨_, enclosed⟩
    · rwa [read] at complete
    · have plain := enclosed.plain (.statement (Text.trim prelude))
        (by rw [read]; exact List.mem_cons_self ..)
      exact absurd plain (by simp [Node.isStatement])
  rw [bracesLive_append, Bool.and_eq_true] at live
  have behind : bracesLive ((mode.after prelude).step ';') after = true := by
    simpa [bracesLive, isBrace] using live.2
  exact ⟨undelimited_prelude free upright.1, behind, upright.2, .inl complete⟩

end statement

/-- What stands behind a block is legible again. -/
theorem Legible.behind {mode : Mode} {part inside after : Text} {node : Node}
    (legible : Legible mode (part ++ '{' :: (inside ++ '}' :: after)))
    (opened : mode.after part = .code) (partFree : BraceFree part) (closed : Closed inside)
    (balanced : Bracket.curly.Balanced inside) (live : bracesLive .code after = true)
    (read : readNodes (part ++ '{' :: (inside ++ '}' :: after))
      = (node :: (readNodes after).1, (readNodes after).2)) : Legible .code after := by
  obtain ⟨_, upright, readable⟩ := legible
  rw [read] at upright
  refine ⟨live, upright.2, ?_⟩
  rcases readable with complete | ⟨rfl, enclosed⟩
  · rw [read] at complete
    exact .inl complete
  · exact .inr ⟨rfl, enclosed.behind opened partFree closed balanced (by rw [read])⟩

section block

variable {mode : Mode} {part opened : Text} (legible : Legible mode (part ++ '{' :: opened))
  (recurse : ∀ {mode : Mode} {text : Text}, text.length < (part ++ '{' :: opened).length →
    Legible mode text → HasLayout mode text)
include legible recurse

/-- A block holds declarations, or blocks that have a layout in turn. -/
theorem hasLayout_head (isHead : IsHead part) : HasLayout mode (part ++ '{' :: opened) := by
  obtain ⟨inside, after, rfl, found, code, insideLive, afterLive⟩ :=
    legible.readable.exists_block isHead.1 (trailing_headUnclosed isHead) legible.live
  obtain ⟨balanced, closed⟩ := Bracket.balanced_of_split? Bracket.curly_sound found
  have read := readNodes_head isHead found
  have upright := legible.upright
  rw [read] at upright
  obtain ⟨partFree, body⟩ := of_upright_blockNode isHead upright.1
  have behind := legible.behind code partFree.braceFree closed balanced afterLive read
  have rest := recurse (by simp; omega) behind
  rcases body with each | ⟨sign, nested, plain, insideUpright⟩
  · exact hasLayout_rule partFree code rest (by rw [read]) (isBody_of_upright closed each)
  · have enclosed : Enclosed inside := ⟨closed, balanced, plain⟩
    have inner := recurse (by simp; omega) ⟨insideLive, insideUpright, .inr ⟨rfl, enclosed⟩⟩
    exact hasLayout_group partFree code rest (by rw [read]) sign inner enclosed nested

end block

theorem hasLayout_last {mode : Mode} {text : Text} (legible : Legible mode text)
    (isHead : IsHead text) : HasLayout mode text := by
  have read := readNodes_last isHead
  have upright := legible.upright
  rw [read] at upright
  by_cases blank : Text.trimLeft text = []
  · have plain : opensAt text = false := by rw [opensAt, blank]; rfl
    exact hasLayout_tail (braceFree_of_blank (Text.blank_of_trimLeft_eq_nil blank))
      (by simp [plain]) (by simp [plain])
  · rw [if_neg blank] at read upright
    cases opens : opensAt text with
    | true =>
      rw [if_pos opens] at read upright
      refine hasLayout_tail (braceFree_of_trim upright.1) isHead.2 fun _ => ?_
      exact ⟨Text.trim text, by rw [read]; exact List.mem_cons_self ..⟩
    | false =>
      -- Braces would stand in one of the declarations that are read.
      rw [if_neg (by simp [opens])] at upright
      have free := braceFree_of_parseAll fun declaration member =>
        (upright.1.2 declaration member).1
      exact hasLayout_tail free (by simp [opens]) (by simp [opens])

/-- A legible text has a layout. -/
theorem hasLayout {mode : Mode} {text : Text} (legible : Legible mode text) :
    HasLayout mode text := by
  have recurse : ∀ {mode : Mode} {shorter : Text}, shorter.length < text.length →
      Legible mode shorter → HasLayout mode shorter := fun _ inner => hasLayout inner
  -- The text of a group is read apart from what follows it, so the recursion is on the length.
  rcases reader_cases text with isHead | ⟨prelude, after, rfl, sign, free⟩ |
    ⟨head, opened, rfl, isHead⟩
  · exact hasLayout_last legible isHead
  · obtain ⟨undelimited, behind⟩ := legible.statement sign free
    exact hasLayout_statement undelimited sign (recurse (by simp; omega) behind)
  · exact hasLayout_head legible recurse isHead
termination_by text.length

end ThemeCss.Sheet
