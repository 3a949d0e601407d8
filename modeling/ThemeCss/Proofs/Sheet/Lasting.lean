import ThemeCss.Proofs.Scan.Commented
import ThemeCss.Proofs.Sheet.Customless
import ThemeCss.Proofs.Sheet.Inside
import ThemeCss.Proofs.Sheet.WellFormed

/-!
# Writing again what was written

A sheet can be read from any text, and what was read can be written and read once more. That need
not give the same tree: a value without a property comes back as a property without a value. It is
written the same again, however, if what stands between two braces closes what it opens and every
declaration stays one chunk. The text left over makes no condition, as it is left over again.

A closing brace that nothing opened breaks the rule. It is read as a declaration without a selector,
and written between braces it closes its own rule and stands behind it as before. So each reading
puts one more empty rule in front of it.
-/
namespace ThemeCss.Sheet

open Scan

/-! ### Declarations -/

namespace Declaration

/-- The written form is ink, leaves no string and no backslash open, and could not pass for a
declaration with a property. -/
structure Lasting (declaration : Declaration) : Prop where
  ink : declaration.write ≠ []
  single : declaration.property ≠ [] ∨ ':' ∉ declaration.value
  closed : Closed declaration.write

instance (declaration : Declaration) : Decidable declaration.Lasting :=
  decidable_of_iff (declaration.write ≠ [] ∧
      (declaration.property ≠ [] ∨ ':' ∉ declaration.value) ∧ Closed declaration.write)
    ⟨fun ⟨ink, single, closed⟩ => ⟨ink, single, closed⟩,
      fun ⟨ink, single, closed⟩ => ⟨ink, single, closed⟩⟩

variable {body : Text} (lasting : ∀ declaration ∈ parseAll body, declaration.Lasting)
include lasting

/-- A parenthesis may be open behind the last declaration, as nothing is cut off there. -/
theorem chunks_writeAll : chunks (writeAll (parseAll body)) = (parseAll body).map write := by
  have uncut : ∀ declaration ∈ parseAll body, solid 0 .code declaration.write = true := by
    intro declaration listed
    obtain ⟨chunk, _, chunkUncut, rfl⟩ := exists_of_mem_parseAll listed
    exact solid_write chunkUncut
  have inked : ∀ part ∈ (parseAll body).map write, part ≠ [] ∧ Text.Trimmed part := by
    simp only [List.forall_mem_map]
    intro declaration listed
    have ink := (lasting declaration listed).ink
    obtain ⟨chunk, _, _, rfl⟩ := exists_of_mem_parseAll listed
    exact ⟨ink, trimmed_write chunk⟩
  have cut : chunks (writeAll (parseAll body)) = ((parseAll body).map write).flatMap ownChunk := by
    rcases List.eq_nil_or_concat (parseAll body) with none | ⟨others, last, parts⟩
    · rw [none]
      exact chunks_of_blank Text.blank_nil
    · rw [List.concat_eq_append] at parts
      -- A semicolon cut behind each of the others, so they leave no parenthesis open.
      have whole : ∀ part ∈ others.map write, Whole part := by
        simp only [List.forall_mem_map]
        intro declaration member
        have listed : declaration ∈ parseAll body := by simp [parts, member]
        have before : declaration ∈ (parseAll body).dropLast := by
          rwa [parts, List.dropLast_concat]
        exact ⟨uncut declaration listed,
          congrArg Prod.fst (standing_write_of_mem_dropLast (List.Sublist.refl _) before),
          (lasting declaration listed).closed⟩
      rw [writeAll, parts, List.map_append]
      exact chunks_join_concat Text.blank_nil whole (uncut last (by simp [parts]))
  rw [cut, flatMap_ownChunk inked]

theorem writeAll_parseAll_writeAll :
    writeAll (parseAll (writeAll (parseAll body))) = writeAll (parseAll body) := by
  have again : ∀ declaration ∈ parseAll body,
      (parse declaration.write).write = declaration.write := by
    intro declaration listed
    have single := (lasting declaration listed).single
    obtain ⟨chunk, _, _, rfl⟩ := exists_of_mem_parseAll listed
    exact write_parse_write single
  have read : parseAll (writeAll (parseAll body)) = (parseAll body).map fun d => parse d.write := by
    conv => lhs; rw [parseAll, chunks_writeAll lasting, List.map_map]
    rfl
  rw [read, writeAll, List.map_map, writeAll]
  exact congrArg _ (List.map_congr_left again)

end Declaration

/-! ### Nodes -/

/-- What is written between the braces of a node. -/
def Node.body : Node → Text
  | .rule _ declarations => Declaration.writeAll declarations
  | .statement _ => []
  | .group _ children => Node.writeAll children
  | .block _ body => body

/-- The declarations of a rule. -/
def Node.own : Node → List Declaration
  | .rule _ declarations => declarations
  | _ => []

/-- What is written between the braces closes what it opens. -/
structure Node.Lasting (node : Node) : Prop where
  paired : Paired node.body
  own : ∀ declaration ∈ node.own, declaration.Lasting

/-- All nodes last, those inside groups too. -/
def Lasting (sheet : Sheet) : Prop := ∀ node ∈ Node.everywhere sheet.nodes, node.Lasting

instance (node : Node) : Decidable node.Lasting :=
  decidable_of_iff (Paired node.body ∧ ∀ declaration ∈ node.own, declaration.Lasting)
    ⟨fun ⟨paired, own⟩ => ⟨paired, own⟩, fun ⟨paired, own⟩ => ⟨paired, own⟩⟩

instance (sheet : Sheet) : Decidable sheet.Lasting := List.decidableBAll _ _

/-- What the reader comes to in a text: statements, and blocks whose text is shorter. Declarations
without a selector are a block for everything. -/
inductive Node.Read (text : Text) : Node → Prop where
  | statement {prelude : Text} : opensAt prelude = true →
      (∀ c ∈ prelude, endsPrelude c = false) → Node.Read text (.statement (Text.trim prelude))
  | block {head inside : Text} : IsHead head → (opensAt head = true → inside.length < text.length) →
      Node.Read text (blockNode head inside)

theorem Node.Read.behind {text after : Text} {node : Node} (read : node.Read after)
    (shorter : after.length < text.length) : node.Read text := by
  cases read with
  | statement opens free => exact .statement opens free
  | block isHead inner => exact .block isHead fun opens => Nat.lt_trans (inner opens) shorter

theorem read_of_mem_readNodes {text : Text} {node : Node} (member : node ∈ (readNodes text).1) :
    node.Read text := by
  induction text using reader_induction with
  | last text isHead =>
    rw [readNodes_last isHead] at member
    by_cases blank : Text.trimLeft text = []
    · simp [blank] at member
    · cases opens : opensAt text with
      | true =>
        simp only [blank, opens, if_true, if_false, List.mem_singleton] at member
        exact member ▸ .statement opens (isHead.endsPrelude opens)
      | false =>
        have plain : opensAt anySelector = false := by decide
        simp only [blank, opens, if_false, Bool.false_eq_true, List.mem_singleton] at member
        rw [member]
        exact @Node.Read.block text anySelector text ⟨by decide, by decide⟩ (by simp [plain])
  | unclosed head opened isHead unclosed =>
    simp [readNodes_headUnclosed isHead unclosed] at member
  | statement prelude after opens free ih =>
    rw [readNodes_statement opens free] at member
    rcases List.mem_cons.mp member with rfl | listed
    · exact .statement opens free
    · exact (ih listed).behind (by simp; omega)
  | block head inside after isHead closed ih =>
    rw [readNodes_head isHead closed] at member
    rcases List.mem_cons.mp member with rfl | listed
    · exact .block isHead fun _ => by simp; omega
    · exact (ih listed).behind (by simp; omega)

/-! ### Written blocks -/

theorem opensAt_trim (text : Text) : opensAt (Text.trim text) = opensAt text := by
  rw [opensAt_eq, opensAt_eq, Text.trim_trim]

theorem IsHead.trim {head : Text} (isHead : IsHead head) : IsHead (Text.trim head) := by
  constructor
  · exact fun member => isHead.1 (Text.mem_of_mem_trim member)
  · rw [opensAt_trim]
    exact fun opens member => isHead.2 opens (Text.mem_of_mem_trim member)

/-- Trimming takes blanks off the text before the first brace and off the text behind it. -/
theorem exists_trim_cut {head : Text} (free : '{' ∉ head) (opened : Text) :
    ∃ before front back after, Text.Blank before ∧ head = before ++ front ∧
      opened = back ++ after ∧ Text.trim (head ++ '{' :: opened) = front ++ '{' :: back := by
  obtain ⟨before, after, left, _, parts⟩ := Text.exists_trim (head ++ '{' :: opened)
  have brace : '{' ∈ Text.trim (head ++ '{' :: opened) :=
    Text.mem_trim_of_ink (by simp) (by decide)
  obtain ⟨front, back, same, absent⟩ := List.eq_append_cons_of_mem brace
  have blank : '{' ∉ before := fun member => absurd (left _ member) (by decide)
  have unopened : '{' ∉ before ++ front := by simp [blank, absent]
  -- No brace is a blank, so the first one of the trimmed text is the first one of the text.
  have whole : head ++ '{' :: opened = (before ++ front) ++ '{' :: (back ++ after) := by
    conv => lhs; rw [parts, same]
    simp
  obtain ⟨headEq, openedEq⟩ := Text.append_cons_unique free unopened whole
  exact ⟨before, front, back, after, left, headEq, openedEq, same⟩

/-- A bracket without a partner had none in a shorter text. -/
theorem split?_eq_none_of_append {text rest : Text}
    (unclosed : Bracket.curly.split? (text ++ rest) = none) : Bracket.curly.split? text = none := by
  cases closed : Bracket.curly.split? text with
  | none => rfl
  | some parts => simp [Bracket.split?_append Bracket.curly_sound closed] at unclosed

/-- Trimming does not bring a block into a text. -/
theorem hasNestedBlock_trim {text : Text} (flat : hasNestedBlock text = false) :
    hasNestedBlock (Text.trim text) = false := by
  by_cases brace : '{' ∈ text
  · obtain ⟨head, opened, rfl, free⟩ := List.eq_append_cons_of_mem brace
    obtain ⟨before, front, back, after, _, rfl, rfl, same⟩ := exists_trim_cut free opened
    have absent : '{' ∉ front := fun member => free (List.mem_append_right before member)
    rw [hasNestedBlock, Text.splitAtWord?_singleton free] at flat
    have unclosed : Bracket.curly.split? (back ++ after) = none := by simpa using flat
    rw [same, hasNestedBlock, Text.splitAtWord?_singleton absent]
    simp [split?_eq_none_of_append unclosed]
  · exact hasNestedBlock_of_free fun member => brace (Text.mem_of_mem_trim member)

theorem body_blockNode (head inside : Text) :
    (blockNode head inside).body
      = if opensAt head then
          if hasNestedBlock inside then Node.writeAll (readNodes inside).1 else Text.trim inside
        else Declaration.writeAll (Declaration.parseAll inside) := by
  rw [blockNode]
  split
  · split <;> rfl
  · rfl

theorem write_blockNode (head inside : Text) :
    (blockNode head inside).write
      = Text.trim head ++ '{' :: ((blockNode head inside).body ++ ['}']) := by
  rw [blockNode]
  split
  · split <;> simp [Node.write, Node.body]
  · simp [Node.write, Node.body]

/-- A written node starts with its prelude, its selector or its brace, and ends with a mark. -/
theorem Node.Read.trimmed_write {text : Text} {node : Node} (read : node.Read text) :
    node.write ≠ [] ∧ Text.Trimmed node.write := by
  have brace : Text.Trimmed ['}'] := by decide
  cases read with
  | @statement prelude opens free =>
    have semicolon : Text.Trimmed [';'] := by decide
    have ink : Text.trim prelude ≠ [] := by
      intro none
      simp [opensAt_eq, none] at opens
    have whole := (Text.trimmed_trim prelude).between ink semicolon (by decide) []
    rw [List.append_nil] at whole
    exact ⟨by simp [Node.write], whole⟩
  | @block head inside isHead _ =>
    rw [write_blockNode]
    refine ⟨by simp, ?_⟩
    by_cases none : Text.trim head = []
    · have first : Text.Trimmed ['{'] := by decide
      have whole := first.between (by decide) brace (by decide) (blockNode head inside).body
      rw [none]
      simpa using whole
    · have whole := (Text.trimmed_trim head).between none brace (by decide)
        ('{' :: (blockNode head inside).body)
      simpa using whole

theorem Node.writeAll_eq_join (nodes : List Node) :
    Node.writeAll nodes = Text.join [] (nodes.map Node.write) := by
  induction nodes with
  | nil => rfl
  | cons node nodes ih =>
    cases nodes with
    | nil => simp [Node.writeAll, Text.join]
    | cons next nodes =>
      rw [Node.writeAll, ih, List.map_cons, List.map_cons, List.map_cons, Text.join_cons_cons]
      rfl

theorem trimmed_writeAll_readNodes (text : Text) :
    Text.Trimmed (Node.writeAll (readNodes text).1) := by
  rw [Node.writeAll_eq_join]
  apply Text.trimmed_join
  simp only [List.forall_mem_map]
  exact fun node member => (read_of_mem_readNodes member).trimmed_write

/-! ### Reading written nodes -/

/-- Wherever the node is written, a node is read that is written the same. -/
def Node.Stable (node : Node) : Prop :=
  ∃ again : Node, again.write = node.write ∧
    ∀ rest, readNodes (node.write ++ rest) = (again :: (readNodes rest).1, (readNodes rest).2)

theorem stable_statement {prelude : Text} (opens : opensAt prelude = true)
    (free : ∀ c ∈ prelude, endsPrelude c = false) :
    (Node.statement (Text.trim prelude)).Stable := by
  refine ⟨.statement (Text.trim prelude), rfl, fun rest => ?_⟩
  have trimmedOpens := (opensAt_trim prelude).trans opens
  have step := readNodes_statement trimmedOpens (fun c member =>
    free c (Text.mem_of_mem_trim member)) rest
  rw [Text.trim_trim] at step
  simpa [Node.write] using step

/-- A block is stable if its body is closed and the same is written for it again. -/
theorem stable_blockNode {head inside : Text} (isHead : IsHead head)
    (paired : Paired (blockNode head inside).body)
    (same : (blockNode (Text.trim head) (blockNode head inside).body).body
      = (blockNode head inside).body) : (blockNode head inside).Stable := by
  refine ⟨blockNode (Text.trim head) (blockNode head inside).body, ?_, fun rest => ?_⟩
  · rw [write_blockNode, write_blockNode, Text.trim_trim, same]
  · have step := readNodes_head isHead.trim (paired.split? rest)
    rw [write_blockNode]
    simpa using step

theorem readNodes_writeAll_of_stable {nodes : List Node} (each : ∀ node ∈ nodes, node.Stable) :
    ∃ again, Node.writeAll again = Node.writeAll nodes ∧ ∀ rest,
      readNodes (Node.writeAll nodes ++ rest)
        = (again ++ (readNodes rest).1, (readNodes rest).2) := by
  induction nodes with
  | nil => exact ⟨[], rfl, fun rest => rfl⟩
  | cons node nodes ih =>
    rw [List.forall_mem_cons] at each
    obtain ⟨first, sameFirst, readFirst⟩ := each.1
    obtain ⟨others, sameOthers, readOthers⟩ := ih each.2
    refine ⟨first :: others, ?_, fun rest => ?_⟩
    · rw [Node.writeAll, Node.writeAll, sameFirst, sameOthers]
    · rw [Node.writeAll, List.append_assoc, readFirst, readOthers]
      rfl

/-- Nodes that last are stable. The recursion is on the text of groups. -/
theorem stable_of_mem_readNodes {text : Text}
    (lasting : ∀ node ∈ Node.everywhere (readNodes text).1, node.Lasting) {node : Node}
    (member : node ∈ (readNodes text).1) : node.Stable := by
  have here := lasting node (Node.mem_everywhere member)
  cases read_of_mem_readNodes member with
  | statement opens free => exact stable_statement opens free
  | @block head inside isHead shorter =>
    apply stable_blockNode isHead here.paired
    rw [body_blockNode (Text.trim head), opensAt_trim]
    cases opens : opensAt head with
    | false =>
      -- A rule, whose declarations are cut and read one by one again.
      have rule : blockNode head inside
          = .rule (Text.trim head) (Declaration.parseAll inside) := by simp [blockNode, opens]
      rw [rule] at here ⊢
      exact Declaration.writeAll_parseAll_writeAll here.own
    | true =>
      cases nested : hasNestedBlock inside with
      | false =>
        have body : (blockNode head inside).body = Text.trim inside := by
          simp [body_blockNode, opens, nested]
        rw [body, hasNestedBlock_trim nested, if_pos rfl, if_neg (by simp), Text.trim_trim]
      | true =>
        -- A group, whose nodes are stable by recursion; if they show no block any more, they are
        -- kept as a body, which is their text.
        have group : blockNode head inside = .group (Text.trim head) (readNodes inside).1 := by
          simp [blockNode, opens, nested]
        have inner : ∀ child ∈ (readNodes inside).1, child.Stable := by
          intro child listed
          refine @stable_of_mem_readNodes inside (fun deeper below => ?_) child listed
          exact lasting deeper (Node.everywhere_children below _
            (group ▸ Node.mem_everywhere member))
        obtain ⟨again, same, read⟩ := readNodes_writeAll_of_stable inner
        have whole := read []
        rw [List.append_nil, readNodes_of_blank Text.blank_nil, List.append_nil] at whole
        rw [group, Node.body, whole, if_pos rfl, same,
          Text.trim_of_trimmed (trimmed_writeAll_readNodes inside), ite_self]
termination_by text.length
decreasing_by exact shorter opens

/-! ### Reading the text left over -/

theorem readNodes_trim_unclosed {head opened : Text} (isHead : IsHead head)
    (unclosed : Bracket.curly.split? opened = none) :
    readNodes (Text.trim (head ++ '{' :: opened)) = ([], Text.trim (head ++ '{' :: opened)) := by
  obtain ⟨before, front, back, after, blank, rfl, rfl, same⟩ :=
    exists_trim_cut isHead.1 opened
  have frontHead : IsHead front := by
    refine ⟨fun member => isHead.1 (List.mem_append_right before member), fun opens member => ?_⟩
    exact isHead.2 (by rwa [opensAt_blank_append blank]) (List.mem_append_right before member)
  have step := readNodes_headUnclosed frontHead (split?_eq_none_of_append unclosed)
  rwa [← same, Text.trim_trim] at step

/-- What was left over is left over again. -/
theorem readNodes_leftover (text : Text) :
    readNodes (readNodes text).2 = ([], (readNodes text).2) := by
  induction text using reader_induction with
  | last text isHead =>
    rw [readNodes_last isHead]
    exact readNodes_of_blank Text.blank_nil
  | unclosed head opened isHead unclosed =>
    rw [readNodes_headUnclosed isHead unclosed]
    exact readNodes_trim_unclosed isHead unclosed
  | statement prelude after opens free ih =>
    rw [readNodes_statement opens free]
    exact ih
  | block head inside after isHead closed ih =>
    rw [readNodes_head isHead closed]
    exact ih

/-! ### A stray brace -/

/-- Rules for everything that hold nothing. -/
def hollow (count : Nat) : Text := (List.replicate count r"*{}".toList).flatten

theorem hollow_succ (count : Nat) : hollow (count + 1) = '*' :: '{' :: '}' :: hollow count := by
  rw [hollow, List.replicate_succ, List.flatten_cons]
  rfl

theorem slash_not_mem_hollow (count : Nat) : '/' ∉ hollow count := by
  induction count with
  | zero => decide
  | succ count ih => simp [hollow_succ, ih]

/-- The stray brace closes the rule that it is written in, and stands behind it. -/
theorem writeAll_readNodes_hollow (count : Nat) :
    (readNodes (hollow count ++ ['}'])).2 = [] ∧
      Node.writeAll (readNodes (hollow count ++ ['}'])).1 = hollow (count + 1) ++ ['}'] := by
  induction count with
  | zero =>
    -- Alone, the brace is a property without a value.
    have read : readNodes ['}'] = ([.rule anySelector [{ property := ['}'] }]], []) := by
      rw [readNodes_last ⟨by decide, by decide⟩]
      rfl
    rw [hollow, List.replicate_zero, List.flatten_nil, List.nil_append, read]
    exact ⟨rfl, rfl⟩
  | succ count ih =>
    have closed : Bracket.curly.split? ('}' :: (hollow count ++ ['}']))
        = some ([], hollow count ++ ['}']) := Paired.nil.split? _
    have isHead : IsHead anySelector := ⟨by decide, by decide⟩
    have step := readNodes_head isHead closed
    have node : blockNode anySelector [] = .rule anySelector [] := rfl
    have parts : hollow (count + 1) ++ ['}']
        = anySelector ++ '{' :: '}' :: (hollow count ++ ['}']) := by
      rw [hollow_succ]
      rfl
    rw [parts, step, node, hollow_succ (count + 1)]
    refine ⟨ih.1, ?_⟩
    rw [Node.writeAll, ih.2]
    rfl

/-! ### Reading written sheets -/

theorem Node.writeAll_append (first second : List Node) :
    Node.writeAll (first ++ second) = Node.writeAll first ++ Node.writeAll second := by
  induction first with
  | nil => rfl
  | cons node nodes ih => rw [List.cons_append, Node.writeAll, ih, Node.writeAll, List.append_assoc]

theorem write_parse_of_settled {text : Text} (settled : Comment.strip text = text) :
    (parse text).write = Node.writeAll (readNodes text).1 ++ (readNodes text).2 := by
  rw [parse_eq, settled, write]

/-- A written sheet that shows no comment is written the same when it is read, if all its nodes
last. With a stray closing brace behind its nodes it is not: for each reading there is one more
empty rule before the brace. -/
theorem write_parse_of_lasting {css : Text}
    (settled : Comment.strip (parse css).write = (parse css).write)
    (lasting : (parse css).Lasting) :
    (parse (parse css).write).write = (parse css).write ∧
    ((parse css).trailing = [] → ∀ count,
      (parse ((parse css).write ++ hollow count ++ ['}'])).write
        = (parse css).write ++ hollow (count + 1) ++ ['}']) := by
  obtain ⟨again, same, read⟩ : ∃ again, Node.writeAll again = Node.writeAll (parse css).nodes ∧
      ∀ rest, readNodes (Node.writeAll (parse css).nodes ++ rest)
        = (again ++ (readNodes rest).1, (readNodes rest).2) :=
    readNodes_writeAll_of_stable fun node => stable_of_mem_readNodes lasting
  constructor
  · -- What was left over opens a block that is never closed, behind whatever it stands.
    have leftover : readNodes (parse css).trailing = ([], (parse css).trailing) :=
      readNodes_leftover (Comment.strip css)
    have whole := read (parse css).trailing
    rw [leftover, List.append_nil] at whole
    rw [write_parse_of_settled settled, write, whole, same]
  · intro none count
    have free : '/' ∉ hollow count ++ ['}'] := by simp [slash_not_mem_hollow]
    -- No slash stands behind the sheet, so a comment that it left open stays open.
    have still : Comment.strip ((parse css).write ++ (hollow count ++ ['}']))
        = (parse css).write ++ (hollow count ++ ['}']) := by
      rw [(Comment.apart_of_slashFree free).strip, settled, Comment.strip_of_slashFree free]
    obtain ⟨done, stray⟩ := writeAll_readNodes_hollow count
    have nodes : (parse css).write = Node.writeAll (parse css).nodes := by
      rw [write, none, List.append_nil]
    rw [List.append_assoc, write_parse_of_settled still, nodes, read, done, List.append_nil,
      Node.writeAll_append, same, stray, List.append_assoc]

/-- A value without a property, a property without a value and an open parenthesis in a group, and
declarations without a selector. -/
def messy : Text :=
  r"@media x{a{b:c;:d;e;--f:calc(1}}@import y;g:h!important".toList

theorem write_parse_of_lasting_messy :
    ((parse messy).Lasting ∧ (parse messy).trailing = []) ∧
    (parse messy).write = (r"@media x{a{b: c;d;e;--f: calc(1}}@import y;" ++
      r"*{g: h !important}").toList ∧
    (parse (parse messy).write).write = (parse messy).write ∧
    (parse ((parse messy).write ++ ['}'])).write
      = (parse messy).write ++ r"*{}}".toList := by
  have settled : Comment.strip (parse messy).write = (parse messy).write := by decide +kernel
  have lasting : (parse messy).Lasting := by decide +kernel
  have done : (parse messy).trailing = [] := by decide +kernel
  obtain ⟨still, grows⟩ := write_parse_of_lasting settled lasting
  have stray := grows done 0
  rw [List.append_assoc, List.append_assoc] at stray
  exact ⟨⟨lasting, done⟩, by decide +kernel, still, stray⟩

end ThemeCss.Sheet
