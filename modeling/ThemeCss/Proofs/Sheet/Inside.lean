import ThemeCss.Proofs.Sheet.Declaration
import ThemeCss.Proofs.Sheet.Reader

/-!
# What is read inside a block

The body of an at-rule lies between a brace and its partner, so every block in it is closed. The
reader does not see it that way: it takes the next opening brace for that of a block, also one in a
string or behind a backslash. As long as each brace that it takes stands in code, its view is that
of the scan that found the partner: no block of the body is passed over, and nothing is left over.
-/
namespace ThemeCss

namespace Scan.Bracket

variable {bracket : Bracket}

/-- Without an opening bracket the depth does not rise. -/
theorem depth?_le_of_free {text : Text} (free : bracket.opener ∉ text) {depth reached : Nat}
    {mode : Mode} (counted : bracket.depth? depth mode text = some reached) : reached ≤ depth := by
  have counts := counts_of_depth? counted
  clear counted
  induction counts with
  | nil => exact Nat.le_refl _
  | opens => exact absurd (List.mem_cons_self ..) free
  | closes _ _ ih => exact Nat.le_succ_of_le (ih fun member => free (List.mem_cons_of_mem _ member))
  | passes _ _ _ ih => exact ih fun member => free (List.mem_cons_of_mem _ member)

/-- A count that comes down to zero is at zero behind a text without opening brackets. -/
theorem level_of_free {text rest : Text} (free : bracket.opener ∉ text) {mode : Mode}
    (counted : bracket.depth? 0 mode (text ++ rest) = some 0) :
    bracket.depth? 0 mode text = some 0 ∧ bracket.depth? 0 (mode.after text) rest = some 0 := by
  rw [depth?_append] at counted
  cases start : bracket.depth? 0 mode text with
  | none => simp [start] at counted
  | some reached =>
    obtain rfl : reached = 0 := Nat.le_zero.mp (depth?_le_of_free free start)
    rw [start, Option.bind_some] at counted
    exact ⟨rfl, counted⟩

/-- Inside a balanced text the bracket before it is still open. -/
theorem Balanced.start {start rest : Text} (balanced : bracket.Balanced (start ++ rest)) :
    ∃ reached, bracket.depth? 1 .code start = some (reached + 1) := by
  rw [Balanced, depth?_append] at balanced
  cases counted : bracket.depth? 0 .code start with
  | none => simp [counted] at balanced
  | some reached => exact ⟨reached, depth?_add 1 counted⟩

/-- A text that closes the bracket before it reaches over the partner of that bracket. -/
theorem past_partner (sound : bracket.Sound) {start rest inside after : Text}
    (found : bracket.split? (start ++ rest) = some (inside, after))
    (down : bracket.depth? 1 .code start = some 0) :
    ∃ before, start = inside ++ bracket.closer :: before ∧ after = before ++ rest := by
  obtain ⟨balanced, _⟩ := balanced_of_split? sound found
  have short : ∀ gap, inside ≠ start ++ gap := by
    rintro gap rfl
    obtain ⟨reached, counted⟩ := balanced.start
    simp [counted] at down
  rcases List.append_eq_append_iff.mp (splitFrom?_sound found) with
    ⟨gap, parts, _⟩ | ⟨gap, rfl, parts⟩
  · exact absurd parts (short gap)
  · cases gap with
    | nil => exact absurd (by simp) (short [])
    | cons c before =>
      obtain ⟨rfl, rfl⟩ := List.cons.inj parts
      exact ⟨before, rfl, rfl⟩

end Scan.Bracket

namespace Sheet

open Scan

/-! ### What the reader comes to -/

/-- Reading a text, the reader comes behind the first part to this head and takes the brace behind
it for the opening one of a block. -/
inductive Meets : Text → Text → Text → Text → Prop where
  | here {head opened : Text} : IsHead head → Meets (head ++ '{' :: opened) [] head opened
  | behindStatement {prelude after before head opened : Text} : opensAt prelude = true →
      (∀ c ∈ prelude, endsPrelude c = false) → Meets after before head opened →
        Meets (prelude ++ ';' :: after) (prelude ++ ';' :: before) head opened
  | behindBlock {first inside after before head opened : Text} : IsHead first →
      Bracket.curly.split? (inside ++ '}' :: after) = some (inside, after) →
      Meets after before head opened →
        Meets (first ++ '{' :: (inside ++ '}' :: after)) (first ++ '{' :: (inside ++ '}' :: before))
          head opened

/-- The bodies that the reader reads as sheets of their own, at every depth. -/
inductive Entered : Text → Text → Prop where
  | here {text before prelude opened inside after : Text} : Meets text before prelude opened →
      opensAt prelude = true → Bracket.curly.split? opened = some (inside, after) →
        hasNestedBlock inside = true → Entered text inside
  | within {text outer inside : Text} : Entered text outer → Entered outer inside →
      Entered text inside

mutual

def Node.inner : Node → List Node
  | .group _ children => Node.everywhere children
  | _ => []

/-- All nodes of a tree, those in a group behind the group. -/
def Node.everywhere : List Node → List Node
  | [] => []
  | node :: nodes => node :: (node.inner ++ Node.everywhere nodes)

end

theorem Node.mem_everywhere {node : Node} {nodes : List Node} (member : node ∈ nodes) :
    node ∈ Node.everywhere nodes := by
  induction nodes with
  | nil => simp at member
  | cons first rest ih =>
    rw [Node.everywhere]
    rcases List.mem_cons.mp member with rfl | member
    · exact List.mem_cons_self ..
    · exact List.mem_cons_of_mem _ (List.mem_append_right _ (ih member))

mutual

theorem Node.inner_children {node : Node} {prelude : Text} {children : List Node}
    (member : node ∈ Node.everywhere children) :
    (outer : Node) → .group prelude children ∈ outer.inner → node ∈ outer.inner
  | .group _ nodes, listed => Node.everywhere_children member nodes listed
  | .rule .., listed | .statement _, listed | .block .., listed => by simp [Node.inner] at listed

/-- A tree holds all that its groups hold. -/
theorem Node.everywhere_children {node : Node} {prelude : Text} {children : List Node}
    (member : node ∈ Node.everywhere children) :
    (nodes : List Node) → .group prelude children ∈ Node.everywhere nodes →
      node ∈ Node.everywhere nodes
  | [], listed => by simp [Node.everywhere] at listed
  | first :: rest, listed => by
    simp only [Node.everywhere, List.mem_cons, List.mem_append] at listed ⊢
    rcases listed with rfl | inside | behind
    · exact .inr (.inl member)
    · exact .inr (.inl (Node.inner_children member first inside))
    · exact .inr (.inr (Node.everywhere_children member rest behind))

end

/-- Nothing is left over exactly when every block that the reader comes to is closed. -/
theorem trailing_eq_nil_iff (text : Text) :
    (readNodes text).2 = [] ↔ ∀ before head opened, Meets text before head opened →
      Bracket.curly.split? opened ≠ none := by
  constructor
  · intro done before head opened met unclosed
    induction met with
    | here isHead => exact trailing_headUnclosed isHead unclosed done
    | behindStatement opens free _ ih =>
      rw [readNodes_statement opens free] at done
      exact ih done unclosed
    | behindBlock isHead closed _ ih =>
      rw [readNodes_head isHead closed] at done
      exact ih done unclosed
  · intro each
    induction text using reader_induction with
    | last text isHead => rw [readNodes_last isHead]
    | unclosed head opened isHead unclosed =>
      exact absurd unclosed (each _ head opened (.here isHead))
    | statement prelude after opens free ih =>
      rw [readNodes_statement opens free]
      apply ih
      intro before head opened met
      exact each _ head opened (.behindStatement opens free met)
    | block head inside after isHead closed ih =>
      rw [readNodes_head isHead closed]
      apply ih
      intro before last behind met
      exact each _ last behind (.behindBlock isHead closed met)

namespace Meets

variable {text before head opened : Text}

theorem text_eq (met : Meets text before head opened) :
    text = before ++ (head ++ '{' :: opened) := by
  induction met with
  | here => rfl
  | behindStatement _ _ _ ih => rw [ih]; simp
  | behindBlock _ _ _ ih => rw [ih]; simp

/-- A closed block that the reader comes to is read as a node. -/
theorem mem_readNodes (met : Meets text before head opened) {inside after : Text}
    (closed : Bracket.curly.split? opened = some (inside, after)) :
    blockNode head inside ∈ (readNodes text).1 := by
  induction met with
  | here isHead =>
    rw [readNodes_head isHead closed]
    exact List.mem_cons_self ..
  | behindStatement opens free _ ih =>
    rw [readNodes_statement opens free]
    exact List.mem_cons_of_mem _ (ih closed)
  | behindBlock isHead found _ ih =>
    rw [readNodes_head isHead found]
    exact List.mem_cons_of_mem _ (ih closed)

end Meets

/-- From a head on the reader takes the brace behind it, or goes on behind its block. -/
theorem Meets.cases_head {head opened before last behind : Text} (isHead : IsHead head)
    (met : Meets (head ++ '{' :: opened) before last behind) :
    (before = [] ∧ last = head ∧ behind = opened) ∨ ∃ inside after further,
      Bracket.curly.split? opened = some (inside, after) ∧
      before = head ++ '{' :: (inside ++ '}' :: further) ∧ Meets after further last behind := by
  generalize whole : head ++ '{' :: opened = text at met
  cases met with
  | here lastHead =>
    obtain ⟨rfl, rfl⟩ := Text.append_cons_unique isHead.1 lastHead.1 whole
    exact .inl ⟨rfl, rfl, rfl⟩
  | @behindStatement prelude after _ _ _ opens free met =>
    -- The semicolon behind a sign would stand in the head.
    have noBrace : '{' ∉ prelude := fun member => absurd (free '{' member) (by decide)
    obtain ⟨_, same, _⟩ | ⟨further, rfl, _⟩ := Text.append_cons_cases noBrace whole.symm
    · exact absurd same (by decide)
    · rw [← opensAt_append (c := ';') rfl prelude further] at opens
      exact absurd (by simp) (isHead.2 opens)
  | @behindBlock first inside after further _ _ firstHead closed met =>
    obtain ⟨rfl, rfl⟩ := Text.append_cons_unique isHead.1 firstHead.1 whole
    exact .inr ⟨inside, after, further, closed, rfl, met⟩

/-! ### The view of the scan -/

section block

variable {inside : Text} (closed : Closed inside) (rest : Text)
include closed

theorem after_block : Mode.code.after ('{' :: (inside ++ '}' :: rest)) = Mode.code.after rest := by
  rw [Mode.after_cons, Mode.step_code_ordinary rfl, Mode.after_append, closed.after,
    Mode.after_cons, Mode.step_code_ordinary rfl]

theorem depth?_block (balanced : Bracket.curly.Balanced inside) :
    Bracket.curly.depth? 0 .code ('{' :: (inside ++ '}' :: rest))
      = Bracket.curly.depth? 0 .code rest := by
  have whole := balanced.enclose Bracket.curly_sound closed
  have blockClosed : Closed ('{' :: inside ++ ['}']) :=
    .cons rfl (closed.append (.cons rfl closed_nil))
  have parts : '{' :: (inside ++ '}' :: rest) = ('{' :: inside ++ ['}']) ++ rest := by simp
  rw [parts, Bracket.depth?_append, blockClosed.after]
  exact congrArg (Option.bind · _) whole

end block

/-- Every brace is balanced, and scans are in code where the reader takes a brace for that of a
block. -/
structure Orderly (mode : Mode) (text : Text) : Prop where
  level : Bracket.curly.depth? 0 mode text = some 0
  live : ∀ before head opened, Meets text before head opened → mode.after (before ++ head) = .code

namespace Orderly

variable {mode : Mode}

theorem behindStatement {prelude after : Text} (orderly : Orderly mode (prelude ++ ';' :: after))
    (opens : opensAt prelude = true) (free : ∀ c ∈ prelude, endsPrelude c = false) :
    Bracket.curly.depth? 0 mode (prelude ++ [';']) = some 0 ∧
      Orderly (mode.after (prelude ++ [';'])) after := by
  have noBrace : '{' ∉ prelude ++ [';'] := by
    intro member
    rcases List.mem_append.mp member with member | member
    · exact absurd (free '{' member) (by decide)
    · exact absurd member (by decide)
  have level := orderly.level
  rw [List.append_cons] at level
  obtain ⟨start, rest⟩ := @Bracket.level_of_free .curly _ _ noBrace _ level
  refine ⟨start, rest, fun before head opened met => ?_⟩
  have code := orderly.live _ _ _ (.behindStatement opens free met)
  rw [← Mode.after_append]
  simpa using code

/-- The scan finds the end of a block that the reader comes to. -/
theorem block {head opened : Text} (orderly : Orderly mode (head ++ '{' :: opened))
    (isHead : IsHead head) :
    Bracket.curly.depth? 0 mode head = some 0 ∧ mode.after head = .code ∧
      Bracket.curly.depth? 1 .code opened = some 0 ∧
      ∃ inside after, Bracket.curly.split? opened = some (inside, after) := by
  obtain ⟨start, rest⟩ := @Bracket.level_of_free .curly _ _ isHead.1 _ orderly.level
  have code : mode.after head = .code := by simpa using orderly.live _ _ _ (.here isHead)
  have inner : Bracket.curly.depth? 1 .code opened = some 0 := by
    rw [code] at rest
    simpa [Bracket.depth?, Bracket.curly, Mode.step_code_ordinary (c := '{') rfl] using rest
  exact ⟨start, code, inner, Bracket.exists_splitFrom? Bracket.curly_sound inner⟩

theorem behindBlock {head inside after : Text}
    (orderly : Orderly mode (head ++ '{' :: (inside ++ '}' :: after))) (isHead : IsHead head)
    (closed : Bracket.curly.split? (inside ++ '}' :: after) = some (inside, after)) :
    Orderly .code after := by
  obtain ⟨start, code, _⟩ := orderly.block isHead
  obtain ⟨balanced, insideClosed⟩ := Bracket.balanced_of_split? Bracket.curly_sound closed
  constructor
  · have level := orderly.level
    rwa [Bracket.depth?_append, start, code, Option.bind_some,
      depth?_block insideClosed _ balanced] at level
  · intro before last opened met
    have reached := orderly.live _ _ _ (.behindBlock isHead closed met)
    simp only [List.append_assoc, List.cons_append] at reached
    rwa [Mode.after_append, code, after_block insideClosed] at reached

/-- Every block that the reader comes to is closed. -/
theorem exists_split? {text before head opened : Text} (orderly : Orderly mode text)
    (met : Meets text before head opened) :
    ∃ inside after, Bracket.curly.split? opened = some (inside, after) := by
  induction met generalizing mode with
  | here isHead => exact (orderly.block isHead).2.2.2
  | behindStatement opens free _ ih => exact ih (orderly.behindStatement opens free).2
  | behindBlock isHead closed _ ih => exact ih (orderly.behindBlock isHead closed)

theorem trailing {text : Text} (orderly : Orderly mode text) : (readNodes text).2 = [] := by
  rw [trailing_eq_nil_iff]
  intro before head opened met unclosed
  obtain ⟨inside, after, closed⟩ := orderly.exists_split? met
  simp [closed] at unclosed

/-- The reader comes to every block of an orderly text. -/
theorem exists_meets {before opened : Text} (orderly : Orderly mode (before ++ '{' :: opened))
    (code : mode.after before = .code) (level : Bracket.curly.depth? 0 mode before = some 0) :
    ∃ front head, before = front ++ head ∧ Meets (before ++ '{' :: opened) front head opened := by
  generalize whole : before ++ '{' :: opened = text at orderly ⊢
  -- By the length of the text, as the reader goes on behind each statement and each block.
  induction size : text.length using Nat.strongRecOn generalizing mode before text with
  | ind size ih =>
    subst size
    rcases reader_cases text with ⟨absent, _⟩ | ⟨prelude, after, rfl, opens, free⟩ |
      ⟨head, rest, rfl, isHead⟩
    · exact absurd (whole ▸ by simp) absent
    · have noBrace : '{' ∉ prelude := fun member => absurd (free '{' member) (by decide)
      obtain ⟨_, same, _⟩ | ⟨further, rfl, rfl⟩ := Text.append_cons_cases noBrace whole.symm
      · exact absurd same (by decide)
      · obtain ⟨start, behind⟩ := orderly.behindStatement opens free
        rw [List.append_cons, Mode.after_append] at code
        rw [List.append_cons, Bracket.depth?_append, start, Option.bind_some] at level
        obtain ⟨front, head, rfl, met⟩ := ih _ (by simp; omega) code level _ rfl behind rfl
        exact ⟨prelude ++ ';' :: front, head, by simp, .behindStatement opens free met⟩
    · obtain ⟨rfl, _, rfl⟩ | ⟨further, rfl, rfl⟩ := Text.append_cons_cases isHead.1 whole.symm
      · exact ⟨[], before, rfl, .here isHead⟩
      · obtain ⟨start, headCode, _, inside, after, closed⟩ := orderly.block isHead
        have down : Bracket.curly.depth? 1 .code further = some 0 := by
          rw [Bracket.depth?_append, start, headCode, Option.bind_some] at level
          simpa [Bracket.depth?, Bracket.curly, Mode.step_code_ordinary (c := '{') rfl] using level
        -- The brace stands at depth zero, so the block that was met ends before it.
        obtain ⟨before, rfl, rfl⟩ := Bracket.past_partner Bracket.curly_sound closed down
        obtain ⟨balanced, insideClosed⟩ := Bracket.balanced_of_split? Bracket.curly_sound closed
        rw [List.append_assoc, List.cons_append] at closed orderly
        rw [Mode.after_append, headCode] at code
        rw [Bracket.depth?_append, start, headCode, Option.bind_some] at level
        obtain ⟨front, last, rfl, met⟩ := ih _ (by simp; omega)
          ((after_block insideClosed _).symm.trans code)
          ((depth?_block insideClosed _ balanced).symm.trans level) _ rfl
          (orderly.behindBlock isHead closed) rfl
        refine ⟨head ++ '{' :: (inside ++ '}' :: front), last, by simp [Bracket.curly], ?_⟩
        rw [List.append_assoc, List.cons_append]
        exact .behindBlock isHead closed met

end Orderly

/-! ### Bodies -/

/-- The body of a block is orderly if scans are in code at the braces that the reader takes. -/
theorem Orderly.of_body {opened inside after : Text}
    (closed : Bracket.curly.split? opened = some (inside, after))
    (live : ∀ before head opened, Meets inside before head opened → Closed (before ++ head)) :
    Orderly .code inside where
  level := (Bracket.balanced_of_split? Bracket.curly_sound closed).1
  live := live

theorem Entered.exists_split? {text body : Text} (entered : Entered text body) :
    ∃ opened after, Bracket.curly.split? opened = some (body, after) := by
  induction entered with
  | here _ _ closed => exact ⟨_, _, closed⟩
  | within _ _ _ ih => exact ih

/-- The nodes of a body are part of the tree. -/
theorem Entered.mem_everywhere {text body : Text} (entered : Entered text body) {node : Node}
    (member : node ∈ Node.everywhere (readNodes body).1) :
    node ∈ Node.everywhere (readNodes text).1 := by
  induction entered with
  | here met opens closed nested =>
    have group := met.mem_readNodes closed
    rw [blockNode, if_pos opens, if_pos nested] at group
    exact Node.everywhere_children member _ (Node.mem_everywhere group)
  | within _ _ outerIh innerIh => exact outerIh (innerIh member)

/-- Nothing is left over in a body that is read as a sheet, and each of its blocks is read as a node
of the tree, if scans are in code at the braces that the reader takes for those of blocks. -/
theorem trailing_entered {css body : Text} (entered : Entered (Comment.strip css) body)
    (live : ∀ before head opened, Meets body before head opened → Closed (before ++ head)) :
    (readNodes body).2 = [] ∧
      ∀ before opened, body = before ++ '{' :: opened → Closed before →
        Bracket.curly.Balanced before →
        ∃ front head inside after, before = front ++ head ∧ Meets body front head opened ∧
          Bracket.curly.split? opened = some (inside, after) ∧
          blockNode head inside ∈ Node.everywhere (parse css).nodes := by
  obtain ⟨_, _, closed⟩ := entered.exists_split?
  have orderly := Orderly.of_body closed live
  constructor
  · exact orderly.trailing
  · rintro before opened rfl code level
    obtain ⟨front, head, parts, met⟩ := orderly.exists_meets code level
    obtain ⟨inside, after, found⟩ := orderly.exists_split? met
    refine ⟨front, head, inside, after, parts, met, found, ?_⟩
    exact entered.mem_everywhere (Node.mem_everywhere (met.mem_readNodes found))

/-- A rule with a brace in a string, and a block behind it. -/
def quoting : Text :=
  "b".toList ++ '{' :: (r#"c:"{""#.toList ++ '}' ::
    ("@d".toList ++ '{' :: ("e:f".toList ++ ['}'])))

theorem meets_quoting {before head opened : Text} (met : Meets quoting before head opened) :
    (before = [] ∧ head = "b".toList) ∨ head = "@d".toList ∧ opened = r"e:f}".toList ∧
      before = "b".toList ++ '{' :: (r#"c:"{""#.toList ++ ['}']) := by
  have first : Bracket.curly.split? (r#"c:"{""#.toList ++ '}' :: r"@d{e:f}".toList)
      = some (r#"c:"{""#.toList, r"@d{e:f}".toList) := by decide
  have second : Bracket.curly.split? r"e:f}".toList = some ("e:f".toList, []) := by decide
  have behind : r"@d{e:f}".toList = "@d".toList ++ '{' :: r"e:f}".toList := by decide
  rcases met.cases_head ⟨by decide, by decide⟩ with ⟨rfl, rfl, _⟩ | ⟨_, _, _, closed, rfl, met⟩
  · exact .inl ⟨rfl, rfl⟩
  · obtain ⟨rfl, rfl⟩ := Prod.mk.inj (Option.some.inj (first.symm.trans closed))
    rw [behind] at met
    rcases met.cases_head ⟨by decide, by decide⟩ with ⟨rfl, rfl, rfl⟩ | ⟨_, _, _, closed, rfl, met⟩
    · exact .inr ⟨rfl, rfl, rfl⟩
    · obtain ⟨rfl, rfl⟩ := Prod.mk.inj (Option.some.inj (second.symm.trans closed))
      exact absurd met.text_eq (by simp)

theorem trailing_entered_quoting :
    (readNodes quoting).2 = [] ∧ .block "@d".toList "e:f".toList
      ∈ Node.everywhere (parse ("@a".toList ++ '{' :: (quoting ++ ['}']))).nodes := by
  have kept : Comment.strip ("@a".toList ++ '{' :: (quoting ++ ['}']))
      = "@a".toList ++ '{' :: (quoting ++ ['}']) := Comment.strip_of_openerFree (by decide)
  have entered : Entered (Comment.strip ("@a".toList ++ '{' :: (quoting ++ ['}']))) quoting := by
    have closed : Bracket.curly.split? (quoting ++ ['}']) = some (quoting, []) := by decide
    rw [kept]
    exact Entered.here (.here ⟨by decide, by decide⟩) (by decide) closed (by decide)
  have live : ∀ before head opened, Meets quoting before head opened → Closed (before ++ head) := by
    intro before head opened met
    rcases meets_quoting met with ⟨rfl, rfl⟩ | ⟨rfl, _, rfl⟩ <;> decide
  obtain ⟨done, each⟩ := trailing_entered entered live
  refine ⟨done, ?_⟩
  obtain ⟨front, head, inside, after, parts, met, found, listed⟩ := each
    ("b".toList ++ '{' :: (r#"c:"{""#.toList ++ '}' :: "@d".toList)) r"e:f}".toList
    (by decide) (by decide) (by decide)
  have body : Bracket.curly.split? r"e:f}".toList = some ("e:f".toList, []) := by decide
  obtain ⟨rfl, rfl⟩ := Prod.mk.inj (Option.some.inj (body.symm.trans found))
  rcases meets_quoting met with ⟨rfl, rfl⟩ | ⟨rfl, _, rfl⟩
  · exact absurd parts (by decide)
  · exact listed

end Sheet
end ThemeCss
