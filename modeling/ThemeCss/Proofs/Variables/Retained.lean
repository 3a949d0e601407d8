import ThemeCss.Proofs.Scan.Commented
import ThemeCss.Proofs.Variables.Bare
import ThemeCss.Proofs.Variables.Reach
import ThemeCss.Proofs.Variables.Values

/-!
# What resolving keeps of a text

Resolving puts something in the place of each call: what comes of its definition or of its fallback,
or the call in small letters. A property that passes from a text to the fallbacks in it, and to the
text with its calls replaced by texts that have it, passes from the definitions and the value to
what comes of them. Two properties are of this kind: to be a value that closes its strings, and to
hold no characters but certain ones.
-/
namespace ThemeCss

namespace Scan

/-- Behind a comma outside strings and parentheses stands what closes what it opens. -/
theorem of_splitComma? {depth : Nat} {mode : Mode} {text before after : Text}
    (found : splitComma? depth mode text = some (before, after))
    (counted : Bracket.round.depth? depth mode text = some 0) (closed : mode.after text = .code) :
    Bracket.round.Balanced after ∧ Closed after := by
  induction text generalizing depth mode before with
  | nil => cases found
  | cons c rest ih =>
    simp only [splitComma?] at found
    rw [Mode.after_cons] at closed
    split at found
    next here =>
      obtain ⟨code, rfl, level⟩ := here
      obtain ⟨rfl, rfl⟩ := Prod.mk.inj (Option.some.inj found)
      obtain rfl := Mode.isCode_iff.mp code
      obtain rfl : depth = 0 := by omega
      exact ⟨counted, closed⟩
    next =>
      obtain ⟨⟨head, tail⟩, deeper, same⟩ := Option.map_eq_some_iff.mp found
      obtain ⟨_, rfl⟩ := Prod.mk.inj same
      -- The count of the arguments is that of the brackets, as long as it does not fall below zero.
      cases Bracket.counts_of_depth? counted with
      | opens inside =>
        exact ih (by exact_mod_cast deeper) inside.depth?_eq closed
      | closes _ lower =>
        rw [if_neg (by decide), if_pos ⟨rfl, rfl⟩] at deeper
        exact ih (by simpa using deeper) lower.depth?_eq closed
      | passes opens closes level =>
        simp only [Bracket.round] at opens closes
        rw [if_neg opens, if_neg closes] at deeper
        exact ih deeper level.depth?_eq closed

section trim

variable {text : Text} (plain : '\\' ∉ text)
include plain

/-- Without backslashes the blanks at the ends are nothing to a scan. -/
theorem Closed.trim (closed : Closed text) : Closed (Text.trim text) := by
  obtain ⟨left, right, leftBlank, rightBlank, parts⟩ := Text.exists_trim text
  have inside : '\\' ∉ Text.trim text := fun member => plain (Text.mem_of_mem_trim member)
  have settled := Mode.settled_of_not_escaped (@Mode.escaped_after .code rfl _ inside)
  rw [parts, List.append_assoc, closed_append_iff (closed_of_blank leftBlank), Closed,
    Mode.after_append] at closed
  by_cases none : right = []
  · rwa [none] at closed
  · rw [(Mode.sound_code.after _).after_ordinary
      (fun c member => isOrdinary_of_blank (rightBlank c member)) none, settled] at closed
    exact closed

omit plain in
theorem Bracket.Balanced.trim (balanced : Bracket.round.Balanced text) :
    Bracket.round.Balanced (Text.trim text) := by
  obtain ⟨left, right, leftBlank, rightBlank, parts⟩ := Text.exists_trim text
  have free {blanks : Text} (blank : Text.Blank blanks) :
      ∀ c ∈ blanks, c ≠ Bracket.round.opener ∧ c ≠ Bracket.round.closer := by
    intro c member
    constructor <;> rintro rfl <;> exact absurd (blank _ member) (by decide)
  rwa [parts, Bracket.balanced_append_free_iff (free rightBlank),
    Bracket.balanced_append_iff (closed_of_blank leftBlank)
      (Bracket.balanced_of_free (free leftBlank))] at balanced

end trim

end Scan

namespace Variables

open Scan Template

/-! ### Calls in a text -/

/-- A text up to the end of its first call: what stands before it, its letters and its arguments,
which are balanced. -/
theorem exists_call {text before call arguments rest : Text}
    (found : splitCall? .code text = some (before, call))
    (closes : Bracket.round.split? (call.drop 4) = some (arguments, rest)) :
    ∃ letters, Text.isKeyword ['v', 'a', 'r'] letters = true ∧ call.take 4 = letters ++ ['('] ∧
      text = before ++ (letters ++ ['('] ++ arguments ++ [')'] ++ rest) ∧
      Bracket.round.Balanced arguments ∧ Closed arguments := by
  obtain ⟨letters, opened, keyword, rfl, parts, head, body⟩ := exists_of_splitCall? found
  rw [body] at closes
  obtain ⟨balanced, closed⟩ := Bracket.balanced_of_split? Bracket.round_sound closes
  refine ⟨letters, keyword, head, ?_, balanced, closed⟩
  rw [parts, Bracket.splitFrom?_sound closes]
  simp [Bracket.round]

/-- The calls of a text have balanced arguments, which are a part of the text. -/
theorem of_mem_pieces {value head arguments : Text} (member : .call head arguments ∈ pieces value) :
    (∃ letters, Text.isKeyword ['v', 'a', 'r'] letters = true ∧ head = letters ++ ['(']) ∧
      Bracket.round.Balanced arguments ∧ Closed arguments ∧ arguments <:+: value := by
  fun_induction pieces value with
  | case1 => simp at member
  | case2 => simp at member
  | case3 text before call found inner rest closes ih =>
    obtain ⟨letters, keyword, first, whole, balanced, closed⟩ := exists_call found closes
    simp only [List.mem_cons, reduceCtorEq, Piece.call.injEq, false_or] at member
    rcases member with ⟨rfl, rfl⟩ | later
    · exact ⟨⟨letters, keyword, first⟩, balanced, closed,
        before ++ (letters ++ ['(']), [')'] ++ rest, by rw [whole]; simp⟩
    · obtain ⟨head, balanced, closed, inside⟩ := ih later
      refine ⟨head, balanced, closed, inside.trans ?_⟩
      exact ⟨before ++ (letters ++ ['('] ++ inner ++ [')']), [], by rw [whole]; simp⟩

section call

variable {letters : Text} (keyword : Text.isKeyword ['v', 'a', 'r'] letters = true)
include keyword

theorem trimmed_of_isKeyword : Text.Trimmed letters := by
  have inked : ∀ c ∈ letters, Text.isBlank c = false := by
    intro c member
    cases blank : Text.isBlank c with
    | false => rfl
    | true =>
      have apart := breaks_of_blank blank
      simp only [Text.breaks, callWord, List.all_cons, Bool.and_eq_true] at apart
      have apart : Text.breaks ['v', 'a', 'r'] c = true := by
        simp only [Text.breaks, List.all_cons, Bool.and_eq_true]
        exact ⟨apart.1, apart.2.1, apart.2.2.1, rfl⟩
      exact absurd member (Text.not_mem_of_isKeyword apart keyword)
  exact ⟨fun c first => inked c (List.mem_of_mem_head? first),
    fun c last => inked c (List.mem_of_getLast? last)⟩

/-- A call is a value, and it closes its strings. -/
theorem isValue_call {arguments : Text} (balanced : Bracket.round.Balanced arguments)
    (closed : Closed arguments) : IsValue (letters ++ ['('] ++ arguments ++ [')']) ∧
      Closed (letters ++ ['('] ++ arguments ++ [')']) := by
  have ordinary := closed_of_isKeyword keyword
  have whole : letters ++ ['('] ++ arguments ++ [')'] = letters ++ ('(' :: arguments ++ [')']) := by
    simp
  have right : Text.Trimmed [')'] := by decide
  have some : letters ≠ [] := by
    rintro rfl
    cases keyword
  refine ⟨⟨by simp, ?_, ?_⟩, ?_⟩
  · have trimmed :=
      (trimmed_of_isKeyword keyword).between some right (by simp) (['('] ++ arguments)
    rwa [← List.append_assoc] at trimmed
  · rw [whole]
    exact Bracket.Balanced.append ordinary
      (Bracket.balanced_of_free (unparenthesised_of_isKeyword keyword))
      (balanced.enclose Bracket.round_sound closed)
  · rw [whole]
    refine ordinary.append ?_
    rw [List.cons_append, closed_cons rfl, closed_append_iff closed]
    rfl

end call

/-! ### Replacing the calls of a text -/

/-- Text and calls that never close are written as they are. -/
structure KeepsText (replace : Piece → Text) : Prop where
  text : ∀ content, replace (.text content) = content
  unclosed : ∀ rest, replace (.unclosed rest) = rest

/-- What passes to fallbacks and to texts whose calls are replaced, resolving keeps. -/
theorem resolve_induction {P : Text → Prop} {definitions : Definitions}
    (defined : ∀ entry ∈ definitions, P entry.2)
    (literal : ∀ value head arguments, P value → .call head arguments ∈ pieces value →
      P (literalCall arguments))
    (alternative : ∀ value head arguments fallback, P value →
      .call head arguments ∈ pieces value → calledFallback? arguments = some fallback → P fallback)
    (gather : ∀ value replace, KeepsText replace → P value →
      (∀ head arguments, .call head arguments ∈ pieces value → P (replace (.call head arguments))) →
        P ((pieces value).flatMap replace))
    (resolving : List Text) {value : Text} (here : P value) :
    P (resolve definitions resolving value) := by
  -- The recursion is that of the resolver: into a fallback, or into a definition.
  rw [resolve_eq_flatMap]
  refine gather value _ ⟨fun _ => rfl, fun _ => rfl⟩ here fun head arguments member => ?_
  have spare : ∀ fallback, calledFallback? arguments = some fallback →
      P (resolve definitions resolving fallback) := fun fallback given =>
    resolve_induction defined literal alternative gather resolving
      (alternative value head arguments fallback here member given)
  simp only [resolvePiece]
  cases found : usable? definitions resolving (calledName arguments) with
  | none =>
    cases given : calledFallback? arguments with
    | none => exact literal value head arguments here member
    | some fallback => exact spare fallback given
  | some raw =>
    have inner : P (resolve definitions (calledName arguments :: resolving) raw) :=
      resolve_induction defined literal alternative gather _
        (defined _ (Entries.mem_of_find?_eq_some (find?_of_usable? found)))
    dsimp only
    split
    · cases given : calledFallback? arguments with
      | none => exact inner
      | some fallback => exact spare fallback given
    · exact inner
termination_by ((available definitions resolving).length, value.length)
decreasing_by
  · exact Prod.Lex.right _
      (Nat.lt_of_le_of_lt (fallback_length_le given) (arguments_length_lt member))
  · exact Prod.Lex.left _ _ (available_length_lt found)

/-- Closed values in the place of calls keep a closed text what it is. -/
theorem alike_flatMap {replace : Piece → Text} (keeps : KeepsText replace) {value : Text}
    (closed : Closed value) (calls : ∀ head arguments, .call head arguments ∈ pieces value →
      IsValue (replace (.call head arguments)) ∧ Closed (replace (.call head arguments))) :
    Alike value ((pieces value).flatMap replace) ∧ Closed ((pieces value).flatMap replace) := by
  fun_induction pieces value with
  | case1 => simpa [keeps.text] using ⟨Alike.refl _, closed⟩
  | case2 text before call found =>
    have same : [.text before, .unclosed call].flatMap replace = text := by
      simp [keeps.text, keeps.unclosed, (splitCall?_sound found).1]
    rw [same]
    exact ⟨.refl _, closed⟩
  | case3 text before call found arguments rest closes ih =>
    obtain ⟨letters, keyword, _, whole, balanced, closedInner⟩ := exists_call found closes
    have front : Closed before := (firstCall_of_splitCall? found).after
    obtain ⟨old, closedOld⟩ := isValue_call keyword balanced closedInner
    obtain ⟨new, closedNew⟩ := calls _ _ (List.mem_cons_of_mem _ (List.mem_cons_self ..))
    obtain ⟨behind, closedBehind⟩ := ih (closed_of_split? closed found closes)
      fun head inner member =>
        calls head inner (List.mem_cons_of_mem _ (List.mem_cons_of_mem _ member))
    -- The call and its replacement are values between the same closed texts.
    rw [List.flatMap_cons, List.flatMap_cons, keeps.text, whole]
    exact ⟨Alike.append front front (.refl before)
        (Alike.append closedOld closedNew (alike_of_isValue old new) behind),
      front.append (closedNew.append closedBehind)⟩

/-! ### Values that close their strings -/

/-- A value that closes its strings and holds no backslash. -/
structure Rounded (value : Text) : Prop extends IsValue value where
  closed : Closed value
  plain : '\\' ∉ value

theorem mem_of_mem_literalCall {arguments : Text} {c : Char} (member : c ∈ literalCall arguments) :
    c ∈ arguments ∨ c ∈ ['v', 'a', 'r', '(', ')'] := by
  simp only [literalCall, callWord, List.mem_append, List.mem_cons, List.not_mem_nil,
    or_false] at member ⊢
  tauto

/-- A fallback is what stands behind the comma, trimmed. -/
theorem exists_of_calledFallback? {arguments fallback : Text}
    (given : calledFallback? arguments = some fallback) :
    fallback ≠ [] ∧ ∃ before after, splitComma? 0 .code arguments = some (before, after) ∧
      fallback = Text.trim after := by
  obtain ⟨found, ink⟩ := Option.filter_eq_some_iff.mp given
  refine ⟨by simpa using ink, ?_⟩
  rw [splitArguments] at found
  split at found
  next before after cut => exact ⟨before, after, cut, (Option.some.inj found).symm⟩
  next => cases found

theorem mem_of_mem_flatMap {replace : Piece → Text} (keeps : KeepsText replace) {value : Text}
    {c : Char} (held : c ∈ (pieces value).flatMap replace) :
    c ∈ value ∨ ∃ head arguments, .call head arguments ∈ pieces value ∧
      c ∈ replace (.call head arguments) := by
  obtain ⟨piece, member, inside⟩ := List.mem_flatMap.mp held
  have written : ∀ c ∈ piece.write, c ∈ value := by
    intro c inPiece
    rw [← flatMap_write_pieces value]
    exact List.mem_flatMap.mpr ⟨piece, member, inPiece⟩
  cases piece with
  | text content => exact .inl (written c (by rwa [keeps.text] at inside))
  | unclosed rest => exact .inl (written c (by rwa [keeps.unclosed] at inside))
  | call head arguments => exact .inr ⟨head, arguments, member, inside⟩

/-- Resolving brings in no characters but those of the definitions and of a call in small
letters. -/
theorem mem_resolve {allowed : Char → Prop} {definitions : Definitions}
    (defined : ∀ entry ∈ definitions, ∀ c ∈ entry.2, allowed c)
    (letters : ∀ c ∈ ['v', 'a', 'r', '(', ')'], allowed c) (resolving : List Text) {value : Text}
    (here : ∀ c ∈ value, allowed c) : ∀ c ∈ resolve definitions resolving value, allowed c := by
  refine resolve_induction (P := fun text => ∀ c ∈ text, allowed c) defined ?_ ?_ ?_ resolving here
  · intro value head arguments within member c held
    obtain ⟨_, _, _, inside⟩ := of_mem_pieces member
    rcases mem_of_mem_literalCall held with written | letter
    · exact within c (inside.subset written)
    · exact letters c letter
  · intro value head arguments fallback within member given c held
    obtain ⟨_, _, _, inside⟩ := of_mem_pieces member
    obtain ⟨_, before, after, cut, rfl⟩ := exists_of_calledFallback? given
    refine within c (inside.subset ?_)
    rw [splitComma?_sound cut]
    exact List.mem_append_right _ (List.mem_cons_of_mem _ (Text.mem_of_mem_trim held))
  · intro value replace keeps within calls c held
    rcases mem_of_mem_flatMap keeps held with old | ⟨head, arguments, member, new⟩
    · exact within c old
    · exact calls head arguments member c new

/-- A call of such a value is one, as it is written when nothing replaces it. -/
theorem Rounded.literalCall {value head arguments : Text} (rounded : Rounded value)
    (member : .call head arguments ∈ pieces value) : Rounded (literalCall arguments) := by
  obtain ⟨_, balanced, closed, inside⟩ := of_mem_pieces member
  have small : Text.isKeyword ['v', 'a', 'r'] ['v', 'a', 'r'] = true := by decide
  obtain ⟨call, closedCall⟩ := isValue_call small balanced closed
  refine ⟨call, closedCall, fun held => ?_⟩
  rcases mem_of_mem_literalCall held with written | letter
  · exact rounded.plain (inside.subset written)
  · exact absurd letter (by decide)

/-- So are its fallbacks. -/
theorem Rounded.fallback {value head arguments fallback : Text} (rounded : Rounded value)
    (member : .call head arguments ∈ pieces value)
    (given : calledFallback? arguments = some fallback) : Rounded fallback := by
  obtain ⟨_, balanced, closed, inside⟩ := of_mem_pieces member
  obtain ⟨some, before, after, cut, rfl⟩ := exists_of_calledFallback? given
  obtain ⟨balancedAfter, closedAfter⟩ := of_splitComma? cut balanced closed
  have plain : '\\' ∉ after := by
    intro held
    refine rounded.plain (inside.subset ?_)
    rw [splitComma?_sound cut]
    exact List.mem_append_right _ (List.mem_cons_of_mem _ held)
  exact ⟨⟨some, Text.trimmed_trim after, balancedAfter.trim⟩, closedAfter.trim plain,
    fun held => plain (Text.mem_of_mem_trim held)⟩

/-- And it stays one when such values take the places of its calls. -/
theorem Rounded.flatMap {value : Text} {replace : Piece → Text} (keeps : KeepsText replace)
    (rounded : Rounded value) (calls : ∀ head arguments, .call head arguments ∈ pieces value →
      Rounded (replace (.call head arguments))) : Rounded ((pieces value).flatMap replace) := by
  obtain ⟨alike, closed⟩ := alike_flatMap keeps rounded.closed fun head arguments member =>
    ⟨(calls head arguments member).toIsValue, (calls head arguments member).closed⟩
  refine ⟨alike.isValue rounded.toIsValue, closed, fun held => ?_⟩
  rcases mem_of_mem_flatMap keeps held with old | ⟨head, arguments, member, new⟩
  · exact rounded.plain old
  · exact (calls head arguments member).plain new

/-- What comes of a value that closes its strings is one too. -/
theorem Rounded.resolve {definitions : Definitions}
    (defined : ∀ entry ∈ definitions, Rounded entry.2) (resolving : List Text) {value : Text}
    (rounded : Rounded value) : Rounded (resolve definitions resolving value) :=
  resolve_induction defined (fun _ _ _ rounded => rounded.literalCall)
    (fun _ _ _ _ rounded => rounded.fallback) (fun _ _ keeps rounded => rounded.flatMap keeps)
    resolving rounded

end Variables
end ThemeCss
