import Mathlib.Data.List.Basic
import Mathlib.Data.List.Induction
import ThemeCss.Proofs.Lint.Braces

/-!
# Braces matched as nested

Braces that match form blocks: an opening brace, blocks one after the other, and the closing brace.
A brace has a partner when a block starts or ends with it. The check keeps a stack of opening
braces instead. A block leaves the stack as it was, and what stands behind the top of the stack is
nothing but blocks, so the braces that the stack leaves over are those without a partner: no block
ends with a closing brace at which the stack is empty, and no block starts with an opening brace
that stays.
-/
namespace ThemeCss.Lint

open Scan

/-- Blocks one after the other, with blocks in them. -/
inductive Nested : List (Nat × Char) → Prop where
  | nil : Nested []
  | block {opening closing : Nat} {inside behind : List (Nat × Char)} :
      Nested inside → Nested behind →
        Nested ((opening, '{') :: inside ++ (closing, '}') :: behind)

/-- One brace opens a block that the other closes. -/
def Partners (braces : List (Nat × Char)) (opening closing : Nat) : Prop :=
  ∃ before inside behind,
    braces = before ++ (opening, '{') :: inside ++ (closing, '}') :: behind ∧ Nested inside

/-- There are no characters but braces. -/
def Braced (braces : List (Nat × Char)) : Prop := ∀ brace ∈ braces, brace.2 = '{' ∨ brace.2 = '}'

theorem braced_append {first second : List (Nat × Char)} :
    Braced (first ++ second) ↔ Braced first ∧ Braced second := List.forall_mem_append

theorem braced_cons {brace : Nat × Char} {rest : List (Nat × Char)} :
    Braced (brace :: rest) ↔ (brace.2 = '{' ∨ brace.2 = '}') ∧ Braced rest := List.forall_mem_cons

namespace Nested

variable {first second inside : List (Nat × Char)}

theorem append (left : Nested first) (right : Nested second) : Nested (first ++ second) := by
  induction left with
  | nil => exact right
  | block inner _ _ ihBehind =>
    rw [List.append_assoc, List.cons_append]
    exact .block inner ihBehind

theorem enclose (nested : Nested inside) (opening closing : Nat) :
    Nested ((opening, '{') :: inside ++ [(closing, '}')]) := .block nested .nil

/-- A block leaves the stack as it was. -/
theorem foldl_add (nested : Nested inside) (unmatched : Unmatched) :
    inside.foldl Unmatched.add unmatched = unmatched := by
  induction nested generalizing unmatched with
  | nil => rfl
  | block _ _ ihInside ihBehind =>
    rw [List.foldl_append, List.foldl_cons, List.foldl_cons, ihInside, ihBehind]
    rfl

theorem level?_append (nested : Nested inside) (depth : Nat) (rest : List (Nat × Char)) :
    level? depth (inside ++ rest) = level? depth rest := by
  induction nested generalizing depth rest with
  | nil => rfl
  | block _ _ ihInside ihBehind =>
    rw [List.append_assoc, List.cons_append, level?_opening, ihInside, List.cons_append,
      level?_closing, ihBehind]

end Nested

/-! ### The stack -/

/-- What is left over of braces that stand alone. -/
def leftOver (braces : List (Nat × Char)) : Unmatched := braces.foldl Unmatched.add ⟨[], []⟩

theorem leftOver_concat (braces : List (Nat × Char)) (brace : Nat × Char) :
    leftOver (braces ++ [brace]) = (leftOver braces).add brace := by
  rw [leftOver, List.foldl_append]
  rfl

theorem leftOver_append_nested (braces : List (Nat × Char)) {inside : List (Nat × Char)}
    (nested : Nested inside) : leftOver (braces ++ inside) = leftOver braces := by
  rw [leftOver, List.foldl_append, nested.foldl_add, leftOver]

/-- The last brace is put on the stack, takes the top off, or finds the stack empty. -/
theorem leftOver_cases {braces : List (Nat × Char)} (braced : Braced braces) :
    braces = [] ∨ ∃ front last c, braces = front ++ [(last, c)] ∧ Braced front ∧
      (c = '{' ∧ leftOver braces = ⟨(leftOver front).closing, last :: (leftOver front).opening⟩ ∨
        c = '}' ∧ (leftOver front).opening = [] ∧
          leftOver braces = ⟨(leftOver front).closing ++ [last], []⟩ ∨
        c = '}' ∧ ∃ opened, leftOver front
          = ⟨(leftOver braces).closing, opened :: (leftOver braces).opening⟩) := by
  rcases List.eq_nil_or_concat braces with rfl | ⟨front, ⟨last, c⟩, rfl⟩
  · exact .inl rfl
  rw [List.concat_eq_append] at braced ⊢
  rw [braced_append, braced_cons] at braced
  obtain ⟨bracedFront, brace, _⟩ := braced
  refine .inr ⟨front, last, c, rfl, bracedFront, ?_⟩
  rw [leftOver_concat]
  rcases brace with rfl | rfl
  · exact .inl ⟨rfl, rfl⟩
  · cases leftOver front with
    | mk closing stack =>
    cases stack with
    | nil => exact .inr (.inl ⟨rfl, rfl, rfl⟩)
    | cons opened outer => exact .inr (.inr ⟨rfl, opened, rfl⟩)

/-- Behind the brace on top of the stack stand blocks, and before it stands what left the rest of
the stack. -/
theorem exists_top {braces : List (Nat × Char)} (braced : Braced braces) {closing outer : List Nat}
    {place : Nat} (top : leftOver braces = ⟨closing, place :: outer⟩) :
    ∃ before inside, braces = before ++ (place, '{') :: inside ∧ Nested inside ∧
      leftOver before = ⟨closing, outer⟩ := by
  -- By the number of braces: in front of a block that ends last, two shorter texts are looked at.
  induction size : braces.length using Nat.strongRecOn generalizing braces place outer with
  | ind size ih =>
    rcases leftOver_cases braced with rfl | ⟨front, last, c, rfl, bracedFront, step⟩
    · cases top
    rw [List.length_append, List.length_singleton] at size
    rw [top] at step
    rcases step with ⟨rfl, pushed⟩ | ⟨_, _, emptied⟩ | ⟨rfl, opened, state⟩
    · -- The last brace has just been put on the stack.
      obtain ⟨rfl, stack⟩ := Unmatched.mk.inj pushed
      obtain ⟨rfl, rfl⟩ := List.cons.inj stack
      exact ⟨front, [], rfl, .nil, rfl⟩
    · cases (Unmatched.mk.inj emptied).2
    · -- The last brace has closed a block, which stands right behind those behind the top.
      obtain ⟨front, block, rfl, blockNested, left⟩ := ih _ (by omega) bracedFront state rfl
      rw [List.length_append] at size
      obtain ⟨before, inside, rfl, nested, below⟩ :=
        ih _ (by omega) (braced_append.mp bracedFront).1 left rfl
      refine ⟨before, inside ++ ((opened, '{') :: block ++ [(last, '}')]), ?_, ?_, below⟩
      · simp
      · exact nested.append (blockNested.enclose opened last)

/-- When nothing is left over, the braces form blocks. -/
theorem nested_of_leftOver {braces : List (Nat × Char)} (braced : Braced braces)
    (none : leftOver braces = ⟨[], []⟩) : Nested braces := by
  induction size : braces.length using Nat.strongRecOn generalizing braces with
  | ind size ih =>
    rcases leftOver_cases braced with rfl | ⟨front, last, c, rfl, bracedFront, step⟩
    · exact .nil
    rw [List.length_append, List.length_singleton] at size
    rw [none] at step
    rcases step with ⟨_, pushed⟩ | ⟨_, _, found⟩ | ⟨rfl, opened, state⟩
    · cases (Unmatched.mk.inj pushed).2
    · simpa using (Unmatched.mk.inj found).1
    · -- The last block stands behind braces that leave nothing over either.
      obtain ⟨before, block, rfl, blockNested, below⟩ := exists_top bracedFront state
      rw [List.length_append] at size
      have nested := ih _ (by omega) (braced_append.mp bracedFront).1 below rfl
      simpa using nested.append (blockNested.enclose opened last)

theorem leftOver_eq_iff {braces : List (Nat × Char)} (braced : Braced braces) :
    leftOver braces = ⟨[], []⟩ ↔ Nested braces :=
  ⟨nested_of_leftOver braced, fun nested => nested.foldl_add _⟩

/-! ### Closing braces left over -/

theorem mem_closing_foldl {braces : List (Nat × Char)} {unmatched : Unmatched} {place : Nat}
    (member : place ∈ unmatched.closing) :
    place ∈ (braces.foldl Unmatched.add unmatched).closing := by
  induction braces generalizing unmatched with
  | nil => exact member
  | cons brace rest ih =>
    apply ih
    rw [Unmatched.add]
    split
    · exact member
    · split
      · exact member
      · exact List.mem_append_left _ member

/-- A closing brace is left over when the stack is empty before it. -/
theorem mem_closing_iff {braces : List (Nat × Char)} (braced : Braced braces) {place : Nat} :
    place ∈ (leftOver braces).closing ↔
      ∃ before behind, braces = before ++ (place, '}') :: behind ∧
        (leftOver before).opening = [] := by
  constructor
  · intro member
    -- Read from the last brace back: it is the one left over, or that one stands in front of it.
    induction size : braces.length generalizing braces with
    | zero =>
      obtain rfl := List.length_eq_zero_iff.mp size
      cases member
    | succ size ih =>
      rcases leftOver_cases braced with rfl | ⟨front, last, c, rfl, bracedFront, step⟩
      · cases member
      rw [List.length_append, List.length_singleton] at size
      have longer (early : place ∈ (leftOver front).closing) :
          ∃ before behind, front ++ [(last, c)] = before ++ (place, '}') :: behind ∧
            (leftOver before).opening = [] := by
        obtain ⟨before, behind, rfl, empty⟩ := ih bracedFront early (by omega)
        exact ⟨before, behind ++ [(last, c)], by simp, empty⟩
      rcases step with ⟨_, pushed⟩ | ⟨rfl, empty, found⟩ | ⟨_, opened, state⟩
      · exact longer (by rwa [pushed] at member)
      · rw [found] at member
        rcases List.mem_append.mp member with early | late
        · exact longer early
        · obtain rfl := List.mem_singleton.mp late
          exact ⟨front, [], rfl, empty⟩
      · exact longer (by rwa [state])
  · rintro ⟨before, behind, rfl, empty⟩
    rw [leftOver, List.foldl_append, List.foldl_cons, ← leftOver]
    apply mem_closing_foldl
    cases state : leftOver before with
    | mk closed stack =>
    rw [state] at empty
    subst empty
    exact List.mem_append_right _ (List.mem_singleton_self place)

/-! ### Opening braces left over -/

theorem mem_opening_foldl {braces : List (Nat × Char)} {unmatched : Unmatched} {place : Nat}
    (member : place ∈ (braces.foldl Unmatched.add unmatched).opening) :
    place ∈ unmatched.opening ∨ (place, '{') ∈ braces := by
  induction braces generalizing unmatched with
  | nil => exact .inl member
  | cons brace rest ih =>
    rcases ih member with early | late
    · rw [Unmatched.add] at early
      split at early
      next opens =>
        rcases List.mem_cons.mp early with rfl | below
        · exact .inr (List.mem_cons.mpr (.inl (Prod.ext rfl opens.symm)))
        · exact .inl below
      next =>
        split at early
        next top outer stack => exact .inl (stack ▸ List.mem_cons_of_mem _ early)
        next => exact .inl early
    · exact .inr (List.mem_cons_of_mem _ late)

/-- Where the depth falls below what was open, a closing brace stands behind blocks. -/
theorem exists_closer {braces : List (Nat × Char)} (braced : Braced braces) {depth : Nat}
    (falls : level? depth braces = none) :
    ∃ inside closing behind, braces = inside ++ (closing, '}') :: behind ∧ Nested inside := by
  induction size : braces.length using Nat.strongRecOn generalizing braces depth with
  | ind size ih =>
    subst size
    cases braces with
    | nil => cases falls
    | cons brace rest =>
      obtain ⟨place, c⟩ := brace
      obtain ⟨rfl | rfl, bracedRest⟩ := braced_cons.mp braced
      · rw [level?_opening] at falls
        obtain ⟨block, closing, rest, rfl, blockNested⟩ := ih _ (by simp) bracedRest falls rfl
        -- Behind the block the depth is what it was, and falls below it still.
        rw [blockNested.level?_append, level?_closing] at falls
        have bracedBehind := (braced_cons.mp (braced_append.mp bracedRest).2).2
        obtain ⟨inside, closer, behind, rfl, nested⟩ :=
          ih _ (by simp; omega) bracedBehind falls rfl
        exact ⟨(place, '{') :: block ++ (closing, '}') :: inside, closer, behind, by simp,
          .block blockNested nested⟩
      · exact ⟨[], place, rest, rfl, .nil⟩

/-! ### Partners -/

section partners

variable {braces : List (Nat × Char)} (braced : Braced braces)
  (ordered : braces.Pairwise fun first second => first.1 < second.1)
include braced ordered

omit braced in
/-- A brace has one place, so what stands before it is settled. -/
theorem before_unique {before behind before' behind' : List (Nat × Char)} {brace : Nat × Char}
    (parts : braces = before ++ brace :: behind) (parts' : braces = before' ++ brace :: behind') :
    before = before' := by
  have absent : brace ∉ before ∧ brace ∉ behind := by
    rw [parts] at ordered
    obtain ⟨_, rest, apart⟩ := List.pairwise_append.mp ordered
    refine ⟨fun early => ?_, fun late => ?_⟩
    · exact Nat.lt_irrefl _ (apart brace early brace (List.mem_cons_self ..))
    · exact Nat.lt_irrefl _ ((List.pairwise_cons.mp rest).1 brace late)
  exact ((List.append_cons_inj_of_notMem absent.1 absent.2).mp (parts.symm.trans parts')).1

theorem closing_iff {place : Nat} : place ∈ (leftOver braces).closing ↔
    (place, '}') ∈ braces ∧ ¬ ∃ opening, Partners braces opening place := by
  rw [mem_closing_iff braced]
  constructor
  · rintro ⟨before, behind, parts, empty⟩
    refine ⟨by simp [parts], ?_⟩
    rintro ⟨opening, front, inside, rest, parts', nested⟩
    obtain rfl := before_unique ordered parts parts'
    rw [List.append_cons, leftOver_append_nested _ nested, leftOver_concat] at empty
    cases empty
  · rintro ⟨member, alone⟩
    obtain ⟨before, behind, rfl⟩ := List.append_of_mem member
    refine ⟨before, behind, rfl, ?_⟩
    cases state : leftOver before with
    | mk closed stack =>
    cases stack with
    | nil => rfl
    | cons opened stack =>
      obtain ⟨front, inside, rfl, nested, _⟩ := exists_top (braced_append.mp braced).1 state
      exact absurd ⟨opened, front, inside, behind, rfl, nested⟩ alone

theorem opening_iff {place : Nat} : place ∈ (leftOver braces).opening ↔
    (place, '{') ∈ braces ∧ ¬ ∃ closing, Partners braces place closing := by
  constructor
  · intro member
    refine ⟨(mem_opening_foldl member).resolve_left List.not_mem_nil, ?_⟩
    rintro ⟨closing, before, inside, behind, rfl, nested⟩
    rw [List.append_cons _ (closing, '}'), List.append_assoc before] at member ordered
    rw [leftOver, List.foldl_append, ← leftOver,
      leftOver_append_nested before (nested.enclose place closing)] at member
    obtain ⟨front, _, apart⟩ := List.pairwise_append.mp ordered
    obtain ⟨_, _, apartFront⟩ := List.pairwise_append.mp front
    -- The block is gone from the stack, so the brace would have to stand at another place too.
    rcases mem_opening_foldl member with early | late
    · have earlier := (mem_opening_foldl early).resolve_left List.not_mem_nil
      exact Nat.lt_irrefl _ (apartFront _ earlier (place, '{') (List.mem_cons_self ..))
    · exact Nat.lt_irrefl _ (apart (place, '{') (by simp) _ late)
  · rintro ⟨member, alone⟩
    obtain ⟨before, behind, rfl⟩ := List.append_of_mem member
    have stays : (level? 0 behind).isSome := by
      rw [Option.isSome_iff_ne_none]
      intro falls
      have bracedBehind := (braced_cons.mp (braced_append.mp braced).2).2
      obtain ⟨inside, closing, rest, rfl, nested⟩ := exists_closer bracedBehind falls
      exact alone ⟨closing, before, inside, rest, by simp, nested⟩
    rw [leftOver, List.foldl_append, List.foldl_cons, ← leftOver]
    exact @mem_opening_of_level? _ [] _ _ _ stays

end partners

/-! ### Order -/

/-- The check finds closing braces from left to right, and its stack has the last one on top. -/
theorem leftOver_sublist (braces : List (Nat × Char)) :
    (leftOver braces).closing.Sublist (braces.map Prod.fst) ∧
      (leftOver braces).opening.reverse.Sublist (braces.map Prod.fst) := by
  induction braces using List.reverseRecOn with
  | nil => exact ⟨.slnil, .slnil⟩
  | append_singleton front brace ih =>
    obtain ⟨closing, opening⟩ := ih
    rw [leftOver_concat, List.map_append, Unmatched.add]
    have later {places : List Nat} (found : places.Sublist (front.map Prod.fst)) :
        places.Sublist (front.map Prod.fst ++ [brace].map Prod.fst) :=
      found.trans (List.sublist_append_left ..)
    split
    next =>
      refine ⟨later closing, ?_⟩
      rw [List.reverse_cons]
      exact opening.append (List.Sublist.refl _)
    next =>
      split
      next top outer stack =>
        rw [stack, List.reverse_cons] at opening
        exact ⟨later closing, later ((List.sublist_append_left ..).trans opening)⟩
      next => exact ⟨closing.append (List.Sublist.refl _), later opening⟩

/-! ### The braces of a text -/

/-- A brace outside strings in the text with its comments blanked. -/
def Counted (text : Text) (place : Nat) (c : Char) : Prop :=
  (Comment.blank text)[place]? = some c ∧
    (outsideStrings .code (Comment.blank text))[place]? = some true ∧ (c = '{' ∨ c = '}')

theorem mem_braces_iff {text : Text} {place : Nat} {c : Char} :
    (place, c) ∈ braces text ↔ Counted text place c := by
  simp only [braces, Counted, List.mem_map, List.mem_filter, List.mem_zipIdx_iff_getElem?,
    Prod.exists, Prod.mk.injEq, Bool.and_eq_true, Bool.or_eq_true, beq_iff_eq,
    List.getElem?_zip_eq_some]
  constructor
  · rintro ⟨d, outside, spot, ⟨⟨here, shown⟩, rfl, brace⟩, rfl, rfl⟩
    exact ⟨here, shown, brace⟩
  · rintro ⟨here, shown, brace⟩
    exact ⟨c, true, place, ⟨⟨here, shown⟩, rfl, brace⟩, rfl, rfl⟩

theorem braced_braces (text : Text) : Braced (braces text) :=
  fun _ member => (mem_braces_iff.mp member).2.2

theorem le_of_mem_bracesFrom {place : Nat} {mode : Mode} {text : Text} {brace : Nat × Char}
    (member : brace ∈ bracesFrom place mode text) : place ≤ brace.1 := by
  induction text generalizing place mode with
  | nil => cases member
  | cons c rest ih =>
    rw [bracesFrom] at member
    split at member
    · rcases List.mem_cons.mp member with rfl | later
      · exact Nat.le_refl _
      · exact Nat.le_of_succ_le (ih later)
    · exact Nat.le_of_succ_le (ih member)

theorem ordered_bracesFrom (place : Nat) (mode : Mode) (text : Text) :
    (bracesFrom place mode text).Pairwise fun first second => first.1 < second.1 := by
  induction text generalizing place mode with
  | nil => exact .nil
  | cons c rest ih =>
    rw [bracesFrom]
    split
    · exact .cons (fun brace later => le_of_mem_bracesFrom later) (ih _ _)
    · exact ih _ _

theorem ordered_braces (text : Text) :
    (braces text).Pairwise fun first second => first.1 < second.1 := by
  rw [braces_eq]
  exact ordered_bracesFrom 0 .code _

/-- Places in their order, those and only those of which something holds. -/
structure Lists (holds : Nat → Prop) (places : List Nat) : Prop where
  ordered : places.Pairwise (· < ·)
  mem_iff : ∀ place, place ∈ places ↔ holds place

theorem checkBraces_eq (text : Text) : checkBraces text
    = (leftOver (braces text)).closing.map (fun place => unexpectedClosing (lineAt text place)) ++
      (leftOver (braces text)).opening.reverse.map
        fun place => neverClosed (lineAt text place) := by
  simp only [checkBraces, lineAt_blank, leftOver]

/-- The braces outside strings and comments are matched as nested. Those without a partner are
reported, first the closing ones and then the opening ones, both in their order and with their lines
in the text; nothing is reported exactly when the braces form blocks. -/
theorem checkBraces_unmatched (text : Text) :
    (∀ place c, (place, c) ∈ braces text ↔ Counted text place c) ∧
      (∃ closing opening,
        Lists (fun place => (place, '}') ∈ braces text ∧
          ¬ ∃ opener, Partners (braces text) opener place) closing ∧
        Lists (fun place => (place, '{') ∈ braces text ∧
          ¬ ∃ closer, Partners (braces text) place closer) opening ∧
        checkBraces text = closing.map (fun place => unexpectedClosing (lineAt text place)) ++
          opening.map fun place => neverClosed (lineAt text place)) ∧
      (checkBraces text = [] ↔ Nested (braces text)) := by
  have braced := braced_braces text
  have ordered := ordered_braces text
  have places : ((braces text).map Prod.fst).Pairwise (· < ·) := List.pairwise_map.mpr ordered
  obtain ⟨closing, opening⟩ := leftOver_sublist (braces text)
  refine ⟨fun place c => mem_braces_iff, ⟨_, _, ⟨?_, ?_⟩, ⟨?_, ?_⟩, checkBraces_eq text⟩, ?_⟩
  · exact places.sublist closing
  · exact fun place => closing_iff braced ordered
  · exact places.sublist opening
  · intro place
    rw [List.mem_reverse]
    exact opening_iff braced ordered
  · rw [← leftOver_eq_iff braced, checkBraces_eq]
    cases leftOver (braces text) with
    | mk closing opening => simp

end ThemeCss.Lint
