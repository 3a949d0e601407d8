import ThemeCss.Proofs.Scan.Closed
import ThemeCss.Scan.Bracket

/-!
# Balanced texts

A text is balanced when every closing bracket in code has an opening one before it in the text and
every opening one is closed in it. `depth?` counts the brackets that are open and fails at a closing
one without a partner; where it does not fail, `Counts` says how it goes. The search for a partner
finds exactly the end of the balanced text behind its opening bracket, whatever follows.
-/
namespace ThemeCss.Scan

namespace Bracket

/-- The number of open brackets behind a text, unless one closes that was never opened. -/
def depth? (bracket : Bracket) (depth : Nat) (mode : Mode) : Text → Option Nat
  | [] => some depth
  | c :: rest =>
    if mode.isCode ∧ c = bracket.opener then bracket.depth? (depth + 1) (mode.step c) rest
    else if mode.isCode ∧ c = bracket.closer then
      match depth with
      | 0 => none
      | below + 1 => bracket.depth? below (mode.step c) rest
    else bracket.depth? depth (mode.step c) rest

def Balanced (bracket : Bracket) (text : Text) : Prop := bracket.depth? 0 .code text = some 0

instance (bracket : Bracket) (text : Text) : Decidable (bracket.Balanced text) :=
  inferInstanceAs (Decidable (_ = _))

/-- Brackets are two characters that a scan in code passes over. -/
structure Sound (bracket : Bracket) : Prop where
  opens : isOrdinary bracket.opener = true
  closes : isOrdinary bracket.closer = true
  distinct : bracket.opener ≠ bracket.closer

theorem round_sound : round.Sound := ⟨rfl, rfl, by decide⟩

theorem curly_sound : curly.Sound := ⟨rfl, rfl, by decide⟩

variable {bracket : Bracket}

/-- Read from a depth and a mode on, the text opens and closes brackets up to the depth reached. -/
inductive Counts (bracket : Bracket) : Nat → Mode → Text → Nat → Prop
  | nil {depth : Nat} {mode : Mode} : Counts bracket depth mode [] depth
  | opens {depth reached : Nat} {rest : Text}
      (deeper : Counts bracket (depth + 1) (Mode.code.step bracket.opener) rest reached) :
      Counts bracket depth .code (bracket.opener :: rest) reached
  | closes {below reached : Nat} {rest : Text} (apart : bracket.closer ≠ bracket.opener)
      (lower : Counts bracket below (Mode.code.step bracket.closer) rest reached) :
      Counts bracket (below + 1) .code (bracket.closer :: rest) reached
  | passes {depth reached : Nat} {mode : Mode} {c : Char} {rest : Text}
      (opens : ¬(mode.isCode = true ∧ c = bracket.opener))
      (closes : ¬(mode.isCode = true ∧ c = bracket.closer))
      (level : Counts bracket depth (mode.step c) rest reached) :
      Counts bracket depth mode (c :: rest) reached

theorem counts_of_depth? {depth reached : Nat} {mode : Mode} {text : Text}
    (counted : bracket.depth? depth mode text = some reached) :
    Counts bracket depth mode text reached := by
  induction text generalizing depth mode with
  | nil =>
    obtain rfl := Option.some.inj counted
    exact .nil
  | cons c rest ih =>
    simp only [depth?] at counted
    split at counted
    next opens =>
      obtain ⟨code, rfl⟩ := opens
      obtain rfl := Mode.isCode_iff.mp code
      exact .opens (ih counted)
    next opens =>
      split at counted
      next closes =>
        obtain ⟨code, rfl⟩ := closes
        obtain rfl := Mode.isCode_iff.mp code
        -- At depth zero the count would have failed, so there is room below.
        cases depth with
        | zero => cases counted
        | succ below => exact .closes (fun same => opens ⟨rfl, same⟩) (ih counted)
      next closes => exact .passes opens closes (ih counted)

theorem Counts.depth?_eq {depth reached : Nat} {mode : Mode} {text : Text}
    (counts : Counts bracket depth mode text reached) :
    bracket.depth? depth mode text = some reached := by
  induction counts with
  | nil => rfl
  | opens _ ih => simpa only [depth?, Mode.isCode_code, true_and, if_true] using ih
  | closes apart _ ih =>
    simpa only [depth?, Mode.isCode_code, true_and, apart, if_false, if_true] using ih
  | passes opens closes _ ih =>
    simp only [depth?]
    rw [if_neg opens, if_neg closes, ih]

theorem depth?_append (depth : Nat) (mode : Mode) (first second : Text) :
    bracket.depth? depth mode (first ++ second)
      = (bracket.depth? depth mode first).bind fun reached =>
          bracket.depth? reached (mode.after first) second := by
  induction first generalizing depth mode with
  | nil => rfl
  | cons c rest ih =>
    simp only [List.cons_append, depth?, Mode.after_cons]
    -- One case for each branch of the count: opening, closing, neither.
    split
    · exact ih _ _
    · split
      · cases depth with
        | zero => rfl
        | succ below => exact ih _ _
      · exact ih _ _

/-- Brackets open around a text stay open in it. -/
theorem Counts.add {depth reached : Nat} {mode : Mode} {text : Text}
    (counts : Counts bracket depth mode text reached) (more : Nat) :
    Counts bracket (depth + more) mode text (reached + more) := by
  induction counts with
  | nil => exact .nil
  | opens _ ih =>
    rw [Nat.add_right_comm] at ih
    exact .opens ih
  | closes apart _ ih =>
    rw [Nat.add_right_comm]
    exact .closes apart ih
  | passes opens closes _ ih => exact .passes opens closes ih

theorem depth?_add {depth reached : Nat} {mode : Mode} {text : Text} (more : Nat)
    (counted : bracket.depth? depth mode text = some reached) :
    bracket.depth? (depth + more) mode text = some (reached + more) :=
  ((counts_of_depth? counted).add more).depth?_eq

theorem Balanced.depth {text : Text} (balanced : bracket.Balanced text) (depth : Nat) :
    bracket.depth? depth .code text = some depth := by
  simpa using depth?_add depth balanced

theorem balanced_append_iff {first second : Text} (closed : Closed first)
    (left : bracket.Balanced first) :
    bracket.Balanced (first ++ second) ↔ bracket.Balanced second := by
  rw [Balanced, depth?_append, left, closed.after]
  rfl

theorem Balanced.append {first second : Text} (closed : Closed first)
    (left : bracket.Balanced first) (right : bracket.Balanced second) :
    bracket.Balanced (first ++ second) := (balanced_append_iff closed left).mpr right

/-- A text without the two brackets leaves the depth as it is. -/
theorem depth?_of_free {text : Text} (depth : Nat) (mode : Mode)
    (free : ∀ c ∈ text, c ≠ bracket.opener ∧ c ≠ bracket.closer) :
    bracket.depth? depth mode text = some depth := by
  induction text generalizing mode with
  | nil => rfl
  | cons c rest ih =>
    simp only [List.forall_mem_cons] at free
    simp only [depth?, free.1.1, free.1.2, and_false, if_false]
    exact ih _ free.2

theorem balanced_of_free {text : Text}
    (free : ∀ c ∈ text, c ≠ bracket.opener ∧ c ≠ bracket.closer) : bracket.Balanced text :=
  depth?_of_free 0 .code free

theorem balanced_append_free_iff {first second : Text}
    (free : ∀ c ∈ second, c ≠ bracket.opener ∧ c ≠ bracket.closer) :
    bracket.Balanced (first ++ second) ↔ bracket.Balanced first := by
  rw [Balanced, Balanced, depth?_append]
  cases bracket.depth? 0 .code first with
  | none => simp
  | some reached => rw [Option.bind_some, depth?_of_free _ _ free]

/-- Balanced closed texts stay so between a pair of brackets. -/
theorem Balanced.enclose (sound : bracket.Sound) {text : Text} (closed : Closed text)
    (balanced : bracket.Balanced text) :
    bracket.Balanced (bracket.opener :: text ++ [bracket.closer]) := by
  simp only [Balanced, List.cons_append, depth?, Mode.isCode_code, true_and, if_true,
    Mode.step_code_ordinary sound.opens, depth?_append, Balanced.depth balanced,
    Option.bind_some, closed.after]
  simp [sound.distinct.symm]

/-! The search counts from the opening bracket, so its depth is one more than the text's own. -/

section search

variable {depth : Nat} {mode : Mode} {c : Char} {rest : Text}

theorem splitFrom?_opens (opens : mode.isCode ∧ c = bracket.opener) :
    bracket.splitFrom? (depth + 1 : Nat) mode (c :: rest)
      = (bracket.splitFrom? (depth + 2 : Nat) (mode.step c) rest).map fun (inside, after) =>
          (c :: inside, after) := by
  have rises : bracket.weight mode c = 1 := by simp [weight, opens.1, opens.2]
  have deeper : ((depth + 1 : Nat) : Int) + 1 = (depth + 2 : Nat) := by omega
  simp only [splitFrom?, rises, deeper]
  rw [if_neg (by omega)]

theorem splitFrom?_closes (sound : bracket.Sound) (closes : mode.isCode ∧ c = bracket.closer) :
    bracket.splitFrom? (depth + 1 : Nat) mode (c :: rest)
      = if depth = 0 then some ([], rest)
        else (bracket.splitFrom? (depth : Nat) (mode.step c) rest).map fun (inside, after) =>
          (c :: inside, after) := by
  have falls : bracket.weight mode c = -1 := by
    simp [weight, closes.1, closes.2, sound.distinct.symm]
  have lower : ((depth + 1 : Nat) : Int) + -1 = (depth : Nat) := by omega
  simp only [splitFrom?, falls, lower]
  by_cases bottom : depth = 0
  · rw [if_pos (by omega), if_pos bottom]
  · rw [if_neg (by omega), if_neg bottom]

theorem splitFrom?_passes (opens : ¬(mode.isCode ∧ c = bracket.opener))
    (closes : ¬(mode.isCode ∧ c = bracket.closer)) :
    bracket.splitFrom? (depth : Nat) mode (c :: rest)
      = (bracket.splitFrom? (depth : Nat) (mode.step c) rest).map fun (inside, after) =>
          (c :: inside, after) := by
  have level : bracket.weight mode c = 0 := by
    simp only [weight]
    cases code : mode.isCode with
    | false => rfl
    | true =>
      rw [if_neg (by simp), if_neg (fun same => opens ⟨code, same⟩),
        if_neg (fun same => closes ⟨code, same⟩)]
  simp only [splitFrom?, level, Int.add_zero]
  rw [if_neg (by omega)]

end search

/-- The partner of an opening bracket stands behind the balanced text that follows it. -/
theorem splitFrom?_of_depth (sound : bracket.Sound) {depth : Nat} {mode : Mode}
    {inside after : Text} (counted : bracket.depth? depth mode inside = some 0)
    (closed : mode.after inside = .code) :
    bracket.splitFrom? (depth + 1 : Nat) mode (inside ++ bracket.closer :: after)
      = some (inside, after) := by
  have counts := counts_of_depth? counted
  clear counted
  generalize bottom : 0 = reached at counts
  induction counts with
  | nil =>
    -- The count ends at zero, so the very next closing bracket is the partner.
    subst bottom
    obtain rfl : _ = Mode.code := closed
    rw [List.nil_append, splitFrom?_closes sound ⟨rfl, rfl⟩, if_pos rfl]
  | opens _ ih =>
    rw [List.cons_append, splitFrom?_opens ⟨rfl, rfl⟩, ih closed bottom, Option.map_some]
  | closes _ _ ih =>
    rw [List.cons_append, splitFrom?_closes sound ⟨rfl, rfl⟩, if_neg (by omega), ih closed bottom,
      Option.map_some]
  | passes opens closes _ ih =>
    rw [List.cons_append, splitFrom?_passes opens closes, ih closed bottom, Option.map_some]

theorem split?_of_balanced (sound : bracket.Sound) {inside : Text} (closed : Closed inside)
    (balanced : bracket.Balanced inside) (after : Text) :
    bracket.split? (inside ++ bracket.closer :: after) = some (inside, after) :=
  splitFrom?_of_depth sound balanced closed

/-- What a search for a partner passes over is closed and brings the depth down to zero. -/
theorem depth?_of_splitFrom? (sound : bracket.Sound) {depth : Nat} {mode : Mode}
    {text inside after : Text}
    (found : bracket.splitFrom? (depth + 1 : Nat) mode text = some (inside, after)) :
    bracket.depth? depth mode inside = some 0 ∧ mode.after inside = .code := by
  induction text generalizing depth mode inside with
  | nil => simp [splitFrom?] at found
  | cons c rest ih =>
    by_cases opens : mode.isCode ∧ c = bracket.opener
    · rw [splitFrom?_opens opens] at found
      simp only [Option.map_eq_some_iff, Prod.mk.injEq] at found
      obtain ⟨⟨head, tail⟩, deeper, rfl, rfl⟩ := found
      simp only [depth?, if_pos opens, Mode.after_cons]
      exact ih deeper
    · by_cases closes : mode.isCode ∧ c = bracket.closer
      · rw [splitFrom?_closes sound closes] at found
        cases depth with
        -- The search ends here: nothing was passed over, and in code.
        | zero =>
          simp only [if_true, Option.some.injEq, Prod.mk.injEq] at found
          obtain ⟨rfl, rfl⟩ := found
          exact ⟨rfl, Mode.isCode_iff.mp closes.1⟩
        -- A deeper bracket closes and belongs to the text passed over.
        | succ below =>
          rw [if_neg (by omega)] at found
          simp only [Option.map_eq_some_iff, Prod.mk.injEq] at found
          obtain ⟨⟨head, tail⟩, deeper, rfl, rfl⟩ := found
          simp only [depth?, if_neg opens, if_pos closes, Mode.after_cons]
          exact ih deeper
      · rw [splitFrom?_passes opens closes] at found
        simp only [Option.map_eq_some_iff, Prod.mk.injEq] at found
        obtain ⟨⟨head, tail⟩, deeper, rfl, rfl⟩ := found
        simp only [depth?, if_neg opens, if_neg closes, Mode.after_cons]
        exact ih deeper

/-- Where the depth comes down to zero, the search ends before. -/
theorem exists_splitFrom? (sound : bracket.Sound) {depth : Nat} {mode : Mode} {text : Text}
    (counted : bracket.depth? (depth + 1) mode text = some 0) :
    ∃ inside after, bracket.splitFrom? (depth + 1 : Nat) mode text = some (inside, after) := by
  have counts := counts_of_depth? counted
  clear counted
  generalize start : depth + 1 = entered at counts
  generalize bottom : 0 = reached at counts
  induction counts generalizing depth with
  -- A text that ends one bracket deep cannot have come down to zero.
  | nil => omega
  | opens _ ih =>
    subst start
    obtain ⟨inside, after, found⟩ := ih rfl bottom
    exact ⟨_ :: inside, after, by rw [splitFrom?_opens ⟨rfl, rfl⟩, found, Option.map_some]⟩
  | @closes below _ rest _ _ ih =>
    obtain rfl := Nat.succ.inj start
    rw [splitFrom?_closes sound ⟨rfl, rfl⟩]
    cases depth with
    | zero => exact ⟨[], rest, if_pos rfl⟩
    | succ below =>
      obtain ⟨inside, after, found⟩ := ih rfl bottom
      exact ⟨_ :: inside, after, by rw [if_neg (by omega), found, Option.map_some]⟩
  | passes opens closes _ ih =>
    obtain ⟨inside, after, found⟩ := ih start bottom
    exact ⟨_ :: inside, after, by rw [splitFrom?_passes opens closes, found, Option.map_some]⟩

theorem balanced_of_split? (sound : bracket.Sound) {text inside after : Text}
    (found : bracket.split? text = some (inside, after)) :
    bracket.Balanced inside ∧ Closed inside :=
  @depth?_of_splitFrom? _ sound 0 _ _ _ _ found

/-- What stands behind a closed bracket makes no difference to it. -/
theorem split?_append (sound : bracket.Sound) {text inside after : Text}
    (found : bracket.split? text = some (inside, after)) (rest : Text) :
    bracket.split? (text ++ rest) = some (inside, after ++ rest) := by
  obtain ⟨balanced, closed⟩ := balanced_of_split? sound found
  rw [splitFrom?_sound found, List.append_assoc]
  exact split?_of_balanced sound closed balanced (after ++ rest)

/-- A search from an opening bracket looks for the end of what stands behind it. -/
theorem closing?_of_opener (sound : bracket.Sound) {text after : Text} {start : Nat}
    (opens : text.drop start = bracket.opener :: after) :
    bracket.closing? text start
      = (bracket.split? after).map fun (inside, _) => start + 1 + inside.length := by
  have rises : bracket.weight .code bracket.opener = 1 := by simp [weight]
  rw [closing?, opens, splitFrom?]
  simp only [rises]
  rw [if_neg (by omega), Int.zero_add, Mode.step_code_ordinary sound.opens, split?, Option.map_map]
  congr 1
  funext parts
  simp only [Function.comp, List.length_cons]
  omega

end Bracket
end ThemeCss.Scan
