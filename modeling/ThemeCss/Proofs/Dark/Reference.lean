import ThemeCss.Proofs.Dark.Parted
import ThemeCss.Proofs.Scan.Plain

/-!
# Two recognisers of references

The converter of colours seals the references of a value, and the resolver replaces them. Each finds
them with a scan of its own. Both go on behind the parenthesis that closes a reference, and a
reference that never closes runs to the end for both. They differ in where one starts: for the
converter not in the middle of a name. So without strings and addresses they see the same references
exactly if no reference that the resolver goes to stands behind a letter of a name.
-/
namespace ThemeCss.Dark

open Scan

/-- Where the references among the pieces of a text start and end, counted from `start`. -/
def callSpans (start : Nat) : List Piece → List (Nat × Nat)
  | [] => []
  | .text content :: rest => callSpans (start + content.length) rest
  | piece :: rest =>
    (start, start + piece.write.length) :: callSpans (start + piece.write.length) rest

/-- The spans of the references that the resolver goes to in a value. -/
def referenceSpans (value : Text) : List (Nat × Nat) := callSpans 0 (pieces value)

def addressWord : Text := ['u', 'r', 'l', '(']

theorem isQuote_of_isOrdinary {c : Char} (ordinary : isOrdinary c = true) :
    Mode.isQuote c = false := by
  rw [isOrdinary, Bool.and_eq_true] at ordinary
  simpa using ordinary.1

theorem startsSealedCall_eq (text : Text) : startsSealedCall text
    = ((dropCall? text).isSome || Text.startsWithKeyword addressWord text) := by
  simp [startsSealedCall, sealedFunctions, dropCall?, Text.startsWithKeyword, addressWord]

section value

variable {text before call : Text} (ordinary : ∀ c ∈ text, isOrdinary c = true)
  (unaddressed : Text.holdsKeyword addressWord text = false)
include ordinary unaddressed

/-- In front of the first call, or in all of the text if there is none, nothing is sealed. -/
theorem silent_before_call (cut : (splitCall? .code text).getD (text, []) = (before, call))
    (last : Option Char) : Text.Silent sealedMatcher last before call := by
  induction text generalizing before last with
  | nil =>
    obtain ⟨rfl, rfl⟩ := Prod.mk.inj cut
    exact Text.silent_nil last _
  | cons c rest ih =>
    rw [List.forall_mem_cons] at ordinary
    rw [Text.holdsKeyword, Bool.or_eq_false_iff] at unaddressed
    rw [splitCall?, Mode.step_code_ordinary ordinary.1] at cut
    split at cut
    next =>
      obtain ⟨rfl, rfl⟩ := Prod.mk.inj cut
      exact Text.silent_nil last _
    next misses =>
      -- The cut of the rest, with the character in front.
      obtain ⟨further, rfl, deeper, whole⟩ : ∃ further, c :: further = before ∧
          (splitCall? .code rest).getD (rest, []) = (further, call) ∧ further ++ call = rest := by
        cases found : splitCall? .code rest with
        | none =>
          rw [found] at cut
          obtain ⟨rfl, rfl⟩ := Prod.mk.inj cut
          exact ⟨rest, rfl, rfl, List.append_nil rest⟩
        | some parts =>
          rw [found] at cut
          obtain ⟨rfl, rfl⟩ := Prod.mk.inj cut
          exact ⟨parts.1, rfl, rfl, (splitCall?_sound found).1.symm⟩
      have unsealed : startsSealedCall (c :: rest) = false := by
        rw [startsSealedCall_eq, unaddressed.1, Bool.or_false]
        simpa [Mode.isCode_code] using misses
      rw [Text.silent_cons_iff, whole, sealedMatcher_eq_none_iff, unsealed]
      exact ⟨⟨isQuote_of_isOrdinary ordinary.1, by simp⟩, ih ordinary.2 unaddressed.2 deeper _⟩

end value

/-- A call behind no name is sealed up to its closing parenthesis, or to the end without one. -/
theorem sealedMatcher_call {last : Option Char} {call : Text}
    (starts : (dropCall? call).isSome = true) (apart : endsName last = false) :
    sealedMatcher last call = some ((), match Bracket.round.split? (call.drop 4) with
      | some (inside, _) => inside.length + 5
      | none => call.length) := by
  have seals : startsSealedCall call = true := by rw [startsSealedCall_eq, starts, Bool.true_or]
  obtain ⟨opening, rest, rfl, four, ordinary⟩ := exists_of_startsSealedCall seals
  obtain ⟨c, three, rfl⟩ := List.exists_cons_of_length_eq_add_one four
  have unquoted := isQuote_of_isOrdinary (ordinary c (List.mem_cons_self ..))
  rw [List.cons_append] at seals ⊢
  rw [sealedMatcher, if_neg (by simp [unquoted]), if_pos (by simp [seals, apart]),
    List.drop_succ_cons]
  cases Bracket.round.split? ((three ++ rest).drop 3) <;> rfl

/-- The spans of the hits among fragments, counted from `start`. -/
def hitSpans (start : Nat) (parts : List (Text.Fragment Unit)) : List (Nat × Nat) :=
  (Text.placedHits start parts).map fun (place, _, covered) => (place, place + covered.length)

theorem hitSpans_plain_append (start : Nat) (text : Text) (parts : List (Text.Fragment Unit)) :
    hitSpans start (text.map .plain ++ parts) = hitSpans (start + text.length) parts := by
  rw [hitSpans, Text.placedHits_plain_append, hitSpans]

theorem hitSpans_of_hit {start : Nat} {last : Option Char} {covered after : Text}
    (ink : covered ≠ [])
    (found : sealedMatcher last (covered ++ after) = some ((), covered.length)) :
    hitSpans start (Text.fragments sealedMatcher last (covered ++ after))
      = (start, start + covered.length) :: hitSpans (start + covered.length)
        (Text.fragments sealedMatcher covered.getLast? after) := by
  rw [Text.fragments_of_hit ink found]
  rfl

/-- The last character in front of a place, when the text is read in two parts. -/
theorem getLast?_take_place (front before after : Text) :
    ((front ++ (before ++ after)).take (front.length + before.length)).getLast?
      = before.getLast?.or front.getLast? := by
  rw [← List.append_assoc, ← List.length_append, List.take_left, List.getLast?_append]

/-- Where no reference stands behind a name, what is sealed are the references. -/
theorem hitSpans_of_apart {front text : Text} (ordinary : ∀ c ∈ text, isOrdinary c = true)
    (unaddressed : Text.holdsKeyword addressWord text = false)
    (apart : ∀ span ∈ callSpans front.length (pieces text),
      endsName ((front ++ text).take span.1).getLast? = false) :
    hitSpans front.length (Text.fragments sealedMatcher front.getLast? text)
      = callSpans front.length (pieces text) := by
  -- The induction is on the pieces; what has been read already is `front`.
  fun_induction pieces text generalizing front with
  | case1 text missing =>
    have silent : Text.Silent sealedMatcher front.getLast? text [] :=
      silent_before_call ordinary unaddressed (by rw [missing]; rfl) _
    have plain := Text.fragments_append_of_silent [] silent
    rw [List.append_nil, Text.fragments.eq_1] at plain
    rw [plain, hitSpans_plain_append]
    rfl
  | case2 text before call found unclosed =>
    have silent : Text.Silent sealedMatcher front.getLast? before call :=
      silent_before_call ordinary unaddressed (by rw [found]; rfl) _
    obtain ⟨rfl, starts⟩ := splitCall?_sound found
    simp only [callSpans, List.forall_mem_singleton, getLast?_take_place] at apart
    have covers := sealedMatcher_call starts apart
    rw [unclosed, ← List.append_nil call] at covers
    have ink : call ≠ [] := by rintro rfl; cases starts
    rw [Text.fragments_append_of_silent call silent, hitSpans_plain_append, ← List.append_nil call,
      hitSpans_of_hit ink (by simpa using covers), Text.fragments.eq_1, List.append_nil]
    rfl
  | case3 text before call found arguments rest closed ih =>
    have silent : Text.Silent sealedMatcher front.getLast? before call :=
      silent_before_call ordinary unaddressed (by rw [found]; rfl) _
    obtain ⟨rfl, starts⟩ := splitCall?_sound found
    have four := (call_length found).2
    -- What the call covers, up to its parenthesis.
    obtain ⟨covered, written, parts, size⟩ : ∃ covered,
        (Piece.call (call.take 4) arguments).write = covered ∧ call = covered ++ rest ∧
          covered.length = arguments.length + 5 := by
      refine ⟨_, rfl, ?_, ?_⟩
      · conv => lhs; rw [← List.take_append_drop 4 call, Bracket.splitFrom?_sound closed]
        simp [Piece.write, Bracket.round]
      · simp only [Piece.write, List.length_append, List.length_take, List.length_singleton]
        omega
    simp only [callSpans, List.forall_mem_cons, getLast?_take_place, written] at apart ⊢
    have covers := sealedMatcher_call starts apart.1
    simp only [closed, ← size] at covers
    subst parts
    have ink : covered ≠ [] := by rintro rfl; simp at size
    have place : (front ++ before ++ covered).length
        = front.length + before.length + covered.length := by simp only [List.length_append]
    have behind : hitSpans (front ++ before ++ covered).length
        (Text.fragments sealedMatcher (front ++ before ++ covered).getLast? rest)
          = callSpans (front ++ before ++ covered).length (pieces rest) := by
      apply ih
      · exact fun c member => ordinary c (by simp [member])
      · rw [← List.append_assoc] at unaddressed
        exact Text.holdsKeyword_eq_false_of_append unaddressed
      · rw [place]
        simpa only [List.append_assoc] using apart.2
    rw [Text.getLast?_append_of_ne_nil _ ink, place] at behind
    rw [Text.fragments_append_of_silent _ silent, hitSpans_plain_append,
      hitSpans_of_hit ink covers, behind]

/-- No call is sealed in the middle of a name. -/
theorem endsName_of_sealed {value : Text} (ordinary : ∀ c ∈ value, isOrdinary c = true)
    {span : Nat × Nat} (listed : span ∈ sealedSpans value) :
    endsName (value.take span.1).getLast? = false := by
  obtain ⟨⟨place, _, covered⟩, hit, rfl⟩ := List.mem_map.mp listed
  obtain ⟨front, rest, size, rfl, rfl, found, -⟩ := Text.exists_of_mem_placedHits hit
  simp only [Nat.zero_add, List.take_left, Option.or_none] at found ⊢
  cases names : endsName front.getLast? with
  | false => rfl
  | true =>
    cases rest with
    | nil => cases found
    | cons c tail =>
      have unquoted := isQuote_of_isOrdinary (ordinary c (by simp))
      have misses : sealedMatcher front.getLast? (c :: tail) = none :=
        sealedMatcher_eq_none_iff.mpr ⟨unquoted, fun _ => names⟩
      rw [misses] at found
      cases found

/-- In a value without strings, backslashes and addresses, the converter seals the references that
the resolver goes to exactly if none of those stands behind a letter of a name. -/
theorem sealedSpans_eq_referenceSpans_iff {value : Text}
    (free : Text.Avoids ['\'', '"', '\\'] value)
    (unaddressed : Text.holdsKeyword addressWord value = false) :
    sealedSpans value = referenceSpans value ↔
      ∀ span ∈ referenceSpans value, endsName (value.take span.1).getLast? = false := by
  have ordinary := ordinary_of_avoids free
  constructor
  · intro same span listed
    rw [← same] at listed
    exact endsName_of_sealed ordinary listed
  · intro apart
    exact @hitSpans_of_apart [] value ordinary unaddressed apart

/-- A call of a function whose name ends like a reference is one for the resolver only, and hides
the reference inside it. Behind a blank and unclosed, both see it. -/
theorem sealedSpans_eq_referenceSpans_named :
    sealedSpans "myvar(var(--x))".toList ≠ referenceSpans "myvar(var(--x))".toList ∧
    sealedSpans "1 VAR(--x) var(".toList = referenceSpans "1 VAR(--x) var(".toList := by
  constructor
  · intro same
    have apart := (sealedSpans_eq_referenceSpans_iff (by decide) (by decide)).mp same (2, 15)
    exact absurd (apart (by decide +kernel)) (by decide)
  · exact (sealedSpans_eq_referenceSpans_iff (by decide) (by decide)).mpr (by decide +kernel)

end ThemeCss.Dark
