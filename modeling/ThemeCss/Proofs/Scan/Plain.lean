import ThemeCss.Proofs.Scan.Balance
import ThemeCss.Proofs.Text.Keyword
import ThemeCss.Scan.Reference
import ThemeCss.Text.Blank

/-!
# Plain texts

The first call in code is a relation between a text and the two parts it is cut into, and the search
for it decides that relation. A plain text is closed, holds no call in code and does not end like
the head of one, so whatever follows it, no call starts in it. Reading a text cuts a plain start off
whole, and behind it a call whose arguments are balanced: the pieces of a text are read off it from
left to right.
-/
namespace ThemeCss.Scan

/-- The starts of a call that a following text could complete. -/
def callHeads : List Text := [['v'], ['v', 'a'], ['v', 'a', 'r']]

def isCallHead (text : Text) : Bool := callHeads.any (Text.isKeyword · text)

/-- Whether the text ends in the start of a call, in any case. -/
def endsInCallHead : Text → Bool
  | [] => false
  | c :: rest => isCallHead (c :: rest) || endsInCallHead rest

/-- A text that neither holds a call nor lets what follows complete one. -/
structure Plain (text : Text) : Prop where
  closed : Closed text
  callFree : hasReference text = false
  openEnd : endsInCallHead text = false

instance (text : Text) : Decidable (Plain text) :=
  decidable_of_iff (Closed text ∧ hasReference text = false ∧ endsInCallHead text = false)
    ⟨fun ⟨closed, callFree, openEnd⟩ => ⟨closed, callFree, openEnd⟩,
      fun ⟨closed, callFree, openEnd⟩ => ⟨closed, callFree, openEnd⟩⟩

theorem isCallHead_take {text : Text} (ink : text ≠ []) (short : text.length < 4)
    (keyword : Text.isKeyword (callWord.take text.length) text = true) :
    isCallHead text = true := by
  have size : 0 < text.length := List.length_pos_iff.mpr ink
  -- The proper starts of the call word are its three heads.
  have sizes : text.length = 1 ∨ text.length = 2 ∨ text.length = 3 := by omega
  simp only [isCallHead, callHeads, List.any_cons, List.any_nil, Bool.or_false]
  rcases sizes with one | two | three
  · rw [one] at keyword
    simp_all [callWord]
  · rw [two] at keyword
    simp_all [callWord]
  · rw [three] at keyword
    simp_all [callWord]

/-- A call that starts in a text and is completed behind it leaves the text ending in its head. -/
theorem isCallHead_of_dropCall? {first second : Text} (ink : first ≠ [])
    (fails : dropCall? first = none) (starts : (dropCall? (first ++ second)).isSome) :
    isCallHead first = true := by
  have four : callWord.length = 4 := rfl
  simp only [dropCall?] at starts fails
  -- Shorter than the call word, the text has met its first letters; otherwise the call was there.
  by_cases short : first.length < 4
  · rw [Text.dropKeyword?_append_of_le second (by omega)] at starts
    split at starts
    next keyword => exact isCallHead_take ink short keyword
    next => simp at starts
  · rw [Text.dropKeyword?_append_of_ge second (by omega), fails] at starts
    simp at starts

theorem isCallHead_of_append {first second : Text} (ink : first ≠ [])
    (head : isCallHead (first ++ second) = true) : isCallHead first = true := by
  obtain ⟨word, member, keyword⟩ := List.any_eq_true.mp head
  have start := Text.isKeyword_take keyword
  have size := Text.isKeyword_length keyword
  -- Every head is a start of the call word, and a start of a start is one again.
  have whole : ∃ n ≤ 3, word = callWord.take n := by
    simp only [callHeads, List.mem_cons, List.not_mem_nil, or_false] at member
    rcases member with rfl | rfl | rfl
    · exact ⟨1, by omega, rfl⟩
    · exact ⟨2, by omega, rfl⟩
    · exact ⟨3, by omega, rfl⟩
  obtain ⟨n, short, rfl⟩ := whole
  simp only [List.length_append, List.length_take] at size
  rw [List.take_take, Nat.min_eq_left (by omega)] at start
  exact isCallHead_take ink (by omega) start

/-! ### The first call -/

/-- Read from the mode on, the text has its first call in code where `call` starts, with `before`
in front of it. -/
inductive FirstCall : Mode → Text → Text → Text → Prop
  | here {call : Text} (starts : (dropCall? call).isSome = true) : FirstCall .code call [] call
  | behind {mode : Mode} {c : Char} {rest before call : Text}
      (misses : ¬(mode.isCode && (dropCall? (c :: rest)).isSome) = true)
      (deeper : FirstCall (mode.step c) rest before call) :
      FirstCall mode (c :: rest) (c :: before) call

theorem firstCall_of_splitCall? {mode : Mode} {text before call : Text}
    (found : splitCall? mode text = some (before, call)) : FirstCall mode text before call := by
  induction text generalizing mode before with
  | nil => cases found
  | cons c rest ih =>
    rw [splitCall?] at found
    split at found
    next starts =>
      obtain ⟨rfl, rfl⟩ := Prod.mk.inj (Option.some.inj found)
      rw [Bool.and_eq_true, Mode.isCode_iff] at starts
      obtain ⟨rfl, starts⟩ := starts
      exact .here starts
    next misses =>
      obtain ⟨⟨head, tail⟩, deeper, same⟩ := Option.map_eq_some_iff.mp found
      obtain ⟨rfl, rfl⟩ := Prod.mk.inj same
      exact .behind misses (ih deeper)

/-- Behind four characters a text has no say in whether a call starts in front of them. -/
theorem isSome_dropCall?_append {text : Text} (long : 4 ≤ text.length) (behind : Text) :
    (dropCall? (text ++ behind)).isSome = (dropCall? text).isSome := by
  have four : callWord.length ≤ text.length := long
  rw [dropCall?, Text.dropKeyword?_append_of_ge behind four, Option.isSome_map, dropCall?]

namespace FirstCall

variable {mode : Mode} {text before call : Text} (first : FirstCall mode text before call)
include first

theorem splitCall?_eq : splitCall? mode text = some (before, call) := by
  induction first with
  | @here call starts =>
    cases call with
    | nil => cases starts
    | cons c rest => simp [splitCall?, starts]
  | behind misses _ ih =>
    rw [splitCall?, if_neg misses, ih]
    rfl

/-- A call is found in code. -/
theorem after : mode.after before = .code := by
  induction first with
  | here => rfl
  | behind _ _ ih => exact ih

/-- No call that is read in code starts in front of the first one. -/
theorem le_of_starts {n : Nat} (code : mode.after (text.take n) = .code)
    (starts : (dropCall? (text.drop n)).isSome = true) : before.length ≤ n := by
  induction first generalizing n with
  | here => exact Nat.zero_le n
  | behind misses _ ih =>
    cases n with
    | zero =>
      obtain rfl : _ = Mode.code := code
      exact absurd (by simpa using starts) misses
    | succ n => exact Nat.succ_le_succ (ih code starts)

/-- It is told by the text up to its parenthesis, whatever follows. -/
theorem append (behind : Text) : FirstCall mode (text ++ behind) before (call ++ behind) := by
  induction first with
  | @here call starts =>
    obtain ⟨after, dropped⟩ := Option.isSome_iff_exists.mp starts
    apply here
    rwa [isSome_dropCall?_append (by rw [dropCall?_length dropped]; omega)]
  | @behind mode c rest before call misses deeper ih =>
    have size := call_length deeper.splitCall?_eq
    have same : (dropCall? (c :: rest ++ behind)).isSome = (dropCall? (c :: rest)).isSome :=
      isSome_dropCall?_append (by rw [List.length_cons]; omega) behind
    rw [List.cons_append] at same ⊢
    exact .behind (by rwa [same]) ih

/-- Before the first call there is none. -/
theorem splitCall?_before : splitCall? mode before = none := by
  induction first with
  | here => rfl
  | @behind mode c rest before call misses deeper ih =>
    have starts : ¬(mode.isCode && (dropCall? (c :: before)).isSome) = true := by
      rw [Bool.and_eq_true]
      rintro ⟨code, starts⟩
      obtain ⟨after, dropped⟩ := Option.isSome_iff_exists.mp starts
      have long : 4 ≤ (c :: before).length := by
        rw [dropCall?_length dropped]
        exact Nat.le_add_right ..
      rw [← isSome_dropCall?_append long call, List.cons_append,
        ← (splitCall?_sound deeper.splitCall?_eq).1] at starts
      exact misses (by rw [code, starts]; rfl)
    rw [splitCall?, if_neg starts, ih]
    rfl

end FirstCall

/-! ### Texts that start none -/

/-- A search passes over a text without calls whose end starts none. -/
theorem splitCall?_append {mode : Mode} {first : Text} (second : Text)
    (callFree : splitCall? mode first = none) (openEnd : endsInCallHead first = false) :
    splitCall? mode (first ++ second)
      = (splitCall? (mode.after first) second).map fun (before, call) =>
          (first ++ before, call) := by
  induction first generalizing mode with
  | nil => simp
  | cons c rest ih =>
    simp only [splitCall?] at callFree
    split at callFree
    next => simp at callFree
    next fails =>
      simp only [Option.map_eq_none_iff] at callFree
      simp only [endsInCallHead, Bool.or_eq_false_iff] at openEnd
      -- A call that starts here but not in `first` alone would make `first` end in a head.
      have passes : ¬ (mode.isCode && (dropCall? (c :: rest ++ second)).isSome) = true := by
        intro starts
        simp only [Bool.and_eq_true] at starts fails
        have missing : dropCall? (c :: rest) = none := by
          cases found : dropCall? (c :: rest) with
          | none => rfl
          | some after => exact absurd ⟨starts.1, by simp [found]⟩ fails
        have head := isCallHead_of_dropCall? (by simp) missing starts.2
        simp [openEnd.1] at head
      simp only [List.cons_append] at passes
      rw [List.cons_append, splitCall?, if_neg passes, ih callFree openEnd.2]
      simp only [Mode.after_cons, Option.map_map]
      rfl

theorem Plain.splitCall?_eq_none {text : Text} (plain : Plain text) :
    splitCall? .code text = none := by
  have callFree := plain.callFree
  simpa [hasReference] using callFree

theorem Plain.splitCall?_append {first : Text} (plain : Plain first) (second : Text) :
    splitCall? .code (first ++ second)
      = (splitCall? .code second).map fun (before, call) => (first ++ before, call) := by
  rw [Scan.splitCall?_append second plain.splitCall?_eq_none plain.openEnd, plain.closed.after]

theorem Plain.hasReference_append {first : Text} (plain : Plain first) (second : Text) :
    hasReference (first ++ second) = hasReference second := by
  simp [hasReference, plain.splitCall?_append]

theorem plain_nil : Plain [] := ⟨rfl, rfl, rfl⟩

theorem endsInCallHead_append {first second : Text} (left : endsInCallHead first = false)
    (right : endsInCallHead second = false) : endsInCallHead (first ++ second) = false := by
  induction first with
  | nil => exact right
  | cons c rest ih =>
    simp only [endsInCallHead, Bool.or_eq_false_iff] at left
    simp only [List.cons_append, endsInCallHead, Bool.or_eq_false_iff]
    refine ⟨?_, ih left.2⟩
    cases head : isCallHead (c :: (rest ++ second)) with
    | false => rfl
    | true =>
      rw [← List.cons_append] at head
      rw [isCallHead_of_append (by simp) head] at left
      simp at left

theorem Plain.append {first second : Text} (left : Plain first) (right : Plain second) :
    Plain (first ++ second) where
  closed := left.closed.append right.closed
  callFree := by rw [left.hasReference_append, right.callFree]
  openEnd := endsInCallHead_append left.openEnd right.openEnd

/-! ### Texts that spell no call -/

theorem splitCall?_of_unspelled {text : Text} (unspelled : spellsReference text = false)
    (mode : Mode) : splitCall? mode text = none := by
  induction text generalizing mode with
  | nil => rfl
  | cons c rest ih =>
    simp only [spellsReference, Text.holdsKeyword, Bool.or_eq_false_iff] at unspelled
    have starts : (dropCall? (c :: rest)).isSome = false := unspelled.1
    simp [splitCall?, starts, ih unspelled.2]

theorem hasReference_of_unspelled {text : Text} (unspelled : spellsReference text = false) :
    hasReference text = false := by
  rw [hasReference, splitCall?_of_unspelled unspelled]
  rfl

theorem spellsReference_of_hasReference {text : Text} (called : hasReference text = true) :
    spellsReference text = true := by
  cases spelled : spellsReference text with
  | true => rfl
  | false => rw [hasReference_of_unspelled spelled] at called; exact called

/-- A call is its three letters and a parenthesis. -/
theorem exists_of_dropCall? {call after : Text} (dropped : dropCall? call = some after) :
    ∃ letters, Text.isKeyword ['v', 'a', 'r'] letters = true ∧ call = letters ++ '(' :: after := by
  have word : callWord = ['v', 'a', 'r'] ++ ['('] := rfl
  rw [dropCall?, word, Text.dropKeyword?_append] at dropped
  obtain ⟨opened, letters, parenthesis⟩ := Option.bind_eq_some_iff.mp dropped
  obtain ⟨met, rfl, keyword⟩ := Text.exists_isKeyword letters
  refine ⟨met, keyword, ?_⟩
  cases opened with
  | nil => cases parenthesis
  | cons c rest =>
    rw [Text.dropKeyword?] at parenthesis
    split at parenthesis
    next meets =>
      obtain rfl : rest = after := Option.some.inj parenthesis
      rw [Text.eq_of_meets_parenthesis meets]
    next => cases parenthesis

section letters

variable {letters : Text} (keyword : Text.isKeyword ['v', 'a', 'r'] letters = true)
include keyword

theorem closed_of_isKeyword : Closed letters :=
  closed_of_ordinary (ordinary_of_avoids (Text.avoids_of_isKeyword (by decide) keyword))

theorem unparenthesised_of_isKeyword :
    ∀ c ∈ letters, c ≠ Bracket.round.opener ∧ c ≠ Bracket.round.closer := by
  have avoids : Text.Avoids ['(', ')'] letters := Text.avoids_of_isKeyword (by decide) keyword
  intro c member
  constructor <;> rintro rfl <;> exact avoids _ member (by decide)

end letters

/-- Where a search finds a call, its four characters stand in front of its arguments. -/
theorem exists_of_splitCall? {mode : Mode} {text before call : Text}
    (found : splitCall? mode text = some (before, call)) :
    ∃ letters opened, Text.isKeyword ['v', 'a', 'r'] letters = true ∧
      call = letters ++ '(' :: opened ∧ text = before ++ (letters ++ '(' :: opened) ∧
      call.take 4 = letters ++ ['('] ∧ call.drop 4 = opened := by
  obtain ⟨parts, starts⟩ := splitCall?_sound found
  obtain ⟨opened, dropped⟩ := Option.isSome_iff_exists.mp starts
  obtain ⟨letters, keyword, rfl⟩ := exists_of_dropCall? dropped
  have whole : letters ++ '(' :: opened = (letters ++ ['(']) ++ opened := List.append_cons ..
  have four : (letters ++ ['(']).length = 4 := by
    rw [List.length_append, Text.isKeyword_length keyword]
    rfl
  refine ⟨letters, opened, keyword, rfl, parts, ?_, ?_⟩ <;> rw [whole, ← four]
  · exact List.take_left
  · exact List.drop_left

theorem spellsReference_of_free {text : Text} (free : '(' ∉ text) :
    spellsReference text = false := by
  cases spelled : spellsReference text with
  | false => rfl
  | true =>
    have listed : '(' ∈ callWord := by decide
    obtain ⟨c, member, meets⟩ := Text.exists_meets_of_holdsKeyword listed spelled
    rw [Text.eq_of_meets_parenthesis meets] at member
    exact absurd member free

/-- A blank has no case. -/
theorem toLower_of_blank {c : Char} (blank : Text.isBlank c = true) : c.toLower = c := by
  delta Char.toLower
  split
  next upper =>
    have range : 65 ≤ c.toNat ∧ c.toNat ≤ 90 :=
      ⟨UInt32.le_iff_toNat_le.mp upper.1, UInt32.le_iff_toNat_le.mp upper.2⟩
    simp only [Text.isBlank, Bool.or_eq_true, Bool.and_eq_true, decide_eq_true_eq,
      beq_iff_eq] at blank
    omega
  next => rfl

theorem breaks_of_blank {c : Char} (blank : Text.isBlank c = true) :
    Text.breaks callWord c = true := by
  have absent : c ∉ callWord := Text.not_mem_of_kind (by decide) blank
  -- Some letters are met by characters that are not Latin, but none of these is in the word.
  have known : callWord.all (fun letter => letter != 's' && letter != 'k' && letter != 'i') := by
    decide
  simp only [Text.breaks, List.all_eq_true]
  intro letter listed
  have other : c ≠ letter := fun same => absent (same ▸ listed)
  have plain := List.all_eq_true.mp known letter listed
  simp only [Bool.and_eq_true, bne_iff_ne] at plain
  simp [Text.meetsLetter, toLower_of_blank blank, other, plain]

section breaks

variable {c : Char} (apart : Text.breaks callWord c = true)
include apart

theorem spellsReference_append_breaks (first second : Text) :
    spellsReference (first ++ c :: second) = (spellsReference first || spellsReference second) :=
  Text.holdsKeyword_append_breaks apart first second

theorem isCallHead_append_breaks (first second : Text) :
    isCallHead (first ++ c :: second) = false := by
  simp only [Text.breaks, callWord, List.all_cons, List.all_nil, Bool.and_true,
    Bool.and_eq_true] at apart
  obtain ⟨v, a, r, _⟩ := apart
  simp [isCallHead, callHeads, Text.isKeyword_append_breaks, Text.breaks, v, a, r]

theorem endsInCallHead_append_breaks (first : Text) : endsInCallHead (first ++ [c]) = false := by
  induction first with
  | nil =>
    have start := isCallHead_append_breaks apart [] []
    simpa [endsInCallHead] using start
  | cons d rest ih =>
    have start := isCallHead_append_breaks apart (d :: rest) []
    rw [List.cons_append] at start ⊢
    rw [endsInCallHead, start, ih]
    rfl

/-- A closed text that spells no call is plain with a character behind it that keeps calls apart. -/
theorem plain_of_unspelled (ordinary : isOrdinary c = true) {text : Text} (closed : Closed text)
    (unspelled : spellsReference text = false) : Plain (text ++ [c]) where
  closed := closed.append (.cons ordinary closed_nil)
  callFree := by
    apply hasReference_of_unspelled
    rw [spellsReference_append_breaks apart, unspelled]
    rfl
  openEnd := endsInCallHead_append_breaks apart text

end breaks

/-! ### Cutting a text into pieces -/

theorem splitCall?_callWord (rest : Text) :
    splitCall? .code (callWord ++ rest) = some ([], callWord ++ rest) := rfl

theorem hasReference_callWord (rest : Text) : hasReference (callWord ++ rest) = true := rfl

theorem pieces_plain {text : Text} (plain : Plain text) : pieces text = [.text text] :=
  pieces_of_none plain.splitCall?_eq_none

/-- A plain start and a call with balanced arguments are the first two pieces of a text. -/
theorem pieces_call {first arguments : Text} (plain : Plain first) (closed : Closed arguments)
    (balanced : Bracket.round.Balanced arguments) (rest : Text) :
    pieces (first ++ callWord ++ arguments ++ [')'] ++ rest)
      = .text first :: .call callWord arguments :: pieces rest := by
  have whole : first ++ callWord ++ arguments ++ [')'] ++ rest
      = first ++ (callWord ++ (arguments ++ ')' :: rest)) := by simp
  have partner := Bracket.split?_of_balanced Bracket.round_sound closed balanced rest
  have split : splitCall? .code (first ++ callWord ++ arguments ++ [')'] ++ rest)
      = some (first, callWord ++ (arguments ++ ')' :: rest)) := by
    rw [whole, plain.splitCall?_append, splitCall?_callWord]
    simp
  -- Both searches are known now: the call is found behind `first`, its end behind `arguments`.
  exact pieces_of_closed split partner

/-- A call that closes keeps its head and closes where it did, whatever follows the text. -/
theorem split?_call_append {mode : Mode} {text before call arguments rest : Text}
    (found : splitCall? mode text = some (before, call))
    (closes : Bracket.round.split? (call.drop 4) = some (arguments, rest)) (behind : Text) :
    (call ++ behind).take 4 = call.take 4 ∧
      Bracket.round.split? ((call ++ behind).drop 4) = some (arguments, rest ++ behind) := by
  have size := (call_length found).2
  refine ⟨List.take_append_of_le_length size, ?_⟩
  rw [List.drop_append_of_le_length size]
  exact Bracket.split?_append Bracket.round_sound closes behind

theorem pieces_nil : pieces [] = [.text []] := pieces_plain plain_nil

/-- A text that is one call. -/
theorem pieces_lone_call {arguments : Text} (closed : Closed arguments)
    (balanced : Bracket.round.Balanced arguments) :
    pieces (callWord ++ arguments ++ [')']) = [.text [], .call callWord arguments, .text []] := by
  have cut := pieces_call plain_nil closed balanced []
  rwa [List.nil_append, List.append_nil, pieces_nil] at cut

end ThemeCss.Scan
