import ThemeCss.Proofs.Dark.Literal
import ThemeCss.Proofs.Text.Rewrite

/-!
# Calls between parentheses

The calls that a text holds are read off its parentheses: where one opens behind the name of a call
and the next one closes, what stands between them are the arguments. So a text is cut at its
parentheses, and the calls are found stretch by stretch.
-/
namespace ThemeCss.Dark

open Colour

/-- Without parentheses. -/
def Flat (text : Text) : Prop := ∀ c ∈ text, isParenthesis c = false

/-! ### Names in front of a parenthesis -/

/-- The name of a call, with or without its letter. -/
def namesCall (name text : Text) : Bool :=
  (Text.dropKeyword? name text).map dropLetterA == some []

/-- Whether the text ends in the name of a call, at a word boundary. -/
def endsInName (name : Text) (before : Option Char) : Text → Bool
  | [] => false
  | c :: rest =>
    (!Text.isWord? before && namesCall name (c :: rest)) || endsInName name (some c) rest

theorem endsInName_congr (name : Text) {before other : Option Char}
    (same : Text.isWord? before = Text.isWord? other) (text : Text) :
    endsInName name before text = endsInName name other text := by
  cases text <;> simp [endsInName, same]

theorem exists_of_namesCall {name text : Text} (names : namesCall name text = true) :
    ∃ word letter, text = word ++ letter ∧ Text.isKeyword name word = true ∧
      (letter = [] ∨ Text.isKeyword ['a'] letter = true) := by
  simp only [namesCall, beq_iff_eq, Option.map_eq_some_iff] at names
  obtain ⟨letter, found, whole⟩ := names
  obtain ⟨word, rfl, keyword⟩ := Text.exists_isKeyword found
  refine ⟨word, letter, rfl, keyword, ?_⟩
  unfold dropLetterA at whole
  cases dropped : Text.dropKeyword? ['a'] letter with
  | none => exact .inl (by simpa [dropped] using whole)
  | some after =>
    obtain rfl : after = [] := by simpa [dropped] using whole
    right
    rw [Text.isKeyword, dropped]
    rfl

/-- Whether the next parenthesis closes. -/
def closes (text : Text) : Bool := (text.dropWhile (!isParenthesis ·)).head? == some ')'

theorem eq_of_isParenthesis {c : Char} (parenthesis : isParenthesis c = true) :
    c = '(' ∨ c = ')' := by
  simpa [isParenthesis] using parenthesis

theorem dropLetterA_append (text : Text) {mark : Char} (parenthesis : isParenthesis mark = true)
    (tail : Text) : dropLetterA (text ++ mark :: tail) = dropLetterA text ++ mark :: tail := by
  have apart : Text.breaks ['a'] mark = true := by
    rcases eq_of_isParenthesis parenthesis with rfl | rfl <;> decide
  unfold dropLetterA
  rw [Text.dropKeyword?_append_breaks apart]
  cases Text.dropKeyword? ['a'] text <;> rfl

theorem dropLetterA_suffix (text : Text) : dropLetterA text <:+ text := by
  unfold dropLetterA
  cases dropped : Text.dropKeyword? ['a'] text with
  | none => exact List.suffix_refl text
  | some after => exact Text.dropKeyword?_suffix dropped

theorem Flat.trimLeft {text : Text} (flat : Flat text) : Flat (Text.trimLeft text) :=
  fun c member => flat c (Text.mem_of_mem_trimLeft member)

/-- Blanks hide no parenthesis. -/
theorem closes_trimLeft (text : Text) : closes (Text.trimLeft text) = closes text := by
  have passes : ∀ c ∈ text.takeWhile Text.isBlank, (!isParenthesis c) = true := by
    intro c member
    simp [unparenthesised_of_isBlank (Text.blank_takeWhile text c member)]
  have same := @List.dropWhile_append_of_pos _ _ _ (Text.trimLeft text) passes
  rw [Text.takeWhile_append_trimLeft] at same
  rw [closes, closes, same]

theorem getLast?_call (met inside : Text) :
    (met ++ '(' :: (inside ++ [')'])).getLast? = some ')' := by
  have parts : met ++ '(' :: (inside ++ [')']) = (met ++ '(' :: inside) ++ [')'] := by simp
  rw [parts, List.getLast?_concat]

section reading

variable {name : Text} (apart : Text.breaks name '(' = true ∧ Text.breaks name ')' = true)
include apart

/-- What the matcher answers in front of a parenthesis. -/
theorem callMatcher_stretch (before : Option Char) {stretch : Text} (flat : Flat stretch)
    {mark : Char} (parenthesis : isParenthesis mark = true) (tail : Text) :
    callMatcher name before (stretch ++ mark :: tail) =
      if !Text.isWord? before ∧ namesCall name stretch ∧ mark = '(' then
        match (Text.trimLeft tail).dropWhile (!isParenthesis ·) with
        | ')' :: after => some ((Text.trimLeft tail).takeWhile (!isParenthesis ·),
            (stretch ++ mark :: tail).length - after.length)
        | _ => none
      else none := by
  have broken : Text.breaks name mark = true := by
    rcases eq_of_isParenthesis parenthesis with rfl | rfl
    · exact apart.1
    · exact apart.2
  unfold callMatcher namesCall
  rw [Text.dropKeyword?_append_breaks broken]
  cases word : Text.isWord? before with
  | true => simp
  | false =>
    cases dropped : Text.dropKeyword? name stretch with
    | none => simp
    | some after =>
      simp only [Option.map_some, dropLetterA_append after parenthesis tail]
      -- A letter that is left of the stretch is no parenthesis.
      obtain ⟨remains, left⟩ : ∃ remains, dropLetterA after = remains := ⟨_, rfl⟩
      simp only [left]
      cases remains with
      | nil => rcases eq_of_isParenthesis parenthesis with rfl | rfl <;> rfl
      | cons c rest =>
        have member : c ∈ stretch := by
          apply (Text.dropKeyword?_suffix dropped).subset
          apply (dropLetterA_suffix after).subset
          rw [left]
          exact List.mem_cons_self ..
        have other : c ≠ '(' := by
          rintro rfl
          exact absurd (flat _ member) (by decide)
        simp [other]

/-- A name at a boundary with parentheses behind it is a call. -/
theorem callMatcher_call {before : Option Char} (boundary : Text.isWord? before = false)
    {met : Text} (flat : Flat met) (names : namesCall name met = true) {inside : Text}
    (flatInside : Flat inside) (after : Text) :
    callMatcher name before ((met ++ '(' :: (inside ++ [')'])) ++ after)
      = some (Text.trimLeft inside, (met ++ '(' :: (inside ++ [')'])).length) := by
  have passes : ∀ d ∈ Text.trimLeft inside, (!isParenthesis d) = true := by
    intro d member
    simp [flatInside.trimLeft d member]
  have stops : (!isParenthesis ')') = false := by decide
  have trimmed : Text.trimLeft (inside ++ ')' :: after) = Text.trimLeft inside ++ ')' :: after :=
    Text.dropWhile_append_stop (by decide) inside after
  have parts :
      (met ++ '(' :: (inside ++ [')'])) ++ after = met ++ '(' :: (inside ++ ')' :: after) := by
    simp
  rw [parts, callMatcher_stretch apart before flat (by decide),
    if_pos ⟨by simp [boundary], names, rfl⟩,
    trimmed, Text.dropWhile_stop passes stops,
    Text.takeWhile_stop passes stops, ← parts]
  simp only [List.length_append, List.length_cons, List.length_nil, Nat.add_sub_cancel]

/-- In front of a parenthesis nothing else is one. -/
theorem callMatcher_quiet {before : Option Char} {stretch : Text} (flat : Flat stretch)
    {mark : Char} (parenthesis : isParenthesis mark = true) {tail : Text}
    (quiet : Text.isWord? before = false → namesCall name stretch = true → mark = '(' →
      closes tail = false) : callMatcher name before (stretch ++ mark :: tail) = none := by
  rw [callMatcher_stretch apart before flat parenthesis]
  split
  next met =>
    obtain ⟨boundary, names, opens⟩ := met
    have unclosed := quiet (by simpa using boundary) names opens
    rw [← closes_trimLeft, closes] at unclosed
    split
    next after closed => simp [closed] at unclosed
    next => rfl
  next => rfl

/-- No call starts in a text without parentheses. -/
theorem callMatcher_flat (before : Option Char) {text : Text} (flat : Flat text) :
    callMatcher name before text = none := by
  rw [Option.eq_none_iff_forall_not_mem]
  rintro ⟨body, size⟩ found
  obtain ⟨head, inside, covered, _⟩ := exists_of_callMatcher apart found
  have member : '(' ∈ text := by
    apply List.mem_of_mem_take
    rw [covered]
    simp
  exact absurd (flat _ member) (by decide)

theorem fragments_flat (before : Option Char) {text : Text} (flat : Flat text) :
    Text.fragments (callMatcher name) before text = text.map .plain := by
  induction text generalizing before with
  | nil => rw [Text.fragments]; rfl
  | cons c rest ih =>
    rw [Text.fragments]
    simp only [callMatcher_flat apart before flat]
    rw [ih (some c) fun d member => flat d (List.mem_cons_of_mem _ member)]
    rfl

/-- A call is one hit, and what stands in front of it is left. -/
theorem fragments_call {before : Option Char} {stretch : Text} (flat : Flat stretch)
    (ends : endsInName name before stretch = true) {inside : Text} (flatInside : Flat inside)
    (after : Text) :
    ∃ front met, stretch = front ++ met ∧ namesCall name met = true ∧
      Text.fragments (callMatcher name) before (stretch ++ '(' :: (inside ++ ')' :: after))
        = front.map .plain ++
          .hit (Text.trimLeft inside) (met ++ '(' :: (inside ++ [')'])) ::
            Text.fragments (callMatcher name) (some ')') after := by
  induction stretch generalizing before with
  | nil => simp [endsInName] at ends
  | cons c rest ih =>
    have flatRest : Flat rest := fun d member => flat d (List.mem_cons_of_mem _ member)
    -- The call starts here, or it starts later and nothing does here.
    by_cases here : (!Text.isWord? before && namesCall name (c :: rest)) = true
    · obtain ⟨boundary, names⟩ := Bool.and_eq_true_iff.mp here
      have found := callMatcher_call apart (by simpa using boundary) flat names flatInside after
      have parts : c :: rest ++ '(' :: (inside ++ ')' :: after)
          = (c :: rest ++ '(' :: (inside ++ [')'])) ++ after := by simp
      refine ⟨[], c :: rest, rfl, names, ?_⟩
      rw [parts, Text.fragments_of_hit (by simp) found, getLast?_call]
      rfl
    · have later : endsInName name (some c) rest = true := by
        rw [endsInName, Bool.or_eq_true] at ends
        exact ends.resolve_left here
      obtain ⟨front, met, rfl, names, cut⟩ := ih flatRest later
      refine ⟨c :: front, met, rfl, names, ?_⟩
      have silent : callMatcher name before (c :: (front ++ met) ++ '(' :: (inside ++ ')' :: after))
          = none := by
        apply callMatcher_quiet apart flat (by decide)
        intro boundary names _
        exact absurd (by simp [boundary, names]) here
      rw [List.cons_append] at silent ⊢
      rw [Text.fragments]
      simp only [silent, cut]
      rfl

variable (named : name ≠ [])
include named

/-- Where no call stands, what is in front of a parenthesis is left together with it. -/
theorem fragments_quiet {before : Option Char} {stretch : Text} (flat : Flat stretch) {mark : Char}
    (parenthesis : isParenthesis mark = true) {tail : Text}
    (quiet : endsInName name before stretch = true → mark = '(' → closes tail = false) :
    Text.fragments (callMatcher name) before (stretch ++ mark :: tail)
      = (stretch ++ [mark]).map .plain ++ Text.fragments (callMatcher name) (some mark) tail := by
  induction stretch generalizing before with
  | nil =>
    have silent : callMatcher name before ([] ++ mark :: tail) = none := by
      apply callMatcher_quiet apart flat parenthesis
      intro _ names
      obtain ⟨letter, word, rfl⟩ := List.exists_cons_of_ne_nil named
      simp [namesCall, Text.dropKeyword?] at names
    rw [List.nil_append] at silent ⊢
    rw [Text.fragments]
    simp only [silent]
    rfl
  | cons c rest ih =>
    have flatRest : Flat rest := fun d member => flat d (List.mem_cons_of_mem _ member)
    have silent : callMatcher name before (c :: rest ++ mark :: tail) = none := by
      apply callMatcher_quiet apart flat parenthesis
      intro boundary names
      exact quiet (by simp [endsInName, boundary, names])
    rw [List.cons_append] at silent ⊢
    rw [Text.fragments]
    simp only [silent]
    rw [ih flatRest fun ends => quiet (by simp [endsInName, ends])]
    rfl

end reading

/-! ### Stretches -/

/-- The text of stretches with the parentheses behind them, and a last stretch. -/
def paired (last : Text) : List (Text × Char) → Text
  | [] => last
  | (stretch, mark) :: rest => stretch ++ mark :: paired last rest

/-- Parentheses are where they are listed and nowhere else. -/
structure Cut (pairs : List (Text × Char)) (last : Text) : Prop where
  pairs : ∀ pair ∈ pairs, Flat pair.1 ∧ isParenthesis pair.2 = true
  last : Flat last

theorem Cut.tail {pair : Text × Char} {rest : List (Text × Char)} {last : Text}
    (cut : Cut (pair :: rest) last) : Cut rest last where
  pairs := fun other member => cut.pairs other (List.mem_cons_of_mem _ member)
  last := cut.last

/-- Every text is cut at its parentheses. -/
theorem exists_paired (text : Text) :
    ∃ pairs last, Cut pairs last ∧ paired last pairs = text := by
  induction text with
  | nil => exact ⟨[], [], ⟨by simp, by simp [Flat]⟩, rfl⟩
  | cons c rest ih =>
    obtain ⟨pairs, last, cut, rfl⟩ := ih
    cases parenthesis : isParenthesis c with
    | true =>
      exact ⟨([], c) :: pairs, last, ⟨by simpa [Flat, parenthesis] using cut.pairs, cut.last⟩, rfl⟩
    | false =>
      -- The character joins the stretch behind it.
      cases pairs with
      | nil => exact ⟨[], c :: last, ⟨by simp, by simpa [Flat, parenthesis] using cut.last⟩, rfl⟩
      | cons pair pairs =>
        obtain ⟨stretch, mark⟩ := pair
        refine ⟨(c :: stretch, mark) :: pairs, last, ⟨?_, cut.last⟩, rfl⟩
        have each := cut.pairs
        simp only [List.forall_mem_cons, Flat] at each ⊢
        exact ⟨⟨⟨parenthesis, each.1.1⟩, each.1.2⟩, each.2⟩

theorem closes_paired {pairs : List (Text × Char)} {last : Text} (cut : Cut pairs last) :
    closes (paired last pairs) = (pairs.head?.map (·.2) == some ')') := by
  cases pairs with
  | nil =>
    have passes : ∀ c ∈ last, (!isParenthesis c) = true := by simpa [Flat] using cut.last
    rw [closes, paired, Text.dropWhile_of_passes passes]
    rfl
  | cons pair rest =>
    obtain ⟨flat, parenthesis⟩ := cut.pairs pair (List.mem_cons_self ..)
    have passes : ∀ c ∈ pair.1, (!isParenthesis c) = true := by simpa [Flat] using flat
    rw [closes, paired, Text.dropWhile_stop passes (by simp [parenthesis])]
    rfl

/-- How the calls of a text lie between its parentheses. -/
inductive Laid (name last : Text) : List (Text × Char) → List (Text.Fragment Text) → Prop where
  | last : Laid name last [] (last.map .plain)
  | quiet {stretch : Text} {mark : Char} {rest : List (Text × Char)}
      {parts : List (Text.Fragment Text)} :
      (mark = '(' → endsInName name none stretch = true → rest.head?.map (·.2) ≠ some ')') →
      Laid name last rest parts →
        Laid name last ((stretch, mark) :: rest) ((stretch ++ [mark]).map .plain ++ parts)
  | call {front met inside : Text} {rest : List (Text × Char)}
      {parts : List (Text.Fragment Text)} :
      namesCall name met = true → endsInName name none (front ++ met) = true →
      Laid name last rest parts →
        Laid name last ((front ++ met, '(') :: (inside, ')') :: rest)
          (front.map .plain ++
            .hit (Text.trimLeft inside) (met ++ '(' :: (inside ++ [')'])) :: parts)

section laying

variable {name : Text} (apart : Text.breaks name '(' = true ∧ Text.breaks name ')' = true)
  (named : name ≠ [])
include apart named

theorem laid_fragments {last : Text} : ∀ (pairs : List (Text × Char)) (before : Option Char),
    Cut pairs last → Text.isWord? before = false →
      Laid name last pairs (Text.fragments (callMatcher name) before (paired last pairs))
  | [], before, cut, _ => by
    rw [paired, fragments_flat apart before cut.last]
    exact .last
  | (stretch, mark) :: rest, before, cut, boundary => by
    obtain ⟨flat, parenthesis⟩ := cut.pairs _ (List.mem_cons_self ..)
    have start : Text.isWord? before = Text.isWord? none := boundary
    have same := endsInName_congr name start stretch
    have after : Text.isWord? (some mark) = false := by
      rcases eq_of_isParenthesis parenthesis with rfl | rfl <;> rfl
    -- A call takes two stretches with their parentheses; any other stretch is passed over.
    by_cases called : mark = '(' ∧ endsInName name none stretch = true ∧
        rest.head?.map (·.2) = some ')'
    · obtain ⟨rfl, ends, closed⟩ := called
      match rest, closed with
      | (inside, mark) :: more, closed =>
        obtain rfl : mark = ')' := by simpa using closed
        obtain ⟨flatInside, _⟩ := cut.tail.pairs _ (List.mem_cons_self ..)
        obtain ⟨front, met, rfl, names, read⟩ :=
          fragments_call apart flat (same.trans ends) flatInside (paired last more)
        rw [paired, paired, read]
        exact .call names ends (laid_fragments more (some ')') cut.tail.tail rfl)
    · have quiet : mark = '(' → endsInName name none stretch = true →
          rest.head?.map (·.2) ≠ some ')' :=
        fun opens ends closed => called ⟨opens, ends, closed⟩
      rw [paired, fragments_quiet apart named flat parenthesis]
      · exact .quiet quiet (laid_fragments rest (some mark) cut.tail after)
      · intro ends opens
        rw [closes_paired cut.tail, beq_eq_false_iff_ne]
        exact quiet opens (same.symm.trans ends)

end laying

/-- The arguments of the calls, where the parenthesis in front may have opened one. -/
def bodies (name : Text) : Bool → List (Text × Char) → List Text
  | _, [] => []
  | opened, (stretch, mark) :: rest =>
    if opened && mark == ')' then Text.trimLeft stretch :: bodies name false rest
    else bodies name (mark == '(' && endsInName name none stretch) rest

theorem bodies_of_unclosed (name : Text) (opened : Bool) {pairs : List (Text × Char)}
    (unclosed : pairs.head?.map (·.2) ≠ some ')') :
    bodies name opened pairs = bodies name false pairs := by
  cases pairs with
  | nil => simp [bodies]
  | cons pair rest =>
    have other : pair.2 ≠ ')' := by simpa using unclosed
    simp [bodies, other]

theorem Laid.hitValues_eq {name last : Text} {pairs : List (Text × Char)}
    {parts : List (Text.Fragment Text)} (laid : Laid name last pairs parts) :
    Text.hitValues parts = bodies name false pairs := by
  induction laid with
  | last => simpa [bodies, Text.hitValues] using Text.hitValues_map_plain last []
  | @quiet stretch mark rest parts quiet _ ih =>
    rw [Text.hitValues_map_plain, ih, bodies, Bool.false_and, if_neg (by simp)]
    cases opened : (mark == '(' && endsInName name none stretch) with
    | false => rfl
    | true =>
      simp only [Bool.and_eq_true, beq_iff_eq] at opened
      exact (bodies_of_unclosed name true (quiet opened.1 opened.2)).symm
  | call _ ends _ ih =>
    rw [Text.hitValues_map_plain, Text.hitValues, ih]
    simp [bodies, ends]

/-! ### The names of calls -/

/-- The name of a call is told from parentheses and from hexadecimal literals. -/
structure CallName (name : Text) : Prop where
  ink : name ≠ []
  apart : Text.breaks name '(' = true ∧ Text.breaks name ')' = true
  sign : Text.breaks name '#' = true
  start : ∀ letter ∈ name.head?, ∀ c, isHexDigit c = true → Text.meetsLetter letter c = false

theorem unmet_of_isHexDigit {letter : Char}
    (ascii : ∀ n < 128, isHexDigit (Char.ofNat n) = true →
      (!Text.meetsLetter letter (Char.ofNat n)) = true) :
    ∀ first ∈ some letter, ∀ c, isHexDigit c = true → Text.meetsLetter first c = false := by
  rintro first ⟨⟩ c digit
  have apart := @isHexDigit_induction (fun c => !Text.meetsLetter letter c) ascii c digit
  simpa using apart

theorem callName_rgb : CallName ['r', 'g', 'b'] where
  ink := by decide
  apart := by decide
  sign := by decide
  start := unmet_of_isHexDigit (by decide)

theorem callName_hsl : CallName ['h', 's', 'l'] where
  ink := by decide
  apart := by decide
  sign := by decide
  start := unmet_of_isHexDigit (by decide)

/-- The arguments of the calls in a text. -/
def calls (name text : Text) : List Text :=
  Text.hitValues (Text.fragments (callMatcher name) none text)

theorem calls_paired {name : Text} (callName : CallName name) {pairs : List (Text × Char)}
    {last : Text} (cut : Cut pairs last) :
    calls name (paired last pairs) = bodies name false pairs :=
  (laid_fragments callName.apart callName.ink pairs none cut rfl).hitValues_eq

end ThemeCss.Dark
