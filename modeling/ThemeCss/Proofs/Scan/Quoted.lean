import ThemeCss.Proofs.Scan.Commented

/-!
# Comments and strings

Between strings a comment is whatever runs from an opener to the nearest closer. In a string there
is none: what opens first, a string or a comment, hides the openers of the other until it ends, and
in a string a backslash takes the character behind it. The stripping of comments does not look for
strings. It removes the comments in this sense, no more and no less, exactly if none that it removes
begins in a string; then every string between comments stays as it is.
-/
namespace ThemeCss.Scan.Comment

open Text

/-- Reading a string or the text between strings, where a backslash is an ordinary character. -/
def readString (mode : Mode) (c : Char) : Mode :=
  if mode.quote.isSome then mode.step c
  else if Mode.isQuote c then { Mode.code with quote := some c }
  else Mode.code

/-- The comment at the start of a text, when no string is open there. -/
def commentOutside? (mode : Mode) (text : Text) : Option (Unit × Nat) :=
  if mode.quote.isSome then none else matcher none text

/-- Cuts a text into the comments that begin outside strings and the characters between them. -/
def fragmentsOutside (mode : Mode) : Text → List (Fragment Unit)
  | [] => []
  | c :: rest =>
    match commentOutside? mode (c :: rest) with
    | none => .plain c :: fragmentsOutside (readString mode c) rest
    | some (_, size) =>
      .hit () (c :: rest.take (size - 1)) :: fragmentsOutside mode (rest.drop (size - 1))
termination_by text => text.length
decreasing_by
  · simp
  · simp only [List.length_drop, List.length_cons]
    omega

/-- The characters between comments. -/
def kept (parts : List (Fragment Unit)) : Text := rewriteFragments (fun _ _ => []) parts

/-- A text without the comments that begin outside its strings. -/
def stripOutside (css : Text) : Text := kept (fragmentsOutside .code css)

/-! ### What reading strings means -/

/-- What may stand between the quotes of a string: no such quote, but behind a backslash. -/
inductive InString (quote : Char) : Text → Prop where
  | nil : InString quote []
  | plain {c : Char} {rest : Text} (other : c ≠ quote) (ordinary : c ≠ '\\')
      (behind : InString quote rest) : InString quote (c :: rest)
  | escape {c : Char} {rest : Text} (behind : InString quote rest) :
      InString quote ('\\' :: c :: rest)

/-- A whole string, with its quotes. -/
def IsString (literal : Text) : Prop :=
  ∃ quote body, Mode.isQuote quote = true ∧ InString quote body ∧
    literal = quote :: (body ++ [quote])

section reading

variable {mode : Mode} {c : Char} {rest comment : Text}

theorem fragmentsOutside_cons (none : commentOutside? mode (c :: rest) = none) :
    fragmentsOutside mode (c :: rest) = .plain c :: fragmentsOutside (readString mode c) rest := by
  rw [fragmentsOutside]
  simp only [none]

/-- In a string nothing is a comment. -/
theorem fragmentsOutside_inside (inside : mode.quote.isSome = true) (c : Char) (rest : Text) :
    fragmentsOutside mode (c :: rest) = .plain c :: fragmentsOutside (mode.step c) rest := by
  rw [fragmentsOutside_cons (by rw [commentOutside?, if_pos inside]), readString, if_pos inside]

theorem fragmentsOutside_bare (bare : Bare (c :: rest)) :
    fragmentsOutside mode (c :: rest) = .plain c :: fragmentsOutside (readString mode c) rest := by
  refine fragmentsOutside_cons ?_
  rw [commentOutside?]
  split
  · rfl
  · exact bare

/-- Outside strings a comment is one. -/
theorem fragmentsOutside_comment (outside : mode.quote = none) (isComment : IsComment comment)
    (rest : Text) :
    fragmentsOutside mode (comment ++ rest) = .hit () comment :: fragmentsOutside mode rest := by
  have found : commentOutside? mode (comment ++ rest) = some ((), comment.length) := by
    rw [commentOutside?, outside]
    exact isComment.matcher rest
  obtain ⟨c, tail, rfl⟩ := List.exists_cons_of_ne_nil isComment.ne_nil
  rw [List.cons_append] at found ⊢
  rw [fragmentsOutside]
  simp only [found, List.length_cons, Nat.add_sub_cancel, List.take_left, List.drop_left]

theorem fragmentsOutside_body {quote : Char} (isQuote : Mode.isQuote quote = true) {body : Text}
    (inString : InString quote body) (after : Text) :
    fragmentsOutside ⟨some quote, false⟩ (body ++ quote :: after)
      = (body ++ [quote]).map .plain ++ fragmentsOutside .code after := by
  induction inString with
  | nil =>
    have closes : Mode.step ⟨some quote, false⟩ quote = .code := by
      have other : quote ≠ '\\' := by
        rcases Mode.eq_of_isQuote isQuote with rfl | rfl <;> decide
      simp [Mode.step, other]
    rw [List.nil_append, fragmentsOutside_inside rfl, closes]
    rfl
  | @plain c rest other ordinary behind ih =>
    have stays : Mode.step ⟨some quote, false⟩ c = ⟨some quote, false⟩ := by
      simp [Mode.step, ordinary, other]
    rw [List.cons_append, fragmentsOutside_inside rfl, stays, ih]
    rfl
  | @escape c rest behind ih =>
    -- The backslash takes the character behind it, also a quote.
    have taken : Mode.step (Mode.step ⟨some quote, false⟩ '\\') c = ⟨some quote, false⟩ := by
      simp [Mode.step]
    rw [List.cons_append, List.cons_append, fragmentsOutside_inside rfl,
      fragmentsOutside_inside (by rfl), taken, ih]
    rfl

/-- A string is kept whole, whatever it holds. -/
theorem fragmentsOutside_string {literal : Text} (isString : IsString literal) (rest : Text) :
    fragmentsOutside .code (literal ++ rest)
      = literal.map .plain ++ fragmentsOutside .code rest := by
  obtain ⟨quote, body, isQuote, inString, rfl⟩ := isString
  have opens : readString .code quote = ⟨some quote, false⟩ := by
    simp [readString, Mode.code, isQuote]
  have bare : Bare (quote :: (body ++ [quote] ++ rest)) := by
    refine bare_cons ?_ _
    rcases Mode.eq_of_isQuote isQuote with rfl | rfl <;> decide
  rw [List.cons_append, fragmentsOutside_bare bare, opens, List.append_assoc,
    List.singleton_append, fragmentsOutside_body isQuote inString]
  rfl

end reading

/-! ### Comments that begin in strings -/

/-- No comment that stripping removes begins in a string. -/
def NoneInString (mode : Mode) (css : Text) : Prop :=
  ∀ before comment after, fragments matcher none css = before ++ .hit () comment :: after →
    ((kept before).foldl readString mode).quote = none

section cases

variable {mode : Mode} {c : Char} {rest comment : Text}

theorem noneInString_cons (bare : Bare (c :: rest)) :
    NoneInString mode (c :: rest) ↔ NoneInString (readString mode c) rest := by
  have first : fragments matcher none (c :: rest) = .plain c :: fragments matcher none rest :=
    fragments_cons_of_none matcher_blind bare
  constructor
  · intro outside before comment after parts
    exact outside (.plain c :: before) comment after (by rw [first, parts]; rfl)
  · rintro outside (_ | ⟨part, before⟩) comment after parts
    · rw [first] at parts
      cases parts
    · rw [first] at parts
      obtain ⟨rfl, behind⟩ := List.cons.inj parts
      exact outside before comment after behind

theorem noneInString_comment (isComment : IsComment comment) :
    NoneInString mode (comment ++ rest) ↔ mode.quote = none ∧ NoneInString mode rest := by
  have first : fragments matcher none (comment ++ rest)
      = .hit () comment :: fragments matcher none rest :=
    fragments_of_match matcher_blind rest isComment.ne_nil (isComment.matcher rest)
  constructor
  · intro outside
    refine ⟨outside [] comment _ first, fun before covered after parts => ?_⟩
    exact outside (.hit () comment :: before) covered after (by rw [first, parts]; rfl)
  · rintro ⟨none, outside⟩ (_ | ⟨part, before⟩) covered after parts
    · exact none
    · rw [first] at parts
      obtain ⟨rfl, behind⟩ := List.cons.inj parts
      exact outside before covered after behind

end cases

/-- Stripping finds the comments outside strings exactly if it finds none that begins in one. -/
theorem fragments_eq_iff (mode : Mode) (css : Text) :
    fragments matcher none css = fragmentsOutside mode css ↔ NoneInString mode css := by
  induction css using comment_induction generalizing mode with
  | nil =>
    refine iff_of_true (by rw [fragments, fragmentsOutside]) fun before comment after parts => ?_
    rw [fragments] at parts
    cases before <;> cases parts
  | plain c rest bare ih =>
    rw [fragments_cons_of_none matcher_blind bare, fragmentsOutside_bare bare,
      noneInString_cons bare, ← ih]
    exact ⟨fun same => (List.cons.inj same).2, congrArg _⟩
  | comment comment rest isComment ih =>
    rw [fragments_of_match matcher_blind rest isComment.ne_nil (isComment.matcher rest),
      noneInString_comment isComment, ← ih]
    cases open_ : mode.quote with
    | none =>
      rw [fragmentsOutside_comment open_ isComment]
      simp
    | some quote =>
      -- In a string the first character is kept, so the two differ at once.
      obtain ⟨c, tail, rfl⟩ := List.exists_cons_of_ne_nil isComment.ne_nil
      rw [List.cons_append, fragmentsOutside_inside (by rw [open_]; rfl)]
      simp

/-- Stripping removes exactly the comments that begin outside strings if and only if none that it
removes begins in a string. Then the rest of the text stays, and in it every string that begins
outside comments, whatever it holds. -/
theorem strip_eq_stripOutside (css : Text) :
    (fragments matcher none css = fragmentsOutside .code css ↔ NoneInString .code css) ∧
    (NoneInString .code css → strip css = stripOutside css ∧
      ∀ front literal back, IsString literal →
        fragmentsOutside .code css
          = fragmentsOutside .code front ++ fragmentsOutside .code (literal ++ back) →
        strip css = stripOutside front ++ literal ++ stripOutside back) := by
  have keeps : ∀ literal : Text, kept (literal.map .plain) = literal := by
    intro literal
    simp [kept, rewriteFragments, List.flatMap_map]
  have same : NoneInString .code css → strip css = stripOutside css := fun outside =>
    congrArg kept ((fragments_eq_iff .code css).mpr outside)
  refine ⟨fragments_eq_iff .code css, fun outside => ⟨same outside, ?_⟩⟩
  intro front literal back isString apart
  rw [same outside, stripOutside, apart, fragmentsOutside_string isString, kept,
    rewriteFragments_append, rewriteFragments_append, List.append_assoc]
  exact congrArg (_ ++ ·) (congrArg (· ++ _) (keeps literal))

deriving instance DecidableEq for Fragment

/-- Quotes in a comment and a closer in a string do no harm. An opener in a string does. -/
theorem strip_eq_stripOutside_closer :
    (NoneInString .code r#"a{b:"it's"}/* don't */c{d:'*/'}"#.toList ∧
      IsString "'*/'".toList ∧
      strip r#"a{b:"it's"}/* don't */c{d:'*/'}"#.toList
        = stripOutside r#"a{b:"it's"}/* don't */c{d:"#.toList ++ "'*/'".toList
          ++ stripOutside r"}".toList) ∧
    ¬NoneInString .code r"a{b:'/*'}c{d:'*/'}".toList := by
  have outside : NoneInString .code r#"a{b:"it's"}/* don't */c{d:'*/'}"#.toList :=
    (strip_eq_stripOutside _).1.mp (by decide +kernel)
  have isString : IsString "'*/'".toList :=
    ⟨'\'', "*/".toList, by decide,
      .plain (by decide) (by decide) (.plain (by decide) (by decide) .nil), rfl⟩
  refine ⟨⟨outside, isString, ?_⟩, ?_⟩
  · exact ((strip_eq_stripOutside _).2 outside).2 _ _ _ isString (by decide +kernel)
  · rw [← (strip_eq_stripOutside _).1]
    decide +kernel

end ThemeCss.Scan.Comment
