import ThemeCss.Proofs.Dark.Replaced

/-!
# The leading colour

A declaration is classified by the first colour in its value. The search for it goes through the
value once for each kind of literals and takes the smallest place, while a conversion rewrites the
value kind by kind. Without sealed parts both come to the same literals: those that can be read,
wherever one is found. So the colour that is found first is the colour of the leftmost literal that
a conversion writes over.
-/
namespace ThemeCss.Colour

/-- Of two searches along the same places, the earlier find is the first find of both at once. -/
theorem earlier_findSome? {α : Type} {place : α → Nat} {hits : List α}
    (sorted : hits.Pairwise fun first second => place first < place second)
    {left right : α → Option (Nat × Rgb Float)}
    (placedLeft : ∀ hit find, left hit = some find → find.1 = place hit)
    (placedRight : ∀ hit find, right hit = some find → find.1 = place hit) :
    earlier (hits.findSome? left) (hits.findSome? right)
      = hits.findSome? fun hit => (left hit).or (right hit) := by
  induction sorted with
  | nil => rfl
  | @cons hit rest ahead _ ih =>
    -- What is found further on is found at a later place.
    have later {search : α → Option (Nat × Rgb Float)} {find : Nat × Rgb Float}
        (placed : ∀ hit find, search hit = some find → find.1 = place hit)
        (found : rest.findSome? search = some find) : place hit < find.1 := by
      obtain ⟨other, listed, answer⟩ := List.exists_of_findSome?_eq_some found
      rw [placed other find answer]
      exact ahead other listed
    rw [List.findSome?_cons, List.findSome?_cons, List.findSome?_cons]
    cases first : left hit with
    | some find =>
      have here := placedLeft hit find first
      cases second : right hit with
      | some other =>
        have same := placedRight hit other second
        simp [earlier, here, same]
      | none =>
        cases found : rest.findSome? right with
        | none => rfl
        | some other =>
          have behind := later placedRight found
          simp only [earlier, Option.some_or]
          rw [if_neg (by omega)]
    | none =>
      cases second : right hit with
      | some find =>
        have here := placedRight hit find second
        cases found : rest.findSome? left with
        | none => rfl
        | some other =>
          have behind := later placedLeft found
          simp only [earlier, Option.none_or]
          rw [if_pos (by omega)]
      | none => exact ih

end ThemeCss.Colour

namespace ThemeCss.Dark

open Colour Theme

/-! ### Literals that can be read -/

def Kind.read? : Kind → Text → Option (Rgb Float)
  | hex => readHex?
  | call function => fun body => (function.read body).map (·.rgb)

/-- The colour of a literal, if it can be read. -/
def Literal.colour? (literal : Literal) : Option (Rgb Float) := literal.kind.read? literal.body

/-- How a colour is written for a literal: with the alpha that the literal has. -/
inductive Literal.Spells : Literal → Rgb Float → Text → Prop where
  | hex {digits : Text} {rgb : Rgb Float} :
      Spells ⟨.hex, digits⟩ rgb (writeHex rgb ++ alphaDigits digits)
  | call {function : Function} {body : Text} {painted : Painted} {rgb : Rgb Float} :
      function.read body = some painted →
        Spells ⟨.call function, body⟩ rgb (writeCall { painted with rgb })

/-- The literals outside sealed parts that a conversion writes over, since they can be read. -/
def replaced (value : Text) : List (Nat × Literal × Text) :=
  (literals value).filter fun hit => hit.2.1.colour?.isSome

/-- The literals of a value that can be read are written over with their colours remapped, and all
other text is kept. -/
def WritesOver (tuning : Tuning Float) (role : Role) (value out : Text) : Prop :=
  ∃ news, List.Forall₂ (fun hit new => ∃ rgb shade, hit.2.1.colour? = some rgb ∧
      remap tuning role rgb = .ok shade ∧ hit.2.1.Spells shade new) (replaced value) news ∧
    out = Text.splice 0 value ((replaced value).zip news)

theorem isSome_of_mem_replaced {value : Text} {hit : Nat × Literal × Text}
    (member : hit ∈ replaced value) : hit.2.1.colour?.isSome = true :=
  (List.mem_filter.mp member).2

section literal

variable {tuning : Tuning Float} {role : Role} {literal : Literal} {covered out : Text}

/-- A literal that cannot be read stays. -/
theorem Literal.convert_of_unread (unread : literal.colour? = none) :
    literal.convert tuning role covered = .ok covered := by
  obtain ⟨_ | function, body⟩ := literal
  · have unread : readHex? body = none := unread
    rw [Literal.convert, Kind.convert, convertHexLiteral, unread]
  · have unread : function.read body = none := by simpa [Literal.colour?, Kind.read?] using unread
    rw [Literal.convert, Kind.convert, convertCall, unread]

theorem Literal.exists_of_read {rgb : Rgb Float} (read : literal.colour? = some rgb)
    (converted : literal.convert tuning role covered = .ok out) :
    ∃ shade, remap tuning role rgb = .ok shade ∧ literal.Spells shade out := by
  obtain ⟨_ | function, body⟩ := literal
  · have read : readHex? body = some rgb := read
    rw [Literal.convert, Kind.convert, convertHexLiteral, read] at converted
    obtain ⟨shade, mapped, same⟩ := Text.exists_of_bind_ok converted
    obtain rfl := Except.ok.inj same
    exact ⟨shade, mapped, .hex⟩
  · obtain ⟨painted, described, rfl⟩ : ∃ painted, function.read body = some painted ∧
        painted.rgb = rgb := Option.map_eq_some_iff.mp read
    rw [Literal.convert, Kind.convert, convertCall, described] at converted
    obtain ⟨shade, mapped, same⟩ := Text.exists_of_bind_ok converted
    obtain rfl := Except.ok.inj same
    exact ⟨shade, mapped, .call described⟩

end literal

/-! ### The search along the literals -/

/-- What a search for a kind answers at a literal. -/
def Kind.find? (kind : Kind) (hit : Nat × Literal × Text) : Option (Nat × Rgb Float) :=
  if hit.2.1.kind = kind then hit.2.1.colour?.map (hit.1, ·) else none

theorem Kind.fst_of_find? {kind : Kind} (hit : Nat × Literal × Text) (find : Nat × Rgb Float)
    (found : kind.find? hit = some find) : find.1 = hit.1 := by
  unfold Kind.find? at found
  split at found
  next =>
    obtain ⟨_, _, rfl⟩ := Option.map_eq_some_iff.mp found
    rfl
  next => cases found

section value

variable {text : Text} {tiles : List Tile}
  (found : Text.fragments literalMatcher none text = tiles.map Tile.fragment)

include found in
theorem firstRead?_eq {kind : Kind}
    (read : Text.fragments kind.matcher none text = tiles.flatMap (Tile.read kind)) :
    firstRead? kind.matcher kind.read? text
      = (Text.hits literalMatcher text).findSome? kind.find? := by
  rw [firstRead?, Text.hits, Text.hits, read, placedHits_read, found, ← List.head?_filterMap,
    List.filterMap_filterMap, List.head?_filterMap]
  congr 1
  apply funext
  rintro ⟨place, ⟨other, body⟩, covered⟩
  by_cases same : other = kind
  · subst same
    simp [Kind.select?, Kind.find?, Literal.colour?]
  · simp [Kind.select?, Kind.find?, same]

include found in
/-- The three searches come to one search along the literals of all kinds. -/
theorem firstColour?_eq
    (read : ∀ kind : Kind, Text.fragments kind.matcher none text = tiles.flatMap (Tile.read kind))
    (sorted : (Text.hits literalMatcher text).Pairwise fun first second => first.1 < second.1) :
    firstColour? text = (Text.hits literalMatcher text).findSome? fun hit => hit.2.1.colour? := by
  -- Each search is one along all literals that answers at its own kind only.
  have hex : firstRead? hexMatcher readHex? text = _ := firstRead?_eq found (read .hex)
  have rgb : firstRead? rgbMatcher (fun body => (parseRgb? body).map (·.rgb)) text = _ :=
    firstRead?_eq found (read (.call .rgb))
  have hsl : firstRead? hslMatcher (fun body => (parseHsl? body).map (·.rgb)) text = _ :=
    firstRead?_eq found (read (.call .hsl))
  have placed : ∀ hit find,
      (Kind.hex.find? hit).or ((Kind.call .rgb).find? hit) = some find → find.1 = hit.1 := by
    intro hit find found
    rcases Option.or_eq_some_iff.mp found with first | ⟨_, second⟩
    · exact Kind.fst_of_find? hit find first
    · exact Kind.fst_of_find? hit find second
  rw [firstColour?, hex, rgb, hsl, earlier_findSome? sorted Kind.fst_of_find? Kind.fst_of_find?,
    earlier_findSome? sorted placed Kind.fst_of_find?, List.map_findSome?]
  congr 1
  apply funext
  rintro ⟨place, ⟨kind, body⟩, covered⟩
  rcases kind with _ | _ | _ <;> simp [Kind.find?, Function.comp_def]

end value

/-! ### Values without sealed parts -/

theorem segments_of_unsealed {value : Text} (unsealed : sealedSpans value = []) :
    segments value = if value = [] then [] else [.plain value] := by
  have parted := parted_segments value
  have whole := flatMap_text_segments value
  rw [sealedSpans_eq] at unsealed
  generalize segments value = segs at *
  cases parted with
  | nil => simp [← whole]
  | plain ink _ alone parted =>
    cases parted with
    | nil => simp [← whole, Segment.text, ink]
    | plain => exact absurd rfl (alone _)
    | «sealed» => cases unsealed
  | «sealed» => cases unsealed

/-- Such a value is converted as one text. -/
theorem convertValue_of_unsealed {value : Text} (unsealed : sealedSpans value = [])
    (tuning : Tuning Float) (role : Role) :
    convertValue tuning role value
      = if keywords.any (Text.isKeyword · (Text.trim value)) then .ok value
        else convertPlain tuning role value := by
  rw [convertValue, segments_of_unsealed unsealed]
  congr 1
  split
  next none =>
    subst none
    simp [convertPlain, Text.tryRewrite, Text.fragments]
  next =>
    rw [List.mapM_cons, convertSegment]
    cases convertPlain tuning role value with
    | error cause => rfl
    | ok out => exact congrArg Except.ok (List.append_nil out)

theorem head?_filter_bind {α β : Type} (search : α → Option β) (hits : List α) :
    ((hits.filter fun hit => (search hit).isSome).head?).bind search = hits.findSome? search := by
  induction hits with
  | nil => rfl
  | cons hit rest ih =>
    cases found : search hit with
    | none => rw [List.filter_cons_of_neg (by simp [found]), List.findSome?_cons, found, ih]
    | some =>
      rw [List.filter_cons_of_pos (by simp [found]), List.findSome?_cons, found]
      exact found

section unsealed

variable {value : Text} (unsealed : sealedSpans value = [])
  (hexless : ∀ hit ∈ literals value,
    hit.2.1.kind ≠ .hex → Text.holdsMatch hexMatcher hit.2.2 = false)
include unsealed hexless

theorem literals_of_unsealed :
    literals value = Text.hits literalMatcher value ∧ HexlessCalls value := by
  obtain ⟨listed, hexlessCalls⟩ := literals_eq hexless
  rw [segments_of_unsealed unsealed] at listed hexlessCalls
  split at listed
  next none =>
    subst none
    have nothing : Text.fragments literalMatcher none [] = [] := by rw [Text.fragments]
    refine ⟨by rw [listed, Text.hits, nothing]; rfl, fun literal covered member => ?_⟩
    rw [nothing] at member
    cases member
  next some =>
    rw [if_neg some] at hexlessCalls
    rw [listed, literalsFrom, literalsFrom, List.append_nil]
    exact ⟨rfl, hexlessCalls value (List.mem_singleton_self _)⟩

theorem apart_literals :
    (literals value).Pairwise fun first second => first.1 + first.2.2.length ≤ second.1 := by
  rw [(literals_of_unsealed unsealed hexless).1]
  exact Text.pairwise_placedHits 0 _

theorem sorted_literals : (literals value).Pairwise fun first second => first.1 < second.1 := by
  refine (apart_literals unsealed hexless).imp_of_mem fun listed _ apart => ?_
  -- Every literal covers something.
  have bounds := bounds_of_mem_occurrences (List.mem_filter.mp listed).1
  omega

theorem exists_reading : ∃ tiles, Tiling value tiles ∧
    Text.fragments literalMatcher none value = tiles.map Tile.fragment ∧
    ∀ kind : Kind, Text.fragments kind.matcher none value = tiles.flatMap (Tile.read kind) := by
  obtain ⟨tiles, tiling, found, hexes⟩ := exists_tiling value
  refine ⟨tiles, tiling, found, ?_⟩
  rintro (_ | function)
  · exact hexes (literals_of_unsealed unsealed hexless).2
  · exact tiling.fragments_eq function

theorem firstColour?_eq_head? :
    firstColour? value = (replaced value).head?.bind fun hit => hit.2.1.colour? := by
  obtain ⟨tiles, _, found, read⟩ := exists_reading unsealed hexless
  have listed := (literals_of_unsealed unsealed hexless).1
  have sorted := sorted_literals unsealed hexless
  rw [listed] at sorted
  rw [firstColour?_eq found read sorted, replaced, listed, head?_filter_bind]

/-- A pass leaves a value in which no literal of its kind can be read. -/
theorem tryRewrite_of_unread (unread : replaced value = []) (tuning : Tuning Float) (role : Role)
    (kind : Kind) :
    Text.tryRewrite kind.matcher (kind.convert tuning role) value = .ok value := by
  obtain ⟨tiles, _, found, read⟩ := exists_reading unsealed hexless
  have listed := (literals_of_unsealed unsealed hexless).1
  rw [Text.hits, found] at listed
  refine Text.tryRewrite_ok_iff.mpr
    ⟨(Text.fragments kind.matcher none value).map Text.Fragment.text,
      (Text.flatMap_text_fragments ..).symm, ?_⟩
  rw [List.forall₂_map_right_iff, List.forall₂_same]
  rintro (c | ⟨body, covered⟩) member
  · rfl
  · -- The hit is a literal of the value, and none of those can be read.
    have hit : (body, covered) ∈
        (Text.placedHits 0 (Text.fragments kind.matcher none value)).map (·.2) := by
      rw [Text.map_snd_placedHits]
      exact List.mem_filterMap.mpr ⟨_, member, rfl⟩
    rw [read kind, placedHits_read, ← listed] at hit
    obtain ⟨_, chosen, same⟩ := List.mem_map.mp hit
    obtain ⟨⟨place, literal, covered'⟩, outside, select⟩ := List.mem_filterMap.mp chosen
    unfold Kind.select? at select
    split at select
    next ofKind =>
      subst ofKind
      obtain rfl := Option.some.inj select
      obtain ⟨rfl, rfl⟩ := Prod.mk.inj same
      have blank := List.filter_eq_nil_iff.mp unread _ outside
      exact literal.convert_of_unread (by simpa using blank)
    next => cases select

theorem convertValue_of_unread (unread : replaced value = []) (tuning : Tuning Float)
    (role : Role) : convertValue tuning role value = .ok value := by
  have still := tryRewrite_of_unread unsealed hexless unread tuning role
  rw [convertValue_of_unsealed unsealed]
  split
  · rfl
  · have hex : Text.tryRewrite hexMatcher (convertHexLiteral tuning role) value = .ok value :=
      still .hex
    have rgb : Text.tryRewrite rgbMatcher (convertCall tuning role parseRgb?) value = .ok value :=
      still (.call .rgb)
    rw [convertPlain, hex]
    change (Text.tryRewrite rgbMatcher _ value >>= _) = _
    rw [rgb]
    exact still (.call .hsl)

theorem writesOver_of_converted {tuning : Tuning Float} {role : Role} {out : Text}
    (converted : convertValue tuning role value = .ok out) : WritesOver tuning role value out := by
  rw [convertValue_of_unsealed unsealed] at converted
  split at converted
  next keyword =>
    obtain rfl := Except.ok.inj converted
    have none : replaced value = [] := by rw [replaced, literals_of_keyword keyword]; rfl
    exact ⟨[], by rw [none]; exact .nil, by rw [none]; rfl⟩
  next =>
    obtain ⟨tiles, tiling, found, read⟩ := exists_reading unsealed hexless
    have listed := (literals_of_unsealed unsealed hexless).1
    -- The passes come to one replacement, in which the literals that cannot be read stay.
    have rewritten := tryRewrite_of_convertPlain tiling (read .hex) found converted
    obtain ⟨parts, rfl, attempts⟩ := Text.tryRewrite_ok_iff.mp rewritten
    have stays : ∀ (literal : Literal) covered out, literal.colour?.isSome = false →
        literal.convert tuning role covered = .ok out → out = covered := by
      intro literal covered out unread answered
      rw [literal.convert_of_unread (by simpa using unread)] at answered
      exact (Except.ok.inj answered).symm
    have nothing : ∀ edit ∈ ([] : List ((Nat × Literal × Text) × Text)),
        0 + ((Text.fragments literalMatcher none value).flatMap Text.Fragment.text).length
          ≤ edit.1.1 := by simp
    obtain ⟨news, converts, whole⟩ := Text.exists_splice_filter attempts 0 [] nothing
      (fun literal => literal.colour?.isSome) stays
    rw [Text.hits] at listed
    rw [List.append_nil, List.append_nil, Text.flatMap_text_fragments, Text.splice,
      List.append_nil, ← listed] at whole
    rw [← listed] at converts
    refine ⟨news, ?_, whole.symm⟩
    have both : List.Forall₂ (fun hit new => hit.2.1.colour?.isSome = true ∧
        hit.2.1.convert tuning role hit.2.2 = .ok new) (replaced value) news :=
      (List.forall₂_and_left _ _).mpr ⟨fun _ => isSome_of_mem_replaced, converts⟩
    refine both.imp ?_
    rintro hit new ⟨some, answered⟩
    obtain ⟨rgb, read⟩ := Option.isSome_iff_exists.mp some
    obtain ⟨shade, mapped, spells⟩ := hit.2.1.exists_of_read read answered
    exact ⟨rgb, shade, read, mapped, spells⟩

theorem firstColour?_eq_none_iff : firstColour? value = none ↔ replaced value = [] := by
  rw [firstColour?_eq_head? unsealed hexless]
  cases listed : replaced value with
  | nil => simp
  | cons hit rest =>
    have member : hit ∈ replaced value := listed ▸ List.mem_cons_self ..
    have some := isSome_of_mem_replaced member
    simpa [Option.isSome_iff_ne_none] using some

end unsealed

/-- In a value without sealed parts, whose calls hold no hexadecimal literal, the colour that is
found first is that of the leftmost literal that a conversion writes over, and there is none exactly
if there is no such literal. Then the value stays as it is. -/
theorem firstColour?_replaced {value : Text} (unsealed : sealedSpans value = [])
    (hexless : ∀ hit ∈ literals value,
      hit.2.1.kind ≠ .hex → Text.holdsMatch hexMatcher hit.2.2 = false) :
    firstColour? value = (replaced value).head?.bind (fun hit => hit.2.1.colour?) ∧
    (firstColour? value = none ↔ replaced value = []) ∧
    (replaced value).Pairwise (fun first second => first.1 + first.2.2.length ≤ second.1) ∧
    ∀ tuning role,
      (replaced value = [] → convertValue tuning role value = .ok value) ∧
      ∀ out, convertValue tuning role value = .ok out → WritesOver tuning role value out :=
  ⟨firstColour?_eq_head? unsealed hexless, firstColour?_eq_none_iff unsealed hexless,
    (apart_literals unsealed hexless).filter _, fun tuning role =>
      ⟨fun unread => convertValue_of_unread unsealed hexless unread tuning role,
        fun _ converted => writesOver_of_converted unsealed hexless converted⟩⟩

/-- A call that cannot be read stands in front of a call and a hexadecimal literal that can. -/
theorem firstColour?_replaced_mixed :
    let value := "rgb(no) HSL(0 0% 50%)#fff".toList
    firstColour? value = (replaced value).head?.bind (fun hit => hit.2.1.colour?) ∧
    (replaced value).map (·.1) = [8, 21] ∧
    ∀ out, convertValue {} .body value = .ok out → WritesOver {} .body value out := by
  intro value
  have unsealed : sealedSpans value = [] := by decide +kernel
  have hexless : ∀ hit ∈ literals value,
      hit.2.1.kind ≠ .hex → Text.holdsMatch hexMatcher hit.2.2 = false := by decide +kernel
  obtain ⟨first, -, -, conversions⟩ := firstColour?_replaced unsealed hexless
  exact ⟨first, by decide +kernel, (conversions {} .body).2⟩

end ThemeCss.Dark
