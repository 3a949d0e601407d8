import ThemeCss.Proofs.Dark.Occurrence
import ThemeCss.Proofs.Dark.Parted

/-!
# Literals replaced at once

The literals of a value are those that stand outside its sealed parts, and each plain part holds its
own. A conversion writes a colour over each of them that can be read, as if all were written at
once, and leaves the rest of the value as it is.
-/
namespace ThemeCss.Text

variable {α : Type} {matcher : Matcher α}

/-- What stands between two places. -/
def slice (text : Text) (span : Nat × Nat) : Text := (text.drop span.1).take (span.2 - span.1)

theorem slice_append (front : Text) {middle : Text} (back : Text) {start stop : Nat}
    (first : start = front.length) (last : stop = front.length + middle.length) :
    slice (front ++ (middle ++ back)) (start, stop) = middle := by
  rw [slice, first, last, List.drop_left, Nat.add_sub_cancel_left, List.take_left]

/-- Writes a text over what each hit covers. The places are counted from `start`. -/
def splice (start : Nat) (text : Text) : List ((Nat × α × Text) × Text) → Text
  | [] => text
  | ((place, _, covered), new) :: edits => text.take (place - start) ++ new ++
    splice (place + covered.length) (text.drop (place + covered.length - start)) edits

theorem splice_append {start : Nat} {front : Text} {edits : List ((Nat × α × Text) × Text)}
    (behind : ∀ edit ∈ edits, start + front.length ≤ edit.1.1) (rest : Text) :
    splice start (front ++ rest) edits = front ++ splice (start + front.length) rest edits := by
  cases edits with
  | nil => rfl
  | cons edit edits =>
    obtain ⟨⟨place, value, covered⟩, new⟩ := edit
    obtain ⟨gap, rfl⟩ := Nat.exists_eq_add_of_le (behind _ (List.mem_cons_self ..))
    have first : start + front.length + gap - start = front.length + gap := by omega
    have last : start + front.length + gap + covered.length - start
        = front.length + (gap + covered.length) := by omega
    have first' : start + front.length + gap - (start + front.length) = gap := by omega
    have last' : start + front.length + gap + covered.length - (start + front.length)
        = gap + covered.length := by omega
    rw [splice, splice, first, last, first', last', List.take_length_add_append,
      List.drop_length_add_append, List.append_assoc, List.append_assoc, List.append_assoc]

theorem le_of_mem_placedHits {start : Nat} {parts : List (Fragment α)} {hit : Nat × α × Text}
    (listed : hit ∈ placedHits start parts) :
    start ≤ hit.1 ∧ hit.1 + hit.2.2.length ≤ start + (parts.flatMap Fragment.text).length := by
  induction parts generalizing start with
  | nil => cases listed
  | cons part rest ih =>
    rw [List.flatMap_cons, List.length_append]
    cases part with
    | plain c =>
      have bounds := ih listed
      simp only [Fragment.text, List.length_singleton]
      omega
    | hit value covered =>
      rcases List.mem_cons.mp listed with rfl | listed
      · simp only [Fragment.text]
        omega
      · have bounds := ih listed
        simp only [Fragment.text]
        omega

theorem pairwise_placedHits (start : Nat) (parts : List (Fragment α)) :
    (placedHits start parts).Pairwise fun first second =>
      first.1 + first.2.2.length ≤ second.1 := by
  induction parts generalizing start with
  | nil => exact .nil
  | cons part rest ih =>
    cases part with
    | plain c => exact ih (start + 1)
    | hit value covered =>
      exact .cons (fun hit listed => (le_of_mem_placedHits listed).1) (ih _)

section attempts

variable {ε : Type} {replace : α → Text → Except ε Text} {parts : List (Fragment α)}
  {outs : List Text}
  (each : List.Forall₂ (fun fragment out => fragment.attempt replace = .ok out) parts outs)
  (start : Nat) (rest : Text) {later : List ((Nat × α × Text) × Text)}
  (behind : ∀ edit ∈ later, start + (parts.flatMap Fragment.text).length ≤ edit.1.1)
include each behind

/-- What is attempted on fragments is spliced over the hits. Those that stay as they are need not be
among the edits. -/
theorem exists_splice_filter (edits : α → Bool)
    (stays : ∀ value covered out, edits value = false → replace value covered = .ok out →
      out = covered) :
    ∃ news, List.Forall₂ (fun hit new => replace hit.2.1 hit.2.2 = .ok new)
        ((placedHits start parts).filter fun hit => edits hit.2.1) news ∧
      splice start (parts.flatMap Fragment.text ++ rest)
          (((placedHits start parts).filter fun hit => edits hit.2.1).zip news ++ later)
        = outs.flatten ++ splice (start + (parts.flatMap Fragment.text).length) rest later := by
  induction each generalizing start with
  | nil => exact ⟨[], .nil, rfl⟩
  | @cons part out parts outs answered _ ih =>
    rw [List.flatMap_cons, List.length_append] at behind ⊢
    have later' : ∀ edit ∈ later,
        start + part.text.length + (parts.flatMap Fragment.text).length ≤ edit.1.1 :=
      fun edit listed => Nat.add_assoc start _ _ ▸ behind edit listed
    obtain ⟨news, converts, whole⟩ := ih (start + part.text.length) later'
    have ahead : ∀ edit ∈ (((placedHits (start + part.text.length) parts).filter
        fun hit => edits hit.2.1).zip news ++ later), start + part.text.length ≤ edit.1.1 := by
      intro edit listed
      rcases List.mem_append.mp listed with first | last
      · have listed := (List.mem_filter.mp (List.of_mem_zip first).1).1
        exact (le_of_mem_placedHits listed).1
      · exact (Nat.le_add_right _ _).trans (later' edit last)
    -- A part that is kept stands in front of all edits.
    have kept (same : out = part.text) :
        splice start (part.text ++ parts.flatMap Fragment.text ++ rest)
            (((placedHits (start + part.text.length) parts).filter fun hit => edits hit.2.1).zip
              news ++ later)
          = (out :: outs).flatten ++
            splice (start + (part.text.length + (parts.flatMap Fragment.text).length)) rest
              later := by
      rw [List.append_assoc, splice_append ahead, whole, List.flatten_cons, same, List.append_assoc,
        Nat.add_assoc]
    cases part with
    | plain c => exact ⟨news, converts, kept (Except.ok.inj answered).symm⟩
    | hit value covered =>
      rw [placedHits]
      cases edited : edits value with
      | false =>
        rw [List.filter_cons_of_neg (by simp [edited])]
        exact ⟨news, converts, kept (stays value covered out edited answered)⟩
      | true =>
        rw [List.filter_cons_of_pos (by simp [edited])]
        refine ⟨out :: news, .cons answered converts, ?_⟩
        rw [List.zip_cons_cons, List.cons_append, splice, Nat.sub_self, Nat.add_sub_cancel_left,
          Fragment.text, List.append_assoc covered, List.drop_left, List.take_zero, List.nil_append,
          List.flatten_cons, List.append_assoc out, ← Nat.add_assoc]
        exact congrArg (out ++ ·) whole

theorem exists_splice :
    ∃ news, List.Forall₂ (fun hit new => replace hit.2.1 hit.2.2 = .ok new)
        (placedHits start parts) news ∧
      splice start (parts.flatMap Fragment.text ++ rest)
          ((placedHits start parts).zip news ++ later)
        = outs.flatten ++ splice (start + (parts.flatMap Fragment.text).length) rest later := by
  have spliced := exists_splice_filter each start rest behind (fun _ => true) (by simp)
  simpa only [List.filter_true] using spliced

end attempts

end ThemeCss.Text

namespace ThemeCss.Dark

open Colour Scan Theme

/-! ### Sealed spans -/

def Segment.sealed? : Segment → Option Text
  | .plain _ => none
  | .sealed content => some content

/-- The spans of sealed parts, the first part starting at `start`. -/
def spansFrom (start : Nat) : List Segment → List (Nat × Nat)
  | [] => []
  | .plain content :: rest => spansFrom (start + content.length) rest
  | .sealed content :: rest =>
    (start, start + content.length) :: spansFrom (start + content.length) rest

theorem spansFrom_gather (start : Nat) (parts : List (Text.Fragment Unit)) :
    (Text.placedHits start parts).map (fun (start, _, covered) => (start, start + covered.length))
      = spansFrom start (gather parts) := by
  fun_induction gather parts generalizing start with
  | case1 => rfl
  | case2 value covered rest ih =>
    rw [Text.placedHits, List.map_cons, ih]
    rfl
  | case3 c rest content segments same ih =>
    have later := ih (start + 1)
    rw [same, spansFrom, Nat.add_assoc] at later
    rw [Text.placedHits, later, spansFrom, List.length_cons, Nat.add_comm 1]
  | case4 c rest other ih => exact ih (start + 1)

theorem sealedSpans_eq (value : Text) : sealedSpans value = spansFrom 0 (segments value) :=
  spansFrom_gather 0 _

theorem parted_segments (value : Text) : Parted none (segments value) := parted_gather none value

namespace Parted

variable {before : Option Char} {segs : List Segment} (parted : Parted before segs)
include parted

theorem bounds_spansFrom (start : Nat) : ∀ span ∈ spansFrom start segs,
    start ≤ span.1 ∧ span.1 < span.2 ∧ span.2 ≤ start + (segs.flatMap Segment.text).length := by
  induction parted generalizing start with
  | nil => simp [spansFrom]
  | @plain before content rest _ _ _ _ ih =>
    intro span listed
    have bounds := ih (start + content.length) span listed
    simp only [List.flatMap_cons, Segment.text, List.length_append]
    omega
  | @sealed before content rest ink _ _ ih =>
    have room := List.length_pos_iff.mpr ink
    simp only [spansFrom, List.forall_mem_cons, List.flatMap_cons, Segment.text, List.length_append]
    refine ⟨by omega, fun span listed => ?_⟩
    have bounds := ih (start + content.length) span listed
    omega

theorem pairwise_spansFrom (start : Nat) :
    (spansFrom start segs).Pairwise fun first second => first.2 ≤ second.1 := by
  induction parted generalizing start with
  | nil => exact .nil
  | @plain before content rest _ _ _ _ ih => exact ih (start + content.length)
  | @sealed before content rest _ _ parted ih =>
    exact .cons (fun span listed => (parted.bounds_spansFrom _ span listed).1) (ih _)

end Parted

theorem map_slice_spansFrom (front : Text) (segs : List Segment) :
    (spansFrom front.length segs).map (Text.slice (front ++ segs.flatMap Segment.text))
      = segs.filterMap Segment.sealed? := by
  induction segs generalizing front with
  | nil => rfl
  | cons segment rest ih =>
    have later := ih (front ++ segment.text)
    rw [List.length_append, List.append_assoc] at later
    cases segment with
    | plain content => exact later
    | «sealed» content =>
      rw [Segment.text] at later
      rw [spansFrom, List.map_cons, List.flatMap_cons, Segment.text, later,
        Text.slice_append front _ rfl rfl]
      rfl

theorem map_slice_sealedSpans (value : Text) :
    (sealedSpans value).map (Text.slice value) = (segments value).filterMap Segment.sealed? := by
  have sliced := map_slice_spansFrom [] (segments value)
  rwa [List.nil_append, flatMap_text_segments, List.length_nil, ← sealedSpans_eq] at sliced

/-! ### Literals outside sealed spans -/

def outside (spans : List (Nat × Nat)) (hit : Nat × Literal × Text) : Bool :=
  spans.all fun span => hit.1 + hit.2.2.length ≤ span.1 || span.2 ≤ hit.1

/-- The literals that stand outside the sealed parts of a value: their places, and what they
cover. -/
def literals (value : Text) : List (Nat × Literal × Text) :=
  (Text.occurrences literalMatcher none 0 [] value).filter (outside (sealedSpans value))

/-- The literals that each plain part holds on its own. -/
def literalsFrom (start : Nat) : List Segment → List (Nat × Literal × Text)
  | [] => []
  | .plain content :: rest => Text.placedHits start (Text.fragments literalMatcher none content)
    ++ literalsFrom (start + content.length) rest
  | .sealed content :: rest => literalsFrom (start + content.length) rest

theorem hexlessCalls_of_found {tiles : List Tile} (found : Found none tiles)
    (hexless : ∀ tile ∈ tiles, tile.Hexless) : HexlessCalls (tiled tiles) := by
  intro literal covered listed called
  rw [found.fragments_eq] at listed
  obtain ⟨tile, listed, same⟩ := List.mem_map.mp listed
  have here := hexless tile listed
  cases tile with
  | plain => cases same
  | hex =>
    obtain ⟨rfl, rfl⟩ := Text.Fragment.hit.inj same
    exact absurd rfl called
  | call =>
    obtain ⟨rfl, rfl⟩ := Text.Fragment.hit.inj same
    exact here

/-- Where a literal that starts in a stretch stands, and that it covers something. -/
theorem bounds_of_mem_occurrences {before : Option Char} {start : Nat} {text after : Text}
    {hit : Nat × Literal × Text}
    (listed : hit ∈ Text.occurrences literalMatcher before start after text) :
    start ≤ hit.1 ∧ hit.1 < start + text.length ∧ 1 ≤ hit.2.2.length ∧
      hit.1 + hit.2.2.length ≤ start + text.length + after.length := by
  obtain ⟨place, literal, covered⟩ := hit
  obtain ⟨front, back, size, rfl, ink, rfl, found, rfl⟩ := Text.exists_of_mem_occurrences listed
  have room := List.length_pos_iff.mpr ink
  obtain ⟨least, long⟩ := covered_of_literalMatcher found
  have most := List.length_take_le' size (back ++ after)
  simp only [List.length_append, long] at most ⊢
  omega

theorem outside_eq_fits {start : Nat} {content : Text} {rest : List Segment}
    (alone : ∀ other, rest.head? ≠ some (.plain other)) (parted : Parted content.getLast? rest)
    {before : Option Char} {hit : Nat × Literal × Text}
    (listed : hit ∈
      Text.occurrences literalMatcher before start (rest.flatMap Segment.text) content) :
    outside (spansFrom (start + content.length) rest) hit = fits (start + content.length) hit := by
  obtain ⟨least, most, some, room⟩ := bounds_of_mem_occurrences listed
  rw [Bool.eq_iff_iff, outside, fits, List.all_eq_true, decide_eq_true_iff]
  constructor
  · intro each
    cases parted with
    | nil => simpa using room
    | plain => exact absurd rfl (alone _)
    | @«sealed» _ content' =>
      -- What starts in the part and ends outside it stands in front of the next span.
      have first := each _ (List.mem_cons_self ..)
      simp only [Bool.or_eq_true, decide_eq_true_iff] at first
      omega
  · intro fit span member
    have bounds := parted.bounds_spansFrom _ span member
    simp only [Bool.or_eq_true, decide_eq_true_iff]
    omega

/-- A plain part holds the literals that start in it and stand outside sealed parts. -/
theorem filter_occurrences_plain {before : Option Char} {content : Text} {rest : List Segment}
    (boundary : Text.isWord? before = false) (ink : content ≠ [])
    (alone : ∀ other, rest.head? ≠ some (.plain other)) (parted : Parted content.getLast? rest)
    {start : Nat}
    (hexless : ∀ hit ∈ (Text.occurrences literalMatcher before start (rest.flatMap Segment.text)
        content).filter (outside (spansFrom (start + content.length) rest)),
      hit.2.1.kind ≠ .hex → Text.holdsMatch hexMatcher hit.2.2 = false) :
    (Text.occurrences literalMatcher before start (rest.flatMap Segment.text) content).filter
        (outside (spansFrom (start + content.length) rest))
        = Text.placedHits start (Text.fragments literalMatcher none content) ∧
      HexlessCalls content := by
  have same : ∀ hit ∈
      Text.occurrences literalMatcher before start (rest.flatMap Segment.text) content,
      outside (spansFrom (start + content.length) rest) hit = fits (start + content.length) hit :=
    fun _ listed => outside_eq_fits alone parted listed
  rw [List.filter_congr same] at hexless ⊢
  obtain ⟨tiles, rfl, laid, found⟩ := exists_tiles none content
  have edge : Text.isWord? ((tiled tiles).getLast?.or before) = true →
      Text.isWord? (rest.flatMap Segment.text).head? = false := by
    rw [Text.getLast?_or_of_ne_nil ink]
    exact parted.isWord_head alone
  obtain ⟨listed, hexlessTiles⟩ := filter_occurrences_tiled (found.congr boundary) laid.sound rfl
    edge hexless
  rw [listed, found.fragments_eq]
  exact ⟨rfl, hexlessCalls_of_found found hexlessTiles⟩

/-- A sealed part holds none of them, and hides none of those behind it. -/
theorem filter_occurrences_sealed (before : Option Char) (content : Text) (rest : List Segment)
    (start : Nat) :
    (Text.occurrences literalMatcher before start [] (content ++ rest.flatMap Segment.text)).filter
        (outside (spansFrom start (.sealed content :: rest)))
      = (Text.occurrences literalMatcher (content.getLast?.or before) (start + content.length) []
          (rest.flatMap Segment.text)).filter
        (outside (spansFrom (start + content.length) rest)) := by
  have inside : (Text.occurrences literalMatcher before start (rest.flatMap Segment.text)
      content).filter (outside (spansFrom start (.sealed content :: rest))) = [] := by
    refine List.filter_eq_nil_iff.mpr fun hit listed fit => ?_
    obtain ⟨least, most, some, _⟩ := bounds_of_mem_occurrences listed
    have first := List.all_eq_true.mp fit _ (List.mem_cons_self ..)
    simp only [Bool.or_eq_true, decide_eq_true_iff] at first
    omega
  have behind : ∀ hit ∈ Text.occurrences literalMatcher (content.getLast?.or before)
      (start + content.length) [] (rest.flatMap Segment.text),
      outside (spansFrom start (.sealed content :: rest)) hit
        = outside (spansFrom (start + content.length) rest) hit := by
    intro hit listed
    have bounds := bounds_of_mem_occurrences listed
    simp [outside, spansFrom, bounds.1]
  rw [Text.occurrences_append, List.append_nil, List.filter_append, inside, List.nil_append,
    List.filter_congr behind]

/-- The literals of a value are those that its plain parts hold on their own. -/
theorem Parted.filter_occurrences {before : Option Char} {segs : List Segment}
    (parted : Parted before segs)
    (boundary : ∀ content, segs.head? = some (.plain content) → Text.isWord? before = false)
    (start : Nat)
    (hexless : ∀ hit ∈ (Text.occurrences literalMatcher before start []
        (segs.flatMap Segment.text)).filter (outside (spansFrom start segs)),
      hit.2.1.kind ≠ .hex → Text.holdsMatch hexMatcher hit.2.2 = false) :
    (Text.occurrences literalMatcher before start [] (segs.flatMap Segment.text)).filter
        (outside (spansFrom start segs)) = literalsFrom start segs ∧
      ∀ content, .plain content ∈ segs → HexlessCalls content := by
  induction parted generalizing start with
  | nil => exact ⟨rfl, by simp⟩
  | @plain before content rest ink silent alone parted ih =>
    rw [List.flatMap_cons, Segment.text, Text.occurrences_append, List.append_nil,
      Text.getLast?_or_of_ne_nil ink, List.filter_append, spansFrom] at hexless ⊢
    rw [List.forall_mem_append] at hexless
    obtain ⟨here, hexlessHere⟩ :=
      filter_occurrences_plain (boundary content rfl) ink alone parted hexless.1
    obtain ⟨later, hexlessLater⟩ := ih (fun other same => absurd same (alone other)) _ hexless.2
    refine ⟨by rw [here, later, literalsFrom], fun other listed => ?_⟩
    rcases List.mem_cons.mp listed with same | listed
    · obtain rfl := Segment.plain.inj same
      exact hexlessHere
    · exact hexlessLater other listed
  | @«sealed» before content rest ink found parted ih =>
    rw [List.flatMap_cons, Segment.text, filter_occurrences_sealed,
      Text.getLast?_or_of_ne_nil ink] at hexless ⊢
    -- What ends a sealed part is no part of a word, so a word may start behind it.
    have boundary' : ∀ other, rest.head? = some (.plain other) →
        Text.isWord? content.getLast? = false := by
      intro other same
      refine isWord_getLast?_of_sealedMatcher (fun none => ?_) found
      cases parted with
      | nil => cases same
      | plain some => exact some (List.append_eq_nil_iff.mp none).1
      | «sealed» => cases same
    obtain ⟨later, hexlessLater⟩ := ih boundary' _ hexless
    refine ⟨later, fun other listed => ?_⟩
    rcases List.mem_cons.mp listed with same | listed
    · cases same
    · exact hexlessLater other listed

theorem literals_eq {value : Text}
    (hexless : ∀ hit ∈ literals value,
      hit.2.1.kind ≠ .hex → Text.holdsMatch hexMatcher hit.2.2 = false) :
    literals value = literalsFrom 0 (segments value) ∧
      ∀ content, .plain content ∈ segments value → HexlessCalls content := by
  have filtered := (parted_segments value).filter_occurrences (fun _ _ => rfl) 0
  rw [flatMap_text_segments, ← sealedSpans_eq] at filtered
  exact filtered hexless

theorem le_of_mem_literalsFrom {start : Nat} {segs : List Segment} {hit : Nat × Literal × Text}
    (listed : hit ∈ literalsFrom start segs) : start ≤ hit.1 := by
  induction segs generalizing start with
  | nil => cases listed
  | cons segment rest ih =>
    cases segment with
    | plain content =>
      rcases List.mem_append.mp listed with here | later
      · exact (Text.le_of_mem_placedHits here).1
      · exact (Nat.le_add_right ..).trans (ih later)
    | «sealed» content => exact (Nat.le_add_right ..).trans (ih listed)

theorem pairwise_literalsFrom (start : Nat) (segs : List Segment) :
    (literalsFrom start segs).Pairwise fun first second =>
      first.1 + first.2.2.length ≤ second.1 := by
  induction segs generalizing start with
  | nil => exact .nil
  | cons segment rest ih =>
    cases segment with
    | plain content =>
      refine List.pairwise_append.mpr ⟨Text.pairwise_placedHits start _, ih _, ?_⟩
      intro first here second later
      have ends := (Text.le_of_mem_placedHits here).2
      rw [Text.flatMap_text_fragments] at ends
      exact ends.trans (le_of_mem_literalsFrom later)
    | «sealed» content => exact ih _

section conversion

variable {tuning : Tuning Float} {role : Role}

/-! ### Parts -/

/-- A part with its literals replaced at once. -/
def Segment.Rewrites (tuning : Tuning Float) (role : Role) : Segment → Text → Prop
  | .plain content, out =>
    Text.tryRewrite literalMatcher (Literal.convert tuning role) content = .ok out
  | .sealed content, out => out = content

theorem exists_splice_segments {segs : List Segment} {outs : List Text}
    (each : List.Forall₂ (Segment.Rewrites tuning role) segs outs) (start : Nat) :
    ∃ news, List.Forall₂ (fun hit new => hit.2.1.convert tuning role hit.2.2 = .ok new)
        (literalsFrom start segs) news ∧
      Text.splice start (segs.flatMap Segment.text) ((literalsFrom start segs).zip news)
        = outs.flatten := by
  induction each generalizing start with
  | nil => exact ⟨[], .nil, rfl⟩
  | @cons segment out rest outs rewrites _ ih =>
    obtain ⟨later, converts, whole⟩ := ih (start + segment.text.length)
    -- The edits of what follows do not reach into this part.
    have behind : ∀ edit ∈ (literalsFrom (start + segment.text.length) rest).zip later,
        start + segment.text.length ≤ edit.1.1 := fun edit listed =>
      le_of_mem_literalsFrom (List.of_mem_zip listed).1
    rw [List.flatMap_cons, List.flatten_cons]
    cases segment with
    | plain content =>
      rw [Segment.text] at behind whole
      obtain ⟨parts, rfl, attempts⟩ := Text.tryRewrite_ok_iff.mp rewrites
      obtain ⟨news, converts', whole'⟩ := Text.exists_splice attempts start
        (rest.flatMap Segment.text) (by rwa [Text.flatMap_text_fragments])
      refine ⟨news ++ later, List.rel_append converts' converts, ?_⟩
      rw [Text.flatMap_text_fragments] at whole'
      rw [literalsFrom, List.zip_append converts'.length_eq]
      exact whole'.trans (by rw [whole])
    | «sealed» content =>
      rw [Segment.text] at behind whole
      obtain rfl : out = content := rewrites
      exact ⟨later, converts, by rw [literalsFrom, Segment.text, Text.splice_append behind, whole]⟩

/-- What is written for a call holds no quote unless the call does. -/
theorem unquoted_of_convertCall {read : Text → Option Painted} {body covered written : Text}
    (converted : convertCall tuning role read body covered = .ok written)
    (unquoted : ∀ c ∈ covered, Mode.isQuote c = false) :
    ∀ c ∈ written, Mode.isQuote c = false := by
  unfold convertCall at converted
  split at converted
  · obtain rfl := Except.ok.inj converted
    exact unquoted
  · obtain ⟨rgb, _, same⟩ := Text.exists_of_bind_ok converted
    obtain rfl := Except.ok.inj same
    intro c member
    have free := (isLiteral_writeCall _).free c member
    simp only [strangers, List.mem_cons, not_or] at free
    simp [Mode.isQuote, free.1, free.2.1]

theorem Tile.Converts.swaps {tile new : Tile} (converts : Tile.Converts tuning role tile new)
    (sound : new.Sound) : Tile.Swaps tile new := by
  refine ⟨converts.like, ?_⟩
  obtain ⟨like, attempt⟩ := converts
  cases like with
  | plain c => exact id
  | hex digits digits' =>
    intro _
    rw [Tile.text, List.forall_mem_cons]
    refine ⟨by decide, fun c member => ?_⟩
    have apart := @isHexDigit_induction (!Mode.isQuote ·) (by decide) c (sound.2 c member)
    simpa using apart
  | call function function' met inside met' inside' => exact unquoted_of_convertCall attempt

theorem swaps_of_converts {tiles news : List Tile}
    (each : List.Forall₂ (Tile.Converts tuning role) tiles news)
    (sound : ∀ new ∈ news, new.Sound) : List.Forall₂ Tile.Swaps tiles news := by
  induction each with
  | nil => exact .nil
  | cons converts _ ih =>
    rw [List.forall_mem_cons] at sound
    exact .cons (converts.swaps sound.1) (ih sound.2)

/-- A part is converted by replacing its literals at once, and it stays a part of its kind. -/
theorem exists_of_convertSegment {segment : Segment} {out : Text}
    (hexless : ∀ content, segment = .plain content → HexlessCalls content)
    (converted : convertSegment tuning role segment = .ok out) :
    segment.Rewrites tuning role out ∧ ∃ new, Segment.Swaps segment new ∧ new.text = out := by
  cases segment with
  | plain content =>
    obtain ⟨tiles, tiling, found, hexes⟩ := exists_tiling content
    have read := hexes (hexless content rfl)
    have rewrites := tryRewrite_of_convertPlain tiling read found converted
    obtain ⟨news, each, tiling'⟩ := exists_of_convertPlain tiling read converted
    obtain ⟨rfl, laid, _⟩ := tiling
    obtain ⟨rfl, laid', _⟩ := tiling'
    have swaps := swaps_of_converts each laid'.sound
    exact ⟨rewrites, .plain (tiled news), .plain swaps laid laid', rfl⟩
  | «sealed» content =>
    obtain rfl := Except.ok.inj converted
    exact ⟨rfl, .sealed content, .sealed content, rfl⟩

theorem exists_of_convertSegments {segs : List Segment} {outs : List Text}
    (hexless : ∀ content, .plain content ∈ segs → HexlessCalls content)
    (each : List.Forall₂ (fun segment out => convertSegment tuning role segment = .ok out)
      segs outs) :
    List.Forall₂ (Segment.Rewrites tuning role) segs outs ∧
      ∃ news, List.Forall₂ Segment.Swaps segs news ∧ news.flatMap Segment.text = outs.flatten := by
  induction each with
  | nil => exact ⟨.nil, [], .nil, rfl⟩
  | cons converted _ ih =>
    obtain ⟨rewrites, new, swap, text⟩ := exists_of_convertSegment
      (fun content same => hexless content (by simp [same])) converted
    obtain ⟨others, news, swaps, texts⟩ :=
      ih fun content listed => hexless content (List.mem_cons_of_mem _ listed)
    exact ⟨.cons rewrites others, new :: news, .cons swap swaps,
      by rw [List.flatMap_cons, List.flatten_cons, text, texts]⟩

theorem sealed?_of_swaps {olds news : List Segment} (swaps : List.Forall₂ Segment.Swaps olds news) :
    news.filterMap Segment.sealed? = olds.filterMap Segment.sealed? := by
  induction swaps with
  | nil => rfl
  | cons swap _ ih =>
    cases swap with
    | plain => exact ih
    | «sealed» content => exact congrArg (content :: ·) ih

/-- The sealed parts of what parts are exchanged for are the same. -/
theorem map_slice_sealedSpans_of_swaps {value : Text} {news : List Segment}
    (swaps : List.Forall₂ Segment.Swaps (segments value) news) :
    (sealedSpans (news.flatMap Segment.text)).map (Text.slice (news.flatMap Segment.text))
      = (sealedSpans value).map (Text.slice value) := by
  have parted := (parted_segments value).exchange swaps rfl
  have same : segments (news.flatMap Segment.text) = news := parted.gather_eq
  rw [map_slice_sealedSpans, map_slice_sealedSpans, same, sealed?_of_swaps swaps]

/-! ### Values -/

/-- A keyword holds no literal. -/
theorem literals_of_keyword {value : Text}
    (keyword : keywords.any (Text.isKeyword · (Text.trim value)) = true) : literals value = [] := by
  obtain ⟨word, listed, keyword⟩ := List.any_eq_true.mp keyword
  have free {c : Char} (apart : keywords.all (Text.breaks · c) = true)
      (ink : Text.isBlank c = false) : c ∉ value := fun member =>
    Text.not_mem_of_isKeyword (List.all_eq_true.mp apart word listed) keyword
      (Text.mem_trim_of_ink member ink)
  have silent : Text.Silent literalMatcher none value [] := by
    refine silent_literalMatcher fun kind front back parts ink => ?_
    have within : ∀ c ∈ back, c ∈ value := fun c member => by rw [parts]; simp [member]
    rw [List.append_nil]
    cases kind with
    | hex =>
      obtain ⟨c, rest, rfl⟩ := List.exists_cons_of_ne_nil ink
      refine hexMatcher_of_ne ?_ rest
      rintro rfl
      exact free (by decide) (by decide) (within '#' (List.mem_cons_self ..))
    | call function =>
      refine callMatcher_flat function.callName.apart _ fun c member => ?_
      by_contra parenthesis
      rcases eq_of_isParenthesis (by simpa using parenthesis) with rfl | rfl
      · exact free (by decide) (by decide) (within _ member)
      · exact free (by decide) (by decide) (within _ member)
  rw [literals, Text.occurrences_of_silent silent]
  rfl

/-- A conversion that replaces all literals of a value at once, each in the pass for its kind. -/
structure Simultaneous (tuning : Tuning Float) (role : Role) (value out : Text) : Prop where
  /-- The literals outside sealed parts are replaced, and all other text is kept. -/
  replaced : ∃ news,
    List.Forall₂ (fun hit new => hit.2.1.convert tuning role hit.2.2 = .ok new)
      (literals value) news ∧
    out = Text.splice 0 value ((literals value).zip news)
  /-- No two literals overlap. -/
  apart : (literals value).Pairwise fun first second => first.1 + first.2.2.length ≤ second.1
  sorted : (sealedSpans value).Pairwise fun first second => first.2 ≤ second.1
  proper : ∀ span ∈ sealedSpans value, span.1 < span.2 ∧ span.2 ≤ value.length
  kept : (sealedSpans out).map (Text.slice out) = (sealedSpans value).map (Text.slice value)
  /-- What the passes meet in a plain part are the literals of their kinds that it has at first. -/
  once : ∀ content hexed rgbed, .plain content ∈ segments value →
    Text.tryRewrite hexMatcher (convertHexLiteral tuning role) content = .ok hexed →
    Text.tryRewrite rgbMatcher (convertCall tuning role parseRgb?) hexed = .ok rgbed →
      (Text.hits hexMatcher content).map (·.2) = literalsOf .hex content ∧
      (Text.hits rgbMatcher hexed).map (·.2) = literalsOf (.call .rgb) content ∧
      (Text.hits hslMatcher rgbed).map (·.2) = literalsOf (.call .hsl) content

/-- Colour literals outside sealed parts are converted, all at once, and nothing else is, unless a
hexadecimal literal stands in the parentheses of a call. -/
theorem simultaneous_convertValue {value out : Text}
    (hexless : ∀ hit ∈ literals value,
      hit.2.1.kind ≠ .hex → Text.holdsMatch hexMatcher hit.2.2 = false)
    (converted : convertValue tuning role value = .ok out) :
    Simultaneous tuning role value out := by
  obtain ⟨listed, hexlessCalls⟩ := literals_eq hexless
  have parted := parted_segments value
  have once : ∀ content hexed rgbed, .plain content ∈ segments value →
      Text.tryRewrite hexMatcher (convertHexLiteral tuning role) content = .ok hexed →
      Text.tryRewrite rgbMatcher (convertCall tuning role parseRgb?) hexed = .ok rgbed →
        (Text.hits hexMatcher content).map (·.2) = literalsOf .hex content ∧
        (Text.hits rgbMatcher hexed).map (·.2) = literalsOf (.call .rgb) content ∧
        (Text.hits hslMatcher rgbed).map (·.2) = literalsOf (.call .hsl) content := by
    intro content hexed rgbed member first second
    obtain ⟨tiles, tiling, found, hexes⟩ := exists_tiling content
    exact map_snd_hits_of_passes tiling (hexes (hexlessCalls content member)) found first second
  have proper : ∀ span ∈ sealedSpans value, span.1 < span.2 ∧ span.2 ≤ value.length := by
    intro span member
    rw [sealedSpans_eq] at member
    have bounds := parted.bounds_spansFrom 0 span member
    rw [flatMap_text_segments, Nat.zero_add] at bounds
    exact bounds.2
  have apart : (literals value).Pairwise fun first second =>
      first.1 + first.2.2.length ≤ second.1 := by
    rw [listed]
    exact pairwise_literalsFrom 0 _
  have sorted : (sealedSpans value).Pairwise fun first second => first.2 ≤ second.1 := by
    rw [sealedSpans_eq]
    exact parted.pairwise_spansFrom 0
  by_cases keyword : keywords.any (Text.isKeyword · (Text.trim value)) = true
  · rw [convertValue, if_pos keyword] at converted
    obtain rfl := Except.ok.inj converted
    have none := literals_of_keyword keyword
    exact ⟨⟨[], by rw [none]; exact .nil, by rw [none]; rfl⟩, apart, sorted, proper, rfl, once⟩
  · rw [convertValue, if_neg keyword] at converted
    obtain ⟨outs, returned, joined⟩ := Text.exists_of_bind_ok converted
    obtain rfl := Except.ok.inj joined
    obtain ⟨rewrites, news, swaps, whole⟩ :=
      exists_of_convertSegments hexlessCalls (Text.mapM_ok_iff.mp returned)
    obtain ⟨texts, converts, spliced⟩ := exists_splice_segments rewrites 0
    rw [flatMap_text_segments, ← listed] at spliced
    rw [← listed] at converts
    refine ⟨⟨texts, converts, spliced.symm⟩, apart, sorted, proper, ?_, once⟩
    rw [← whole]
    exact map_slice_sealedSpans_of_swaps swaps

end conversion

/-- Literals next to each other, two sealed parts, a call that cannot be read, and an address that
is never closed. -/
def crowded : Text :=
  "#ABC8 rgb(1,2,3)hsl(0 0% 50%)'#fff'var(--x,#fff)rgba(no)#12345 url(#abc".toList

def recoloured : Text :=
  "#708ca988 rgb(50, 100, 150)rgb(128, 128, 128)'#fff'var(--x,#fff)rgba(no)#12345 url(#abc".toList

theorem simultaneous_convertValue_crowded :
    (∀ hit ∈ literals crowded,
      hit.2.1.kind ≠ .hex → Text.holdsMatch hexMatcher hit.2.2 = false) ∧
    convertValue {} .body crowded = .ok recoloured ∧
    Simultaneous {} .body crowded recoloured := by
  have hexless : ∀ hit ∈ literals crowded,
      hit.2.1.kind ≠ .hex → Text.holdsMatch hexMatcher hit.2.2 = false := by decide +kernel
  have converted : convertValue {} .body crowded = .ok recoloured := by
    decide +kernel
  exact ⟨hexless, converted, simultaneous_convertValue hexless converted⟩

end ThemeCss.Dark
