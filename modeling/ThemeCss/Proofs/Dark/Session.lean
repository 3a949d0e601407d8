import ThemeCss.Proofs.Pipeline.Marker

/-!
# Runs of a converter

A converter answers from its cache what it has converted before, and it forgets the oldest entries
and everything that is cleared. None of this is seen from outside: whatever was asked before, the
answer is that of a converter without a past. What carries this through a run is that every entry is
the conversion of a text of the run, kept under that text's key.
-/
namespace ThemeCss.Dark

open Digest

/-! ### The cache -/

theorem Cache.size_put_le {cache : Cache} (bounded : cache.size ≤ cache.limit) (key value : Text) :
    (cache.put key value).size ≤ cache.limit := by
  unfold Cache.put
  split
  · exact bounded
  · simp only [Cache.size, List.length_drop]
    omega

@[simp] theorem Cache.limit_put (cache : Cache) (key value : Text) :
    (cache.put key value).limit = cache.limit := by
  unfold Cache.put
  split <;> rfl

/-- Storing adds one entry at most, and may drop others. -/
theorem Cache.mem_put {cache : Cache} {key value : Text} {entry : Text × Text}
    (member : entry ∈ (cache.put key value).entries) :
    entry ∈ cache.entries ∨ entry = (key, value) := by
  unfold Cache.put at member
  split at member
  · exact .inl member
  · have listed := List.mem_of_mem_drop member
    simpa using listed

/-! ### One call -/

/-- What a converter without a past answers: a marked sheet itself, and the dark form of any
other. -/
def answer (tuning : Tuning Float) (css : Text) : Except ColourError Text :=
  if Text.holds conversionMarker css then .ok css else convertText tuning css

namespace Converter

theorem convert_of_fresh {converter : Converter} (fresh : converter.Fresh) (css : Text) :
    (converter.convert css).1 = answer converter.tuning css := by
  unfold answer
  split
  next marked => rw [converter.convert_of_marked marked]
  next unmarked => exact convert_of_unmarked fresh (by simpa using unmarked)

/-- A call that fails leaves the converter as it was. -/
theorem convert_of_error {converter : Converter} {css : Text} {cause : ColourError}
    (failed : (converter.convert css).1 = .error cause) :
    (converter.convert css).2 = converter := by
  unfold convert at failed ⊢
  -- Only a miss whose conversion succeeds changes the cache, and it answers with a text.
  split at failed
  · simp at failed
  · simp at failed
  · split at failed
    next stopped => simp [*]
    next => simp at failed

/-- The cache is within its bound, and its entries are conversions of these texts under their
keys. -/
structure Faithful (texts : List Text) (converter : Converter) : Prop where
  bounded : converter.cache.size ≤ converter.cache.limit
  converted : ∀ entry ∈ converter.cache.entries, ∃ css ∈ texts, entry.1 = contentKey css ∧
    convertText converter.tuning css = .ok entry.2

/-- The key tells the texts apart. -/
def Distinguished (texts : List Text) : Prop :=
  ∀ first ∈ texts, ∀ second ∈ texts, contentKey first = contentKey second → first = second

variable {texts : List Text} {converter : Converter}

theorem faithful_of_fresh (fresh : converter.Fresh) (texts : List Text) :
    converter.Faithful texts := by
  have empty : converter.cache.entries = [] := fresh
  exact ⟨by simp [Cache.size, empty], by simp [empty]⟩

theorem faithful_clear (converter : Converter) (texts : List Text) :
    converter.clear.Faithful texts := faithful_of_fresh (by rfl) texts

/-- An entry found under the key of a text is the conversion of that text. -/
theorem Faithful.hit (faithful : converter.Faithful texts) (distinguished : Distinguished texts)
    {css value : Text} (listed : css ∈ texts)
    (found : converter.cache.get? (contentKey css) = some value) :
    convertText converter.tuning css = .ok value := by
  obtain ⟨source, stands, key, converted⟩ :=
    faithful.converted _ (Entries.mem_of_find?_eq_some found)
  rwa [distinguished css listed source stands key]

/-- Remembering a conversion keeps the cache faithful. -/
theorem Faithful.put (faithful : converter.Faithful texts) {css value : Text} (listed : css ∈ texts)
    (converted : convertText converter.tuning css = .ok value) :
    Faithful texts { converter with cache := converter.cache.put (contentKey css) value } := by
  constructor
  · rw [Cache.limit_put]
    exact Cache.size_put_le faithful.bounded _ _
  · intro entry member
    rcases Cache.mem_put member with old | rfl
    · exact faithful.converted entry old
    · exact ⟨css, listed, rfl, converted⟩

/-- A call answers as a converter without a past does, and keeps the cache faithful. -/
theorem Faithful.convert (faithful : converter.Faithful texts) (distinguished : Distinguished texts)
    {css : Text} (listed : css ∈ texts) :
    (converter.convert css).1 = answer converter.tuning css ∧
      (converter.convert css).2.Faithful texts ∧
      (converter.convert css).2.tuning = converter.tuning ∧
      (converter.convert css).2.cache.limit = converter.cache.limit := by
  cases marked : Text.holds conversionMarker css with
  | true =>
    rw [converter.convert_of_marked marked, answer, if_pos marked]
    exact ⟨rfl, faithful, rfl, rfl⟩
  | false =>
    have unmarked : answer converter.tuning css = convertText converter.tuning css := by
      simp [answer, marked]
    rw [unmarked]
    cases found : converter.cache.get? (contentKey css) with
    | some value =>
      rw [faithful.hit distinguished listed found]
      simp only [Converter.convert, route, marked, found, Bool.false_eq_true, if_false]
      exact ⟨trivial, faithful, trivial, trivial⟩
    | none =>
      simp only [Converter.convert, route, marked, found, Bool.false_eq_true, if_false]
      cases result : convertText converter.tuning css with
      | error cause => exact ⟨rfl, faithful, rfl, rfl⟩
      | ok value => exact ⟨rfl, faithful.put listed result, rfl, Cache.limit_put ..⟩

/-! ### Runs -/

/-- What is asked of a converter. -/
inductive Call where
  | convert (css : Text)
  | clear

/-- The text that a call asks to convert. -/
def Call.css? : Call → Option Text
  | .convert css => some css
  | .clear => none

/-- The answers to the calls that convert, in order, and the converter afterwards. -/
def serve (converter : Converter) : List Call → List (Except ColourError Text) × Converter
  | [] => ([], converter)
  | .convert css :: calls =>
    let (outcome, next) := converter.convert css
    let (outcomes, last) := next.serve calls
    (outcome :: outcomes, last)
  | .clear :: calls => converter.clear.serve calls

/-- A run answers every call as a converter without a past does, and keeps the cache faithful. -/
theorem Faithful.serve (faithful : converter.Faithful texts) (distinguished : Distinguished texts)
    {calls : List Call} (listed : ∀ css ∈ calls.filterMap Call.css?, css ∈ texts) :
    (converter.serve calls).1 = (calls.filterMap Call.css?).map (answer converter.tuning) ∧
      (converter.serve calls).2.Faithful texts ∧
      (converter.serve calls).2.cache.limit = converter.cache.limit := by
  induction calls generalizing converter with
  | nil => exact ⟨rfl, faithful, rfl⟩
  | cons call calls ih =>
    cases call with
    | clear => exact ih (faithful_clear converter texts) listed
    | convert css =>
      simp only [List.filterMap_cons, Call.css?, List.forall_mem_cons] at listed
      obtain ⟨answered, next, tuning, limit⟩ := faithful.convert distinguished listed.1
      obtain ⟨outcomes, last, limitLast⟩ := ih next listed.2
      rw [tuning] at outcomes
      refine ⟨?_, last, limitLast.trans limit⟩
      simp only [Converter.serve, List.filterMap_cons, Call.css?, List.map_cons, answered, outcomes]

/-- The cache of a converter is not seen from outside. In a run whose texts have different keys,
every call answers as any converter without a past and with the same tuning does. At every moment of
the run the cache is within its limit and every value in it carries the marker, a marked sheet
passes through, and neither such a sheet nor a call that fails changes anything. -/
theorem serve_transparent {converter : Converter} (fresh : converter.Fresh) {calls : List Call}
    (distinguished : Distinguished (calls.filterMap Call.css?)) :
    (∀ new : Converter, new.Fresh → new.tuning = converter.tuning →
      (converter.serve calls).1
        = (calls.filterMap Call.css?).map fun css => (new.convert css).1) ∧
    ∀ before, before <+: calls →
      (converter.serve before).2.cache.size ≤ converter.cache.limit ∧
      (∀ entry ∈ (converter.serve before).2.cache.entries,
        Text.holds conversionMarker entry.2 = true) ∧
      (∀ css, Text.holds conversionMarker css = true →
        (converter.serve before).2.convert css = (.ok css, (converter.serve before).2)) ∧
      ∀ css cause, ((converter.serve before).2.convert css).1 = .error cause →
        ((converter.serve before).2.convert css).2 = (converter.serve before).2 := by
  have faithful := faithful_of_fresh fresh (calls.filterMap Call.css?)
  constructor
  · intro new newFresh same
    rw [(faithful.serve distinguished fun _ member => member).1, ← same]
    exact List.map_congr_left fun css _ => (convert_of_fresh newFresh css).symm
  · intro before starts
    have listed : ∀ css ∈ before.filterMap Call.css?, css ∈ calls.filterMap Call.css? :=
      fun css member => (starts.filterMap Call.css?).subset member
    obtain ⟨_, reached, limit⟩ := faithful.serve distinguished listed
    refine ⟨limit ▸ reached.bounded, ?_, ?_, ?_⟩
    · intro entry member
      obtain ⟨css, _, _, converted⟩ := reached.converted entry member
      obtain ⟨body, written⟩ := exists_of_convertText converted
      rw [written]
      exact Text.holds_append [] _
    · exact fun css marked => convert_of_marked _ marked
    · exact fun css cause failed => convert_of_error failed

/-- A converter that remembers one sheet. -/
def forgetful : Converter := ⟨{}, ⟨1, by decide, []⟩⟩

/-- Two sheets in turn, a clearing, and a sheet that is dark already. -/
def alternating : List Call :=
  [.convert [], .convert "@a".toList, .convert [], .clear, .convert "@a".toList,
    .convert conversionMarker]

theorem distinguished_alternating : Distinguished (alternating.filterMap Call.css?) := by
  -- The texts have different lengths, and the length is written in front of the key.
  have apart : ∀ first ∈ alternating.filterMap Call.css?,
      ∀ second ∈ alternating.filterMap Call.css?,
      first = second ∨
        (Decimal.digits first.length).head? ≠ (Decimal.digits second.length).head? := by decide
  have start : ∀ css ∈ alternating.filterMap Call.css?,
      (contentKey css).head? = (Decimal.digits css.length).head? := by decide
  intro first listed second stands same
  refine (apart first listed second stands).resolve_right fun differs => differs ?_
  rw [← start first listed, ← start second stands, same]

/-- Each sheet is converted anew when the other has taken its place, with the same answer. -/
theorem serve_alternating :
    forgetful.Fresh ∧ Distinguished (alternating.filterMap Call.css?) ∧
    (forgetful.serve alternating).1
      = [.ok (conversionMarker ++ "\n".toList), .ok (conversionMarker ++ "\n@a;".toList),
        .ok (conversionMarker ++ "\n".toList), .ok (conversionMarker ++ "\n@a;".toList),
        .ok conversionMarker] ∧
    (forgetful.serve alternating).2.cache.size ≤ 1 := by
  have fresh : forgetful.Fresh := rfl
  have whole := serve_transparent fresh distinguished_alternating
  refine ⟨fresh, distinguished_alternating, ?_, (whole.2 alternating (List.prefix_refl _)).1⟩
  have empty : Sheet.parse [] = ⟨[], []⟩ := by cbv
  have statement : Sheet.parse "@a".toList = ⟨[.statement "@a".toList], []⟩ := by cbv
  have first : answer {} [] = .ok (conversionMarker ++ "\n".toList) := by
    rw [answer, if_neg (by decide), convertText, empty]
    rfl
  have second : answer {} "@a".toList = .ok (conversionMarker ++ "\n@a;".toList) := by
    rw [answer, if_neg (by decide), convertText, statement]
    rfl
  have third : answer {} conversionMarker = .ok conversionMarker := by
    rw [answer, if_pos (by decide)]
  rw [whole.1 forgetful rfl rfl]
  simp only [convert_of_fresh fresh]
  change [answer {} [], answer {} "@a".toList, answer {} [], answer {} "@a".toList,
    answer {} conversionMarker] = _
  rw [first, second, third]

end Converter
end ThemeCss.Dark
