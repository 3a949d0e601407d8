import ThemeCss.Dark.ThemeCache
import ThemeCss.Proofs.Dark.Literal
import ThemeCss.Proofs.Dark.Session

/-!
# Runs of a theme cache

A key is a theme, a colon, a length, a colon and a digest. Neither the length nor the digest has a
colon, so a key is read from its end in one way, whatever the theme is called. Hence an entry is
found for the theme and the sheet it was stored for and for no other: what a call answers is what
the first call on the same two answered, and until then it is left to the call's own converter.
-/
namespace ThemeCss

namespace Digest

theorem colon_not_mem_toDigits (base n : Nat) : ':' ∉ Nat.toDigits base n := by
  intro member
  rcases Dark.exists_of_mem_toDigitsCore member with none | ⟨k, digit⟩
  · simp at none
  · have other := @Dark.digitChar_induction (fun c => c != ':') (by decide) (by decide) k
    rw [← digit] at other
    exact absurd other (by decide)

theorem colon_not_mem_sha1 (bytes : List UInt8) : ':' ∉ sha1 bytes := by
  intro member
  obtain ⟨word, _, written⟩ := List.mem_flatMap.mp member
  rcases List.mem_append.mp written with zero | digit
  · exact absurd (List.eq_of_mem_replicate zero) (by decide)
  · exact colon_not_mem_toDigits 16 _ digit

/-- A text is read up to its last colon in one way. -/
theorem lastColon_unique {first second rest after : Text} (free : ':' ∉ rest)
    (absent : ':' ∉ after) (same : first ++ ':' :: rest = second ++ ':' :: after) :
    first = second ∧ rest = after := by
  have mirrored :
      rest.reverse ++ ':' :: first.reverse = after.reverse ++ ':' :: second.reverse := by
    simpa using congrArg List.reverse same
  obtain ⟨behind, front⟩ := Text.append_cons_unique (by simpa using free) (by simpa using absent)
    mirrored
  exact ⟨List.reverse_injective front, List.reverse_injective behind⟩

theorem contentKey_eq (text : Text) : contentKey text
    = Decimal.digits text.length ++ ':' :: sha1 (String.ofList text).toUTF8.toList := by
  simp [contentKey]

/-- Texts with one key have one length. -/
theorem digits_eq_of_contentKey_eq {first second : Text}
    (same : contentKey first = contentKey second) :
    Decimal.digits first.length = Decimal.digits second.length := by
  rw [contentKey_eq, contentKey_eq] at same
  exact (Text.append_cons_unique (colon_not_mem_toDigits _ _) (colon_not_mem_toDigits _ _) same).1

end Digest

namespace Entries

variable {Key Value : Type} [DecidableEq Key]

theorem find?_append (first second : Entries Key Value) (key : Key) :
    find? (first ++ second) key = (find? first key).or (find? second key) := by
  induction first with
  | nil => simp [find?]
  | cons entry rest ih =>
    obtain ⟨other, value⟩ := entry
    by_cases same : other = key <;> simp [find?, same, ih]

end Entries

namespace Dark.ThemeCache

open Digest

/-- The key tells themes and contents apart. -/
theorem key_eq_iff {theme other css text : Text} :
    key theme css = key other text ↔ theme = other ∧ contentKey css = contentKey text := by
  constructor
  · intro same
    have whole (theme css : Text) : key theme css = (theme ++ ':' :: Decimal.digits css.length) ++
        ':' :: sha1 (String.ofList css).toUTF8.toList := by
      simp [key, contentKey_eq]
    rw [whole, whole] at same
    -- The digest is cut off first, then the length.
    obtain ⟨front, digest⟩ := lastColon_unique (colon_not_mem_sha1 _) (colon_not_mem_sha1 _) same
    obtain ⟨name, size⟩ := lastColon_unique (colon_not_mem_toDigits 10 css.length)
      (colon_not_mem_toDigits 10 text.length) front
    have length : Decimal.digits css.length = Decimal.digits text.length := size
    exact ⟨name, by rw [contentKey_eq, contentKey_eq, digest, length]⟩
  · rintro ⟨rfl, same⟩
    rw [key, key, same]

/-! ### Calls -/

section calls

variable {State Failure : Type}

/-- What is asked of a theme cache. Every call brings a converter of its own. -/
inductive Call (State Failure : Type) where
  | fetch (theme css : Text) (convert : State → Text → Except Failure Text × State)
  | clear

/-- The sheet that a call asks for. -/
def Call.css? : Call State Failure → Option Text
  | .fetch _ css _ => some css
  | .clear => none

/-- A cache and the state that its converters share. -/
structure Session (State : Type) where
  cache : ThemeCache
  state : State

namespace Session

/-- What a call for a sheet answers and the state it leaves to the converters. -/
def reply (session : Session State) (theme css : Text)
    (convert : State → Text → Except Failure Text × State) : Except Failure Text × State :=
  let fetched := session.cache.fetch theme css convert session.state
  (fetched.1, fetched.2.2)

def perform (session : Session State) : Call State Failure → Session State
  | .fetch theme css convert =>
    let fetched := session.cache.fetch theme css convert session.state
    ⟨fetched.2.1, fetched.2.2⟩
  | .clear => { session with cache := [] }

def after (session : Session State) (calls : List (Call State Failure)) : Session State :=
  calls.foldl perform session

/-- What a call adds to the completed calls before it; clearing forgets them all. -/
def record (session : Session State) (log : Entries (Text × Text) Text) :
    Call State Failure → Entries (Text × Text) Text
  | .fetch theme css convert =>
    match (session.reply theme css convert).1 with
    | .ok value => log ++ [((theme, css), value)]
    | .error _ => log
  | .clear => []

/-- The theme, the sheet and the answer of every call that was completed since the cache was last
cleared, in order. -/
def completedFrom (session : Session State) (log : Entries (Text × Text) Text) :
    List (Call State Failure) → Entries (Text × Text) Text
  | [] => log
  | call :: calls => (session.perform call).completedFrom (session.record log call) calls

def completed (session : Session State) (calls : List (Call State Failure)) :
    Entries (Text × Text) Text := session.completedFrom [] calls

variable {session : Session State}

/-! ### One call -/

/-- A call answers what is found under its key, and turns to its converter when nothing is. -/
theorem reply_eq (session : Session State) (theme css : Text)
    (convert : State → Text → Except Failure Text × State) :
    session.reply theme css convert =
      match session.cache.find? (key theme css) with
      | some value => (.ok value, session.state)
      | none =>
        if Text.holds conversionMarker css then (.ok css, session.state)
        else convert session.state css := by
  unfold reply fetch
  cases session.cache.find? (key theme css) with
  | some value => rfl
  | none =>
    cases Text.holds conversionMarker css with
    | true => rfl
    | false =>
      obtain ⟨outcome, state⟩ := convert session.state css
      cases outcome <;> rfl

/-- A call stores what it answers, unless that was there or the call fails. -/
theorem cache_perform_fetch (session : Session State) (theme css : Text)
    (convert : State → Text → Except Failure Text × State) :
    (session.perform (.fetch theme css convert)).cache =
      match session.cache.find? (key theme css), (session.reply theme css convert).1 with
      | none, .ok value => session.cache.set (key theme css) value
      | _, _ => session.cache := by
  unfold reply fetch
  simp only [perform, fetch]
  cases session.cache.find? (key theme css) with
  | some value => rfl
  | none =>
    cases Text.holds conversionMarker css with
    | true => rfl
    | false =>
      obtain ⟨outcome, state⟩ := convert session.state css
      cases outcome <;> rfl

variable {theme css : Text} {convert : State → Text → Except Failure Text × State}

theorem cache_perform_of_error {cause : Failure}
    (failed : (session.reply theme css convert).1 = .error cause) :
    (session.perform (.fetch theme css convert)).cache = session.cache := by
  rw [cache_perform_fetch, failed]
  cases session.cache.find? (key theme css) <;> rfl

/-- A call touches no entry but its own. -/
theorem find?_perform_of_ne {asked : Text} (apart : key theme css ≠ asked) :
    (session.perform (.fetch theme css convert)).cache.find? asked
      = session.cache.find? asked := by
  rw [cache_perform_fetch]
  split
  · exact Entries.find?_set_ne _ _ apart
  · rfl

/-- What is found under the key of a call is what the call answers. -/
theorem find?_perform_self {value : Text}
    (completed : (session.reply theme css convert).1 = .ok value) :
    (session.perform (.fetch theme css convert)).cache.find? (key theme css) = some value := by
  rw [cache_perform_fetch, completed]
  cases found : session.cache.find? (key theme css) with
  | none => exact Entries.find?_set_self ..
  | some held =>
    rw [reply_eq, found] at completed
    rw [found, Except.ok.inj completed]

/-! ### Runs -/

/-- For these sheets the cache finds what the first completed call on a theme and a sheet
answered. -/
def Mirrors (texts : List Text) (session : Session State) (log : Entries (Text × Text) Text) :
    Prop :=
  ∀ theme, ∀ css ∈ texts, session.cache.find? (key theme css) = log.find? (theme, css)

variable {texts : List Text} {log : Entries (Text × Text) Text}

theorem Mirrors.perform (mirrors : session.Mirrors texts log)
    (distinguished : Converter.Distinguished texts) {call : Call State Failure}
    (listed : ∀ css ∈ call.css?, css ∈ texts) :
    (session.perform call).Mirrors texts (session.record log call) := by
  cases call with
  | clear => exact fun theme css _ => rfl
  | fetch theme css convert =>
    have own : css ∈ texts := listed css rfl
    intro other text stands
    by_cases same : (theme, css) = (other, text)
    · obtain ⟨rfl, rfl⟩ := Prod.mk.inj same
      cases outcome : (session.reply theme css convert).1 with
      | error cause =>
        simp only [record, outcome]
        rw [cache_perform_of_error outcome]
        exact mirrors theme css own
      | ok value =>
        simp only [record, outcome]
        rw [find?_perform_self outcome, Entries.find?_append, ← mirrors theme css own]
        -- A call that finds an entry answers it, so what it adds is found behind that one.
        cases found : session.cache.find? (key theme css) with
        | none => simp [Entries.find?]
        | some held =>
          rw [reply_eq, found] at outcome
          rw [Except.ok.inj outcome]
          rfl
    · have apart : key theme css ≠ key other text := by
        intro equal
        obtain ⟨rfl, keys⟩ := key_eq_iff.mp equal
        exact same (by rw [distinguished css own text stands keys])
      rw [find?_perform_of_ne apart, mirrors other text stands]
      cases outcome : (session.reply theme css convert).1 with
      | error cause => simp only [record, outcome]
      | ok value =>
        simp only [record, outcome]
        rw [Entries.find?_append]
        simp [Entries.find?, same]

theorem Mirrors.after (mirrors : session.Mirrors texts log)
    (distinguished : Converter.Distinguished texts) {calls : List (Call State Failure)}
    (listed : ∀ css ∈ calls.filterMap Call.css?, css ∈ texts) :
    (session.after calls).Mirrors texts (session.completedFrom log calls) := by
  induction calls generalizing session log with
  | nil => exact mirrors
  | cons call calls ih =>
    apply ih
    · apply mirrors.perform distinguished
      intro css asked
      apply listed
      rw [List.filterMap_cons, Option.mem_def.mp asked]
      exact List.mem_cons_self ..
    · intro css later
      apply listed
      rw [List.filterMap_cons]
      cases call.css? with
      | none => exact later
      | some first => exact List.mem_cons_of_mem _ later

/-- At every moment of a run from an empty cache whose sheets have different keys, a call answers
what the first completed call on its theme and its sheet has answered since the cache was last
cleared, and it asks its converter only when there was none and the sheet is not marked. A call that
fails leaves the cache as it was, and a call on another theme or another sheet changes nothing for
this one, whatever the converters do. -/
theorem reply_isolated {calls : List (Call State Failure)}
    (distinguished : Converter.Distinguished (calls.filterMap Call.css?)) (state : State)
    {before : List (Call State Failure)} {theme css : Text}
    {convert : State → Text → Except Failure Text × State}
    (starts : before ++ [.fetch theme css convert] <+: calls) :
    let session := (Session.mk [] state).after before
    (session.reply theme css convert =
      match ((Session.mk [] state).completed before).find? (theme, css) with
      | some value => (.ok value, session.state)
      | none =>
        if Text.holds conversionMarker css then (.ok css, session.state)
        else convert session.state css) ∧
    (∀ cause, (session.reply theme css convert).1 = .error cause →
      (session.perform (.fetch theme css convert)).cache = session.cache) ∧
    ∀ other text foreign, .fetch other text foreign ∈ calls → (other, text) ≠ (theme, css) →
      ∀ current, reply ⟨(session.perform (.fetch other text foreign)).cache, current⟩ theme css
        convert = reply ⟨session.cache, current⟩ theme css convert := by
  intro session
  have asked (other text : Text) (foreign : State → Text → Except Failure Text × State)
      (member : .fetch other text foreign ∈ calls) : text ∈ calls.filterMap Call.css? :=
    List.mem_filterMap.mpr ⟨_, member, rfl⟩
  have own : css ∈ calls.filterMap Call.css? := asked theme css convert (starts.subset (by simp))
  have fresh : (Session.mk [] state).Mirrors (calls.filterMap Call.css?) [] :=
    fun theme css _ => rfl
  have reached : session.Mirrors (calls.filterMap Call.css?)
      ((Session.mk [] state).completed before) := by
    apply fresh.after distinguished
    intro text listed
    have front := (List.prefix_append before [.fetch theme css convert]).trans starts
    exact (front.filterMap Call.css?).subset listed
  refine ⟨?_, fun cause failed => cache_perform_of_error failed, ?_⟩
  · rw [← reached theme css own, reply_eq]
  · intro other text foreign member different current
    have apart : key other text ≠ key theme css := by
      intro equal
      obtain ⟨rfl, keys⟩ := key_eq_iff.mp equal
      exact different (by rw [distinguished text (asked _ _ _ member) css own keys])
    rw [reply_eq, reply_eq, find?_perform_of_ne apart]

end Session
end calls

namespace Session

/-- A converter that counts its calls and writes a letter in front of a sheet. -/
def lettered (letter : Char) (count : Nat) (css : Text) : Except Unit Text × Nat :=
  (.ok (letter :: css), count + 1)

def failing (count : Nat) (_ : Text) : Except Unit Text × Nat := (.error (), count + 1)

/-- A call that fails, one that does not, one on another sheet, one on a theme whose name goes on
with a colon, and the second call again. -/
def visits : List (Call Nat Unit) :=
  [.fetch ['a'] ['x'] failing, .fetch ['a'] ['x'] (lettered 'p'), .fetch ['a'] [] (lettered 'q'),
    .fetch ['a', ':', '1'] ['x'] (lettered 'r'), .fetch ['a'] ['x'] (lettered 's')]

theorem distinguished_visits : Converter.Distinguished (visits.filterMap Call.css?) := by
  have apart : ∀ first ∈ visits.filterMap Call.css?, ∀ second ∈ visits.filterMap Call.css?,
      Decimal.digits first.length = Decimal.digits second.length → first = second := by decide
  intro first listed second stands same
  exact apart first listed second stands (digits_eq_of_contentKey_eq same)

/-- The last call is answered from the cache, and its converter is not asked. -/
theorem reply_isolated_visits :
    Converter.Distinguished (visits.filterMap Call.css?) ∧ visits.take 4 ++ [.fetch ['a'] ['x']
      (lettered 's')] <+: visits ∧
    ((Session.mk [] 0).after (visits.take 4)).reply ['a'] ['x'] (lettered 's')
      = (.ok ['p', 'x'], 4) := by
  have starts : visits.take 4 ++ [.fetch ['a'] ['x'] (lettered 's')] <+: visits :=
    List.prefix_refl _
  obtain ⟨answered, _, _⟩ := reply_isolated distinguished_visits 0 starts
  refine ⟨distinguished_visits, starts, answered.trans ?_⟩
  have plain : Text.holds conversionMarker ['x'] = false := by decide
  have empty : Text.holds conversionMarker [] = false := by decide
  have themes : key ['a'] ['x'] ≠ key ['a', ':', '1'] ['x'] := by
    rw [Ne, key_eq_iff]
    simp
  have sheets : key ['a'] ['x'] ≠ key ['a'] [] := by
    rw [Ne, key_eq_iff]
    rintro ⟨_, same⟩
    exact absurd (digits_eq_of_contentKey_eq same) (by decide)
  have others : key ['a'] [] ≠ key ['a', ':', '1'] ['x'] := by
    rw [Ne, key_eq_iff]
    simp
  simp [completed, completedFrom, record, reply_eq, after, perform, fetch, visits, failing,
    lettered, Entries.find?, Entries.set, plain, empty, themes, sheets, others]

end Session
end Dark.ThemeCache
end ThemeCss
