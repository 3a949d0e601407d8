import ThemeCss.Variables.Resolve

/-!
# What a text refers to

A text refers to the names it calls, to those its fallbacks call, and through the definition of a
name it calls to whatever that refers to. Resolving looks nothing else up, so definitions that agree
on these names resolve the text alike.
-/
namespace ThemeCss

namespace Entries

variable {Key Value : Type} [DecidableEq Key]

theorem find?_merge_of_absent {first second : Entries Key Value} {key : Key}
    (absent : key ∉ second.map Prod.fst) : (merge first second).find? key = first.find? key := by
  induction second generalizing first with
  | nil => rfl
  | cons entry rest ih =>
    obtain ⟨other, value⟩ := entry
    simp only [List.map_cons, List.mem_cons, not_or] at absent
    change (merge (first.set other value) rest).find? key = _
    rw [ih absent.2, find?_set_ne first value (Ne.symm absent.1)]

theorem exists_find?_merge {first second : Entries Key Value} {key : Key}
    (listed : key ∈ second.map Prod.fst) :
    ∃ value, (merge first second).find? key = some value := by
  induction second generalizing first with
  | nil => simp at listed
  | cons entry rest ih =>
    obtain ⟨other, value⟩ := entry
    change ∃ found, (merge (first.set other value) rest).find? key = some found
    by_cases later : key ∈ rest.map Prod.fst
    · exact ih later
    · have here : key = other := by simpa [later] using listed
      exact ⟨value, by rw [find?_merge_of_absent later, here, find?_set_self]⟩

theorem mem_keys_set {entries : Entries Key Value} {key asked : Key} {value : Value} :
    asked ∈ (entries.set key value).map Prod.fst ↔ asked = key ∨ asked ∈ entries.map Prod.fst := by
  induction entries with
  | nil => simp [set]
  | cons entry rest ih =>
    obtain ⟨other, old⟩ := entry
    by_cases same : other = key
    · simp [set, same]
    · simp only [set, if_neg same, List.map_cons, List.mem_cons, ih]
      exact or_left_comm

theorem mem_keys_merge {first second : Entries Key Value} {key : Key} :
    key ∈ (merge first second).map Prod.fst
      ↔ key ∈ first.map Prod.fst ∨ key ∈ second.map Prod.fst := by
  induction second generalizing first with
  | nil => simp [merge]
  | cons entry rest ih =>
    obtain ⟨other, value⟩ := entry
    change key ∈ (merge (first.set other value) rest).map Prod.fst ↔ _
    rw [ih, mem_keys_set, List.map_cons, List.mem_cons, or_assoc, or_left_comm]

/-- The keys are those of the pairs. -/
theorem mem_keys_ofList {pairs : List (Key × Value)} {key : Key} :
    key ∈ (ofList pairs).map Prod.fst ↔ key ∈ pairs.map Prod.fst := by
  change key ∈ (merge [] pairs).map Prod.fst ↔ _
  rw [mem_keys_merge, List.map_nil]
  exact or_iff_right List.not_mem_nil

theorem set_of_absent {entries : Entries Key Value} {key : Key} {value : Value}
    (absent : key ∉ entries.map Prod.fst) : entries.set key value = entries ++ [(key, value)] := by
  induction entries with
  | nil => rfl
  | cons entry rest ih =>
    obtain ⟨other, old⟩ := entry
    simp only [List.map_cons, List.mem_cons, not_or] at absent
    rw [set, if_neg (Ne.symm absent.1), ih absent.2]
    rfl

theorem nodup_keys_set {entries : Entries Key Value} {key : Key} {value : Value}
    (distinct : (entries.map Prod.fst).Nodup) : ((entries.set key value).map Prod.fst).Nodup := by
  induction entries with
  | nil => simp [set]
  | cons entry rest ih =>
    obtain ⟨other, old⟩ := entry
    rw [List.map_cons, List.nodup_cons] at distinct
    by_cases same : other = key
    · rw [set, if_pos same]
      exact List.nodup_cons.mpr distinct
    · rw [set, if_neg same, List.map_cons, List.nodup_cons, mem_keys_set, not_or]
      exact ⟨⟨same, distinct.1⟩, ih distinct.2⟩

theorem nodup_keys_ofList (pairs : List (Key × Value)) :
    ((ofList pairs).map Prod.fst).Nodup := by
  -- Generalised over the entries gathered so far.
  have step : ∀ entries : Entries Key Value, (entries.map Prod.fst).Nodup →
      ((merge entries pairs).map Prod.fst).Nodup := by
    induction pairs with
    | nil => exact fun _ distinct => distinct
    | cons pair rest ih => exact fun entries distinct => ih _ (nodup_keys_set distinct)
  exact step [] List.nodup_nil

/-- Merging in what has other keys, each of them once, appends it. -/
theorem merge_of_nodup {first second : Entries Key Value}
    (distinct : ((first ++ second).map Prod.fst).Nodup) : merge first second = first ++ second := by
  induction second generalizing first with
  | nil => exact (List.append_nil first).symm
  | cons entry rest ih =>
    obtain ⟨key, value⟩ := entry
    rw [List.append_cons] at distinct ⊢
    have absent : key ∉ first.map Prod.fst := by
      rw [List.map_append, List.map_append] at distinct
      have start := (List.nodup_append.mp distinct).1
      exact fun member => (List.nodup_append.mp start).2.2 key member key (by simp) rfl
    change merge (first.set key value) rest = _
    rw [set_of_absent absent, ih distinct]

theorem mem_set {entries : Entries Key Value} {key : Key} {value : Value} {entry : Key × Value}
    (member : entry ∈ entries.set key value) : entry = (key, value) ∨ entry ∈ entries := by
  induction entries with
  | nil => simpa [set] using member
  | cons first rest ih =>
    obtain ⟨other, old⟩ := first
    rw [set] at member
    split at member
    next same =>
      rcases List.mem_cons.mp member with rfl | later
      · exact .inl (by rw [same])
      · exact .inr (List.mem_cons_of_mem _ later)
    next =>
      rcases List.mem_cons.mp member with rfl | later
      · exact .inr (List.mem_cons_self ..)
      · exact (ih later).imp_right (List.mem_cons_of_mem _)

/-- A value that is put in the place of another is found under the other's key. -/
theorem find?_map {Other : Type} (change : Key → Value → Other) (entries : Entries Key Value)
    (key : Key) :
    Entries.find? (entries.map fun (name, value) => (name, change name value)) key
      = (entries.find? key).map (change key) := by
  induction entries with
  | nil => rfl
  | cons entry rest ih =>
    obtain ⟨other, value⟩ := entry
    simp only [List.map_cons, find?]
    split
    next same => rw [same, Option.map_some]
    next => exact ih

/-- Whatever is merged was there before or is merged in. -/
theorem mem_merge {first second : Entries Key Value} {entry : Key × Value}
    (member : entry ∈ merge first second) : entry ∈ first ∨ entry ∈ second := by
  induction second generalizing first with
  | nil => exact .inl member
  | cons pair rest ih =>
    rcases ih member with early | late
    · rcases mem_set early with same | held
      · exact .inr (List.mem_cons.mpr (.inl same))
      · exact .inl held
    · exact .inr (List.mem_cons_of_mem _ late)

theorem mem_of_mem_ofList {pairs : List (Key × Value)} {entry : Key × Value}
    (member : entry ∈ ofList pairs) : entry ∈ pairs :=
  (mem_merge member).resolve_left List.not_mem_nil

end Entries

namespace Variables

open Scan

theorem pieces_of_referenceFree {text : Text} (free : hasReference text = false) :
    pieces text = [.text text] := by
  rw [hasReference, Option.isSome_eq_false_iff, Option.isNone_iff_eq_none] at free
  exact pieces_of_none free

theorem resolve_of_referenceFree {text : Text} (free : hasReference text = false)
    (definitions : Definitions) (resolving : List Text) :
    resolve definitions resolving text = text := by
  simp [resolve_eq_flatMap, pieces_of_referenceFree free, resolvePiece]

/-- The text calls the name, in a fallback or through definitions too. -/
inductive Refers (definitions : Definitions) : Text → Text → Prop where
  | called {value head arguments : Text} : .call head arguments ∈ pieces value →
      Refers definitions value (calledName arguments)
  | fallback {value head arguments fallback name : Text} : .call head arguments ∈ pieces value →
      calledFallback? arguments = some fallback → Refers definitions fallback name →
        Refers definitions value name
  | definition {value head arguments raw name : Text} : .call head arguments ∈ pieces value →
      definitions.find? (calledName arguments) = some raw → Refers definitions raw name →
        Refers definitions value name

theorem find?_of_usable? {definitions : Definitions} {resolving : List Text} {name raw : Text}
    (found : usable? definitions resolving name = some raw) :
    definitions.find? name = some raw := by
  simp only [usable?] at found
  split at found
  · exact found
  · simp at found

/-- Definitions that agree on what a text refers to resolve it alike. -/
theorem resolve_congr {first second : Definitions} {value : Text} (resolving : List Text)
    (same : ∀ name, Refers first value name → first.find? name = second.find? name) :
    resolve first resolving value = resolve second resolving value := by
  rw [resolve_eq_flatMap, resolve_eq_flatMap, List.flatMap_def, List.flatMap_def]
  congr 1
  apply List.map_congr_left
  intro piece member
  cases piece with
  | text => rfl
  | unclosed => rfl
  | call head arguments =>
    have here := same _ (.called member)
    have usable : usable? second resolving (calledName arguments)
        = usable? first resolving (calledName arguments) := by simp only [usable?, here]
    have alternative : ∀ fallback, calledFallback? arguments = some fallback →
        resolve first resolving fallback = resolve second resolving fallback :=
      fun fallback given =>
        resolve_congr resolving fun name refers => same name (.fallback member given refers)
    simp only [resolvePiece, usable]
    cases found : usable? first resolving (calledName arguments) with
    | none =>
      cases given : calledFallback? arguments with
      | none => rfl
      | some fallback => exact alternative fallback given
    | some raw =>
      have inner : resolve first (calledName arguments :: resolving) raw
          = resolve second (calledName arguments :: resolving) raw :=
        resolve_congr _ fun name refers =>
          same name (.definition member (find?_of_usable? found) refers)
      simp only [inner]
      cases given : calledFallback? arguments with
      | none => rfl
      | some fallback => simp only [alternative fallback given]
termination_by ((available first resolving).length, value.length)
decreasing_by
  · exact Prod.Lex.right _
      (Nat.lt_of_le_of_lt (fallback_length_le given) (arguments_length_lt member))
  · exact Prod.Lex.left _ _ (available_length_lt found)

end Variables
end ThemeCss
