import ThemeCss.Dark.Cache
import ThemeCss.Proofs.Variables.Reach

/-!
# What a cache remembers

A run of requests inserts an entry wherever it stores a key that is not held. The cache is a window
on these insertions: it holds as many of the last ones as its limit allows, in their order. So the
age of an entry is counted in insertions and nothing else: asking for a key, or storing it again,
does not make it younger, and a key that was evicted comes back with its new value as the youngest.
-/
namespace ThemeCss

namespace Entries

variable {Key Value : Type} [DecidableEq Key] {entries : Entries Key Value}

theorem find?_eq_none_iff {key : Key} :
    entries.find? key = none ↔ key ∉ entries.map Prod.fst := by
  induction entries with
  | nil => simp [find?]
  | cons entry rest ih =>
    obtain ⟨other, value⟩ := entry
    by_cases same : other = key
    · simp [find?, same]
    · have apart : ¬ key = other := fun equal => same equal.symm
      simp [find?, same, apart, ih]

theorem holds_eq_false_iff {key : Key} :
    entries.holds key = false ↔ key ∉ entries.map Prod.fst := by
  rw [holds, Option.isSome_eq_false_iff, Option.isNone_iff_eq_none, find?_eq_none_iff]

/-- Keys that are distinct find what is listed under them. -/
theorem find?_eq_some_iff (distinct : (entries.map Prod.fst).Nodup) {key : Key} {value : Value} :
    entries.find? key = some value ↔ (key, value) ∈ entries := by
  constructor
  · exact mem_of_find?_eq_some
  · intro listed
    induction entries with
    | nil => simp at listed
    | cons entry rest ih =>
      obtain ⟨other, first⟩ := entry
      rw [List.map_cons, List.nodup_cons] at distinct
      rcases List.mem_cons.mp listed with same | later
      · obtain ⟨rfl, rfl⟩ := Prod.mk.inj same
        simp [find?]
      · have apart : other ≠ key := by
          rintro rfl
          exact distinct.1 (List.mem_map.mpr ⟨_, later, rfl⟩)
        rw [find?, if_neg apart]
        exact ih distinct.2 later

end Entries

namespace Dark.Cache

/-! ### Windows on a list -/

/-- As many of the last elements as the limit allows. -/
def window {α : Type} (limit : Nat) (log : List α) : List α := log.drop (log.length - limit)

theorem window_window_append {α : Type} (limit : Nat) (log : List α) (entry : α) :
    window limit (window limit log ++ [entry]) = window limit (log ++ [entry]) := by
  unfold window
  -- Either nothing has left the window yet, or it is full and moves on by one.
  by_cases fits : log.length ≤ limit
  · rw [Nat.sub_eq_zero_of_le fits, List.drop_zero]
  · rw [← List.drop_append_of_le_length (Nat.sub_le _ _), List.drop_drop]
    congr 1
    simp only [List.length_append, List.length_drop, List.length_singleton]
    omega

theorem length_window_le {α : Type} (limit : Nat) (log : List α) :
    (window limit log).length ≤ limit := by
  rw [window, List.length_drop]
  omega

/-- An element is in the window when fewer than the limit follow it. -/
theorem mem_window_iff {α : Type} {limit : Nat} {log : List α} {entry : α} :
    entry ∈ window limit log ↔
      ∃ front back, log = front ++ entry :: back ∧ back.length < limit := by
  constructor
  · intro member
    obtain ⟨front, back, parts⟩ := List.append_of_mem member
    refine ⟨log.take (log.length - limit) ++ front, back, ?_, ?_⟩
    · rw [List.append_assoc, ← parts, window, List.take_append_drop]
    · have bound := length_window_le limit log
      rw [parts, List.length_append, List.length_cons] at bound
      omega
  · rintro ⟨front, back, rfl, recent⟩
    have reach : (front ++ entry :: back).length - limit ≤ front.length := by
      simp only [List.length_append, List.length_cons]
      omega
    rw [window, List.drop_append_of_le_length reach]
    exact List.mem_append_right _ (List.mem_cons_self ..)

/-! ### Requests -/

/-- What is asked of a cache. -/
inductive Request where
  | put (key value : Text)
  | get (key : Text)
  | holds (key : Text)
  | size
  | clear

/-- What a cache answers. -/
inductive Reply where
  | done
  | found (value : Option Text)
  | held (present : Bool)
  | count (entries : Nat)
  deriving DecidableEq, Repr

/-- The answer to a request and the cache afterwards. -/
def serve (cache : Cache) : Request → Reply × Cache
  | .put key value => (.done, cache.put key value)
  | .get key => (.found (cache.get? key), cache)
  | .holds key => (.held (cache.holds key), cache)
  | .size => (.count cache.size, cache)
  | .clear => (.done, cache.clear)

/-- The cache after a run of requests. -/
def after (cache : Cache) (requests : List Request) : Cache :=
  requests.foldl (fun cache request => (cache.serve request).2) cache

/-- What a request adds to the insertions before it: storing a key that is not held inserts an
entry, and clearing forgets them all. -/
def record (cache : Cache) (log : Entries Text Text) : Request → Entries Text Text
  | .put key value => if cache.holds key then log else log ++ [(key, value)]
  | .clear => []
  | .get _ | .holds _ | .size => log

/-- The insertions of a run since it last cleared the cache, in order. -/
def insertionsFrom (cache : Cache) (log : Entries Text Text) : List Request → Entries Text Text
  | [] => log
  | request :: requests =>
    insertionsFrom (cache.serve request).2 (cache.record log request) requests

def insertions (cache : Cache) (requests : List Request) : Entries Text Text :=
  cache.insertionsFrom [] requests

/-! ### The window of a cache -/

/-- The entries are a window on the insertions, and no two of them have the same key. -/
structure Mirrors (cache : Cache) (log : Entries Text Text) : Prop where
  entries : cache.entries = window cache.limit log
  distinct : (cache.entries.map Prod.fst).Nodup

theorem put_of_holds {cache : Cache} {key : Text} (held : cache.holds key = true) (value : Text) :
    cache.put key value = cache := by
  rw [put, if_pos held]

theorem entries_put {cache : Cache} {key : Text} (absent : cache.holds key = false) (value : Text) :
    (cache.put key value).entries = window cache.limit (cache.entries ++ [(key, value)]) := by
  rw [put, absent]
  rfl

theorem limit_serve (cache : Cache) (request : Request) :
    (cache.serve request).2.limit = cache.limit := by
  cases request with
  | put key value =>
    change (cache.put key value).limit = cache.limit
    unfold put
    split <;> rfl
  | get | holds | size | clear => rfl

variable {cache : Cache} {log : Entries Text Text}

theorem Mirrors.serve (mirrors : cache.Mirrors log) (request : Request) :
    (cache.serve request).2.Mirrors (cache.record log request) := by
  cases request with
  | get | holds | size => exact mirrors
  | clear => exact ⟨by simp [Cache.serve, clear, record, window], by simp [Cache.serve, clear]⟩
  | put key value =>
    cases held : cache.holds key with
    | true =>
      simp only [Cache.serve, record, put_of_holds held, held, if_true]
      exact mirrors
    | false =>
      have size : (cache.put key value).limit = cache.limit := cache.limit_serve (.put key value)
      have absent := Entries.holds_eq_false_iff.mp held
      simp only [Cache.serve, record, held, Bool.false_eq_true, if_false]
      constructor
      · rw [entries_put held, mirrors.entries, window_window_append, size]
      · -- The new key is none of the others, and those that stay keep apart.
        rw [entries_put held, window, List.map_drop, List.map_append]
        apply List.Nodup.sublist (List.drop_sublist ..)
        apply List.nodup_append.mpr
        refine ⟨mirrors.distinct, by simp, ?_⟩
        rintro other listed _ new rfl
        obtain rfl : other = key := by simpa using new
        exact absent listed

/-- A run keeps the cache a window on what has been inserted. -/
theorem Mirrors.after (mirrors : cache.Mirrors log) (requests : List Request) :
    (cache.after requests).Mirrors (cache.insertionsFrom log requests) ∧
      (cache.after requests).limit = cache.limit := by
  induction requests generalizing cache log with
  | nil => exact ⟨mirrors, rfl⟩
  | cons request requests ih =>
    obtain ⟨reached, limit⟩ := ih (mirrors.serve request)
    exact ⟨reached, limit.trans (cache.limit_serve request)⟩

/-- Under distinct keys, the value of a key is that of its latest insertion, as long as fewer than
the limit have followed. -/
theorem Mirrors.get?_eq_some_iff (mirrors : cache.Mirrors log) {key value : Text} :
    cache.get? key = some value ↔ ∃ front back, log = front ++ (key, value) :: back ∧
      key ∉ back.map Prod.fst ∧ back.length < cache.limit := by
  rw [get?, Entries.find?_eq_some_iff mirrors.distinct, mirrors.entries, mem_window_iff]
  constructor
  · rintro ⟨front, back, rfl, recent⟩
    refine ⟨front, back, rfl, ?_, recent⟩
    -- What follows the insertion is in the window with it.
    have reach : (front ++ (key, value) :: back).length - cache.limit ≤ front.length := by
      simp only [List.length_append, List.length_cons]
      omega
    have distinct := mirrors.distinct
    rw [mirrors.entries, window, List.drop_append_of_le_length reach, List.map_append,
      List.map_cons] at distinct
    exact (List.nodup_cons.mp (distinct.sublist (List.sublist_append_right ..))).1
  · rintro ⟨front, back, parts, _, recent⟩
    exact ⟨front, back, parts, recent⟩

/-! ### Runs from an empty cache -/

theorem exists_create {limit : Int} (positive : 1 ≤ limit) :
    ∃ cache, create limit = .ok cache ∧ cache.entries = [] ∧ (cache.limit : Int) = limit := by
  have natural : 0 < limit.toNat := by omega
  refine ⟨⟨limit.toNat, natural, []⟩, ?_, rfl, ?_⟩
  · rw [create, dif_pos natural]
  · exact Int.toNat_of_nonneg (by omega)

theorem mirrors_of_empty (empty : cache.entries = []) : cache.Mirrors [] :=
  ⟨by simp [empty, window], by simp [empty]⟩

/-- After any run of requests to an empty cache, its entries are the last insertions since it was
cleared, in their order and as many as the limit allows. A key is held exactly when it was inserted
and fewer insertions than the limit have followed, and its value is that of its latest insertion.
Neither asking nor storing a key that is held changes anything. -/
theorem entries_after_fifo {limit : Int} (positive : 1 ≤ limit) :
    ∃ cache, create limit = .ok cache ∧ ∀ requests : List Request,
      (∀ key, (cache.after requests).holds key = true ↔
        ∃ front value back, cache.insertions requests = front ++ (key, value) :: back ∧
          (back.length : Int) < limit) ∧
      (∀ key value, (cache.after requests).get? key = some value ↔
        ∃ front back, cache.insertions requests = front ++ (key, value) :: back ∧
          key ∉ back.map Prod.fst ∧ (back.length : Int) < limit) ∧
      (cache.after requests).entries = window limit.toNat (cache.insertions requests) ∧
      ((cache.after requests).size : Int) ≤ limit ∧
      (∀ key, (cache.after requests).serve (.get key)
        = (.found ((cache.after requests).get? key), cache.after requests)) ∧
      ∀ key value, (cache.after requests).holds key = true →
        (cache.after requests).serve (.put key value) = (.done, cache.after requests) := by
  obtain ⟨cache, created, empty, size⟩ := exists_create positive
  refine ⟨cache, created, fun requests => ?_⟩
  obtain ⟨mirrors, same⟩ := (mirrors_of_empty empty).after requests
  have short (back : Entries Text Text) :
      (back.length : Int) < limit ↔ back.length < (cache.after requests).limit := by
    rw [same]
    omega
  have natural : limit.toNat = (cache.after requests).limit := by
    rw [same]
    omega
  refine ⟨fun key => ?_, fun key value => ?_, ?_, ?_, fun key => rfl, fun key value held => ?_⟩
  · rw [holds, Entries.holds, Option.isSome_iff_exists]
    simp only [short]
    constructor
    · rintro ⟨value, found⟩
      obtain ⟨front, back, parts, _, recent⟩ := mirrors.get?_eq_some_iff.mp found
      exact ⟨front, value, back, parts, recent⟩
    · rintro ⟨front, value, back, parts, recent⟩
      refine ⟨value, (Entries.find?_eq_some_iff mirrors.distinct).mpr ?_⟩
      rw [mirrors.entries]
      exact mem_window_iff.mpr ⟨front, back, parts, recent⟩
  · simp only [short]
    exact mirrors.get?_eq_some_iff
  · rw [natural]
    exact mirrors.entries
  · have bound := length_window_le (cache.after requests).limit (cache.insertions requests)
    have whole : (cache.after requests).size = _ := congrArg List.length mirrors.entries
    rw [whole]
    simp only [insertions] at bound
    omega
  · rw [serve, put_of_holds held]

/-- The first key is asked for and stored again, is evicted all the same, and comes back. -/
def returning : List Request :=
  [.put "x".toList "0".toList, .clear, .put "a".toList "1".toList, .put "b".toList "2".toList,
    .put "a".toList "3".toList, .get "a".toList, .put "c".toList "4".toList,
    .put "a".toList "5".toList]

theorem entries_after_fifo_returning :
    (1 : Int) ≤ 2 ∧ ∃ cache, create 2 = .ok cache ∧
      cache.insertions returning = [("a".toList, "1".toList), ("b".toList, "2".toList),
        ("c".toList, "4".toList), ("a".toList, "5".toList)] ∧
      (cache.after returning).entries
        = [("c".toList, "4".toList), ("a".toList, "5".toList)] ∧
      (cache.after returning).get? "a".toList = some "5".toList ∧
      (cache.after returning).serve (.put "c".toList "6".toList)
        = (.done, cache.after returning) := by
  obtain ⟨cache, created, run⟩ := entries_after_fifo (show (1 : Int) ≤ 2 by decide)
  obtain rfl : (⟨2, by decide, []⟩ : Cache) = cache := Except.ok.inj created
  obtain ⟨held, found, entries, _, _, stored⟩ := run returning
  refine ⟨by decide, _, created, by decide, entries.trans (by decide), ?_, ?_⟩
  · exact (found _ _).mpr ⟨[("a".toList, "1".toList), ("b".toList, "2".toList),
      ("c".toList, "4".toList)], [], by decide, by decide, by decide⟩
  · apply stored
    exact (held _).mpr ⟨[("a".toList, "1".toList), ("b".toList, "2".toList)], "4".toList,
      [("a".toList, "5".toList)], by decide, by decide⟩

end Dark.Cache
end ThemeCss
