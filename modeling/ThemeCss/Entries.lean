import ThemeCss.Text.Basic

/-!
# Entries in insertion order

Definitions and caches are lists of pairs with distinct keys. A new key goes to the end; a key
that is there keeps its place and takes the new value.
-/
namespace ThemeCss

abbrev Entries (Key Value : Type) := List (Key × Value)

namespace Entries

variable {Key Value : Type} [DecidableEq Key]

def find? (entries : Entries Key Value) (key : Key) : Option Value :=
  match entries with
  | [] => none
  | (other, value) :: rest => if other = key then some value else find? rest key

def holds (entries : Entries Key Value) (key : Key) : Bool := (entries.find? key).isSome

def set (entries : Entries Key Value) (key : Key) (value : Value) : Entries Key Value :=
  match entries with
  | [] => [(key, value)]
  | (other, old) :: rest =>
    if other = key then (other, value) :: rest else (other, old) :: set rest key value

def ofList (pairs : List (Key × Value)) : Entries Key Value :=
  pairs.foldl (fun entries (key, value) => entries.set key value) []

/-- All entries of both, the later ones winning. -/
def merge (first second : Entries Key Value) : Entries Key Value :=
  second.foldl (fun entries (key, value) => entries.set key value) first

theorem find?_set_self (entries : Entries Key Value) (key : Key) (value : Value) :
    (entries.set key value).find? key = some value := by
  induction entries with
  | nil => simp [set, find?]
  | cons entry rest ih =>
    obtain ⟨other, old⟩ := entry
    by_cases same : other = key <;> simp [set, find?, same, ih]

theorem find?_set_ne (entries : Entries Key Value) {key asked : Key} (value : Value)
    (different : key ≠ asked) : (entries.set key value).find? asked = entries.find? asked := by
  induction entries with
  | nil => simp [set, find?, different]
  | cons entry rest ih =>
    obtain ⟨other, old⟩ := entry
    -- The entry that changes is not the one that is asked for.
    by_cases same : other = key
    · subst same
      simp [set, find?, different]
    · simp [set, find?, same, ih]

theorem mem_of_find?_eq_some {entries : Entries Key Value} {key : Key} {value : Value}
    (found : entries.find? key = some value) : (key, value) ∈ entries := by
  induction entries with
  | nil => simp [find?] at found
  | cons entry rest ih =>
    obtain ⟨other, old⟩ := entry
    simp only [find?] at found
    split at found
    next same => simp_all
    next => exact List.mem_cons_of_mem _ (ih found)

end Entries

/-- Names of custom properties with the text each stands for. -/
abbrev Definitions := Entries Text Text

end ThemeCss
