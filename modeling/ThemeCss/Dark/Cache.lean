import ThemeCss.Entries

/-!
# Conversion cache

A bounded map from keys to converted sheets. The first value stored for a key wins and stays in its
place; when a new entry exceeds the limit, the oldest ones leave.
-/
namespace ThemeCss.Dark

structure Cache where
  limit : Nat
  limit_pos : 0 < limit
  entries : Entries Text Text

inductive CacheError where
  | limitBelowOne
  deriving DecidableEq, Repr

def CacheError.message : CacheError → String
  | .limitBelowOne => "ConversionCache limit must be at least 1"

namespace Cache

/-- An empty cache. -/
def create (limit : Int) : Except CacheError Cache :=
  if positive : 0 < limit.toNat then .ok ⟨limit.toNat, positive, []⟩ else .error .limitBelowOne

def get? (cache : Cache) (key : Text) : Option Text := cache.entries.find? key

def holds (cache : Cache) (key : Text) : Bool := cache.entries.holds key

def size (cache : Cache) : Nat := cache.entries.length

def put (cache : Cache) (key value : Text) : Cache :=
  if cache.holds key then cache
  else
    -- The new entry goes last, and what exceeds the limit leaves from the front.
    let entries := cache.entries ++ [(key, value)]
    { cache with entries := entries.drop (entries.length - cache.limit) }

def clear (cache : Cache) : Cache := { cache with entries := [] }

/-- Says how many entries there are and how many there may be. -/
def describe (cache : Cache) : String :=
  "ConversionCache(entries=" ++ toString cache.size ++ ", limit=" ++ toString cache.limit ++ ")"

end Cache
end ThemeCss.Dark
