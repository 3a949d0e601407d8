import ThemeCss.Dark.Cache
import ThemeCss.Dark.Sheet
import ThemeCss.Digest.Sha1

/-!
# Converter

A converter remembers what it converted by the content of the sheet. A sheet that carries the marker
is dark already and passes through; a conversion that fails leaves the cache as it was.
-/
namespace ThemeCss.Dark

open Digest

structure Converter where
  tuning : Tuning Float
  cache : Cache

/-- How a sheet comes to its dark form. -/
inductive Route where
  | marked
  | hit (key value : Text)
  | miss (key : Text)

namespace Converter

/-- A converter with a cache of its own, as large as the tuning says. -/
def create (tuning : Tuning Float) : Except CacheError Converter :=
  (Cache.create tuning.cacheLimit).map fun cache => ⟨tuning, cache⟩

/-- The converter of the default tuning. -/
def standard : Converter := ⟨{}, ⟨200, by decide, []⟩⟩

def route (converter : Converter) (css : Text) : Route :=
  if Text.holds conversionMarker css then .marked
  else
    let key := contentKey css
    match converter.cache.get? key with
    | some value => .hit key value
    | none => .miss key

def convert (converter : Converter) (css : Text) : Except ColourError Text × Converter :=
  match converter.route css with
  | .marked => (.ok css, converter)
  | .hit _ value => (.ok value, converter)
  | .miss key =>
    match convertText converter.tuning css with
    -- A failure is not remembered.
    | .error cause => (.error cause, converter)
    | .ok result => (.ok result, { converter with cache := converter.cache.put key result })

def clear (converter : Converter) : Converter :=
  { converter with cache := converter.cache.clear }

end Converter
end ThemeCss.Dark
