import ThemeCss.Digest.Sha1
import ThemeCss.Entries
import ThemeCss.Theme.Tuning

/-!
# Theme cache

Dark sheets kept per theme and content. A miss asks a converter that may keep a state of its own and
may fail; a failure stores nothing. A sheet that carries the marker is stored as it is.
-/
namespace ThemeCss.Dark

abbrev ThemeCache := Entries Text Text

namespace ThemeCache

def key (theme css : Text) : Text := theme ++ [':'] ++ Digest.contentKey css

variable {State Failure : Type}

/-- The dark form for a theme, with the cache and the converter's state afterwards. The converter is
called with its own state alone: it neither reads nor writes the cache, so no call of it can nest
another call of the cache. -/
def fetch (cache : ThemeCache) (theme css : Text)
    (convert : State → Text → Except Failure Text × State) (state : State) :
    Except Failure Text × ThemeCache × State :=
  match Entries.find? cache (key theme css) with
  | some value => (.ok value, cache, state)
  | none =>
    if Text.holds conversionMarker css then
      (.ok css, Entries.set cache (key theme css) css, state)
    else
      match convert state css with
      | (.error cause, state) => (.error cause, cache, state)
      | (.ok value, state) => (.ok value, Entries.set cache (key theme css) value, state)

end ThemeCache
end ThemeCss.Dark
