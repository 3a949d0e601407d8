import ThemeCss.Main
import ThemeCss.Dark.ThemeCache
import ThemeCss.Colour.Exact
import ThemeCss.Proofs.Pipeline.Marker
import ThemeCss.Proofs.Variables.Substitution
import ThemeCss.Proofs.Variables.Strip
import ThemeCss.Proofs.Variables.Expansion
import ThemeCss.Proofs.Variables.Repeated
import ThemeCss.Proofs.Dark.Sheet
import ThemeCss.Proofs.Dark.Session
import ThemeCss.Proofs.Sheet.Inside
import ThemeCss.Proofs.Inline.Scope
import ThemeCss.Proofs.Sheet.Loose
import ThemeCss.Proofs.Inline.Agreement
import ThemeCss.Proofs.Theme.Vivid
import ThemeCss.Proofs.Theme.Surface
import ThemeCss.Proofs.Theme.Readable
import ThemeCss.Proofs.Dark.Glare
import ThemeCss.Proofs.Inline.Margin
import ThemeCss.Proofs.Lint.Braces
import ThemeCss.Proofs.Lint.Leftover
import ThemeCss.Proofs.Inline.Staged
import ThemeCss.Proofs.Dark.Eviction
import ThemeCss.Proofs.Dark.ThemeCache
import ThemeCss.Proofs.Inline.Reported
import ThemeCss.Proofs.Dark.Replaced
import ThemeCss.Proofs.Variables.Descent
import ThemeCss.Proofs.Scan.Quoted
import ThemeCss.Proofs.Sheet.Statement
import ThemeCss.Proofs.Inline.Rewritten
import ThemeCss.Proofs.Variables.Beforehand
import ThemeCss.Proofs.Lint.Nesting
import ThemeCss.Proofs.Sheet.Lasting
import ThemeCss.Proofs.Inline.Reread
import ThemeCss.Proofs.Variables.Fallback
import ThemeCss.Proofs.Dark.Reference
import ThemeCss.Proofs.Dark.Leading
import ThemeCss.Proofs.Lint.Findings
import ThemeCss.Proofs.Colour.Inverse
import ThemeCss.Proofs.Scan.Partner
import ThemeCss.Proofs.Lint.Visits
