import ThemeCss.Proofs.Variables.Substitution

/-!
# When a fallback stands for its reference

What a text resolves to is described here for any lookup of names, with finitely many definitions or
not, by rules that follow the calls of the text. A text need not resolve to anything, since a lookup
may lead from name to name without end, but never to two texts; with a finite set of definitions it
resolves to what the resolver computes. A fallback stands for a call without a usable definition
exactly if the fallback is not empty: an empty one counts as none, and the call stays.
-/
namespace ThemeCss.Variables

open Scan

/-- The raw value that a name may be replaced by, under any lookup. -/
def admitted? (lookup : Text → Option Text) (resolving : List Text) (name : Text) : Option Text :=
  if Sheet.Declaration.isCustomName name && !resolving.contains name then lookup name else none

theorem admitted?_find? (definitions : Definitions) (resolving : List Text) (name : Text) :
    admitted? definitions.find? resolving name = usable? definitions resolving name := by
  simp [admitted?, usable?]

/-- What a list of pieces resolves to. A call without an admitted name stays as it is written unless
it has a fallback; a call with one becomes its definition, resolved in turn, unless that still holds
a reference and there is a fallback. -/
inductive Yields (lookup : Text → Option Text) : List Text → List Piece → Text → Prop where
  | nil {resolving : List Text} : Yields lookup resolving [] []
  | text {resolving : List Text} {content out : Text} {rest : List Piece}
      (behind : Yields lookup resolving rest out) :
      Yields lookup resolving (.text content :: rest) (content ++ out)
  | unclosed {resolving : List Text} {content out : Text} {rest : List Piece}
      (behind : Yields lookup resolving rest out) :
      Yields lookup resolving (.unclosed content :: rest) (content ++ out)
  | literal {resolving : List Text} {head arguments out : Text} {rest : List Piece}
      (missing : admitted? lookup resolving (calledName arguments) = none)
      (bare : calledFallback? arguments = none) (behind : Yields lookup resolving rest out) :
      Yields lookup resolving (.call head arguments :: rest) (literalCall arguments ++ out)
  | spare {resolving : List Text} {head arguments fallback replaced out : Text}
      {rest : List Piece} (missing : admitted? lookup resolving (calledName arguments) = none)
      (given : calledFallback? arguments = some fallback)
      (instead : Yields lookup resolving (pieces fallback) replaced)
      (behind : Yields lookup resolving rest out) :
      Yields lookup resolving (.call head arguments :: rest) (replaced ++ out)
  | settled {resolving : List Text} {head arguments raw resolved out : Text} {rest : List Piece}
      (defined : admitted? lookup resolving (calledName arguments) = some raw)
      (inside : Yields lookup (calledName arguments :: resolving) (pieces raw) resolved)
      (kept : hasReference resolved = true → calledFallback? arguments = none)
      (behind : Yields lookup resolving rest out) :
      Yields lookup resolving (.call head arguments :: rest) (resolved ++ out)
  | stuck {resolving : List Text} {head arguments raw resolved fallback replaced out : Text}
      {rest : List Piece} (defined : admitted? lookup resolving (calledName arguments) = some raw)
      (inside : Yields lookup (calledName arguments :: resolving) (pieces raw) resolved)
      (refers : hasReference resolved = true) (given : calledFallback? arguments = some fallback)
      (instead : Yields lookup resolving (pieces fallback) replaced)
      (behind : Yields lookup resolving rest out) :
      Yields lookup resolving (.call head arguments :: rest) (replaced ++ out)

/-- A text resolves to another under a lookup. -/
def Resolves (lookup : Text → Option Text) (resolving : List Text) (value out : Text) : Prop :=
  Yields lookup resolving (pieces value) out

/-- Nothing but a fallback can stand for the name: it has no definition to go into, or one that
still holds a reference when it is resolved. -/
def Unsettled (lookup : Text → Option Text) (resolving : List Text) (name : Text) : Prop :=
  admitted? lookup resolving name = none ∨
    ∃ raw resolved, admitted? lookup resolving name = some raw ∧
      Resolves lookup (name :: resolving) raw resolved ∧ hasReference resolved = true

/-! ### The rules and the resolver -/

section rules

variable {lookup : Text → Option Text} {resolving : List Text}

theorem Yields.unique {parts : List Piece} {first second : Text}
    (left : Yields lookup resolving parts first) (right : Yields lookup resolving parts second) :
    first = second := by
  induction left generalizing second with
  | nil => cases right; rfl
  | text _ ih => cases right with | text behind => rw [ih behind]
  | unclosed _ ih => cases right with | unclosed behind => rw [ih behind]
  | literal missing bare _ ih =>
    cases right with
    | literal _ _ behind => rw [ih behind]
    | spare _ given => simp [bare] at given
    | settled defined => simp [missing] at defined
    | stuck defined => simp [missing] at defined
  -- Rules for one call exclude each other by what they ask of its definition or its fallback.
  | spare missing given _ _ ihInstead ih =>
    cases right with
    | literal _ bare => simp [given] at bare
    | spare _ given' instead behind =>
      obtain rfl := Option.some.inj (given.symm.trans given')
      rw [ihInstead instead, ih behind]
    | settled defined => simp [missing] at defined
    | stuck defined => simp [missing] at defined
  | settled defined _ kept _ ihInside ih =>
    cases right with
    | literal missing => simp [defined] at missing
    | spare missing => simp [defined] at missing
    | settled defined' inside _ behind =>
      obtain rfl := Option.some.inj (defined.symm.trans defined')
      rw [ihInside inside, ih behind]
    | stuck defined' inside refers given =>
      -- Both resolve the definition alike, and one says that it then still holds a reference.
      obtain rfl := Option.some.inj (defined.symm.trans defined')
      obtain rfl := ihInside inside
      simp [kept refers] at given
  | stuck defined _ refers given _ _ ihInside ihInstead ih =>
    cases right with
    | literal missing => simp [defined] at missing
    | spare missing => simp [defined] at missing
    | settled defined' inside kept =>
      obtain rfl := Option.some.inj (defined.symm.trans defined')
      obtain rfl := ihInside inside
      simp [kept refers] at given
    | stuck _ _ _ given' instead behind =>
      obtain rfl := Option.some.inj (given.symm.trans given')
      rw [ihInstead instead, ih behind]

end rules

/-- The resolver follows the rules. Going into a definition uses up a name and going into a fallback
shortens the text, as in the resolver itself. -/
theorem resolves_resolve (definitions : Definitions) (resolving : List Text) (value : Text) :
    Resolves definitions.find? resolving value (resolve definitions resolving value) := by
  rw [Resolves, resolve_eq_flatMap]
  -- Along the pieces; those inside calls are pieces of this very text, which is what ends it.
  suffices along : ∀ parts ⊆ pieces value, Yields definitions.find? resolving parts
      (parts.flatMap (resolvePiece definitions resolving)) from along _ (List.Subset.refl _)
  intro parts within
  induction parts with
  | nil => exact .nil
  | cons piece rest ih =>
    rw [List.cons_subset] at within
    have behind := ih within.2
    rw [List.flatMap_cons]
    cases piece with
    | text content => exact .text behind
    | unclosed content => exact .unclosed behind
    | call head arguments =>
      rw [resolvePiece]
      have lookup := admitted?_find? definitions resolving (calledName arguments)
      cases defined : usable? definitions resolving (calledName arguments) with
      | none =>
        rw [defined] at lookup
        cases given : calledFallback? arguments with
        | none => exact .literal lookup given behind
        | some fallback =>
          exact .spare lookup given (resolves_resolve definitions resolving fallback) behind
      | some raw =>
        rw [defined] at lookup
        have inside := resolves_resolve definitions (calledName arguments :: resolving) raw
        simp only
        split
        next refers =>
          cases given : calledFallback? arguments with
          | none => exact .settled lookup inside (fun _ => given) behind
          | some fallback =>
            exact .stuck lookup inside refers given
              (resolves_resolve definitions resolving fallback) behind
        next bare => exact .settled lookup inside (fun refers => absurd refers bare) behind
termination_by ((available definitions resolving).length, value.length)
decreasing_by
  all_goals first
    | exact Prod.Lex.left _ _ (available_length_lt defined)
    | exact Prod.Lex.right _
        (Nat.lt_of_le_of_lt (fallback_length_le given) (arguments_length_lt within.1))

theorem resolves_iff {definitions : Definitions} {resolving : List Text} {value out : Text} :
    Resolves definitions.find? resolving value out ↔ out = resolve definitions resolving value := by
  have follows := resolves_resolve definitions resolving value
  exact ⟨fun yields => yields.unique follows, fun same => same ▸ follows⟩

/-! ### The fallback of a call -/

section call

variable {lookup : Text → Option Text} {resolving : List Text} {arguments name fallback : Text}

theorem resolves_nil : Resolves lookup resolving [] [] := by
  rw [Resolves, pieces_nil]
  exact .text .nil

theorem calledFallback?_of_split (split : splitArguments arguments = (name, some fallback)) :
    calledFallback? arguments = if fallback = [] then none else some fallback := by
  rw [calledFallback?, split]
  cases fallback <;> rfl

variable (closed : Closed arguments) (balanced : Bracket.round.Balanced arguments)
  (unsettled : Unsettled lookup resolving (calledName arguments))
include closed balanced unsettled

/-- With a fallback that counts, the call and the fallback resolve to the same texts. -/
theorem resolves_literalCall_iff (given : calledFallback? arguments = some fallback) {out : Text} :
    Resolves lookup resolving (literalCall arguments) out
      ↔ Resolves lookup resolving fallback out := by
  rw [Resolves, literalCall, pieces_lone_call closed balanced, Resolves]
  constructor
  case mp =>
    intro yields
    obtain _ | ⟨behind⟩ := yields
    -- Whatever stands for the call, an empty text stands behind it.
    have alone {out : Text} (last : Yields lookup resolving [.text []] out) : out = [] :=
      last.unique (.text .nil)
    cases behind with
    | literal _ bare => simp [given] at bare
    | spare _ given' instead last =>
      obtain rfl := Option.some.inj (given.symm.trans given')
      simpa [alone last] using instead
    | settled defined inside kept =>
      -- The definition still holds a reference, so it does not stay where a fallback is given.
      rcases unsettled with missing | ⟨raw, resolved, defined', inside', refers⟩
      · simp [missing] at defined
      · obtain rfl := Option.some.inj (defined'.symm.trans defined)
        obtain rfl := inside'.unique inside
        simp [kept refers] at given
    | stuck _ _ _ given' instead last =>
      obtain rfl := Option.some.inj (given.symm.trans given')
      simpa [alone last] using instead
  case mpr =>
    intro instead
    have call : Yields lookup resolving [.text [], .call callWord arguments, .text []]
        ([] ++ (out ++ ([] ++ []))) := by
      rcases unsettled with missing | ⟨raw, resolved, defined, inside, refers⟩
      · exact .text (.spare missing given instead (.text .nil))
      · exact .text (.stuck defined inside refers given instead (.text .nil))
    simpa using call

/-- Without a fallback that counts, the call leaves a text: itself, or its definition. -/
theorem exists_resolves_literalCall (bare : calledFallback? arguments = none) :
    ∃ out, out ≠ [] ∧ Resolves lookup resolving (literalCall arguments) out := by
  simp only [Resolves, literalCall, pieces_lone_call closed balanced]
  rcases unsettled with missing | ⟨raw, resolved, defined, inside, refers⟩
  · exact ⟨_, by simp [literalCall], .text (.literal missing bare (.text .nil))⟩
  · refine ⟨_, ?_, .text (.settled defined inside (fun _ => bare) (.text .nil))⟩
    rintro empty
    obtain rfl : resolved = [] := by simpa using empty
    simp [hasReference, splitCall?] at refers

end call

/-- Where nothing else can stand for the name of a call, a fallback stands for the call exactly if
it is not empty: under every lookup, and in what the resolver computes. -/
theorem fallback_stands_iff {lookup : Text → Option Text} {resolving : List Text}
    {arguments name fallback : Text} (closed : Closed arguments)
    (balanced : Bracket.round.Balanced arguments)
    (split : splitArguments arguments = (name, some fallback))
    (unsettled : Unsettled lookup resolving name) :
    ((∀ out, Resolves lookup resolving (literalCall arguments) out
        ↔ Resolves lookup resolving fallback out) ↔ fallback ≠ []) ∧
    ∀ definitions : Definitions, definitions.find? = lookup →
      (resolve definitions resolving (literalCall arguments)
        = resolve definitions resolving fallback ↔ fallback ≠ []) := by
  have named : calledName arguments = name := by rw [calledName, split]
  rw [← named] at unsettled
  have given := calledFallback?_of_split split
  have stands : (∀ out, Resolves lookup resolving (literalCall arguments) out
      ↔ Resolves lookup resolving fallback out) ↔ fallback ≠ [] := by
    constructor
    · rintro same rfl
      -- The empty fallback resolves to the empty text, which the call never does.
      rw [if_pos rfl] at given
      obtain ⟨out, some, yields⟩ :=
        exists_resolves_literalCall closed balanced unsettled given
      exact some (Yields.unique ((same out).mp yields) resolves_nil)
    · intro some out
      rw [if_neg some] at given
      exact resolves_literalCall_iff closed balanced unsettled given
  refine ⟨stands, ?_⟩
  rintro definitions rfl
  simp only [resolves_iff] at stands
  rw [← stands]
  exact ⟨fun same out => by rw [same], fun same => (same _).mp rfl⟩

/-- A call with an empty fallback is not what that fallback resolves to. Where every name stands for
a reference to itself, a call gives way to its fallback. -/
theorem fallback_stands_circling :
    resolve [] [] "var(--x,)".toList ≠ resolve [] [] [] ∧
    ∀ out, Resolves (fun name => some (literalCall name)) [] "var(--x, 1)".toList out
      ↔ Resolves (fun name => some (literalCall name)) [] ['1'] out := by
  constructor
  · have split : splitArguments "--x,".toList = ("--x".toList, some []) := rfl
    have unsettled : Unsettled (Entries.find? []) [] "--x".toList := .inl rfl
    have stands := (fallback_stands_iff (by decide) (by decide) split unsettled).2 [] rfl
    exact fun same => stands.mp same rfl
  · have split : splitArguments "--x, 1".toList = ("--x".toList, some ['1']) := rfl
    -- The name is in progress inside its definition, which therefore keeps its reference.
    have inside : Resolves (fun name => some (literalCall name)) ["--x".toList]
        (literalCall "--x".toList) (literalCall "--x".toList) := by
      rw [Resolves, literalCall, pieces_lone_call (by decide) (by decide)]
      exact .text (.literal rfl rfl (.text .nil))
    have unsettled : Unsettled (fun name => some (literalCall name)) [] "--x".toList :=
      .inr ⟨_, _, rfl, inside, by decide⟩
    exact (fallback_stands_iff (by decide) (by decide) split unsettled).1.mpr (by decide)

end ThemeCss.Variables
