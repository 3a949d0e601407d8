import ThemeCss.Inline.Margin

/-!
# Margins by side

A declaration that sets a side amounts to a longhand of that side. The rewriting keeps one slot for
each side, and whatever sets the side goes into it, so by position alone the last longhand of a side
is the one that is written. A renderer asks for importance first: it sees the same margin on a side
unless an important declaration of the side has one without a mark behind it.
-/
namespace ThemeCss.Inline

open Sheet

namespace Side

theorem mem_all (side : Side) : side ∈ all := by cases side <;> decide

theorem property_inj {side other : Side} : side.property = other.property ↔ side = other := by
  cases side <;> cases other <;> decide

theorem ofProperty?_property (side : Side) : ofProperty? side.property = some side := by
  cases side <;> decide

theorem ofProperty?_eq_some {property : Text} {side : Side}
    (found : ofProperty? property = some side) : property = side.property := by
  have named := List.find?_some found
  exact (beq_iff_eq.mp named).symm

end Side

/-- A shorthand that can be spread over the sides, if it has components for them. -/
def IsShorthand (declaration : Declaration) : Prop :=
  declaration.property = "margin".toList ∧ ¬ Scan.hasReference declaration.value

instance (declaration : Declaration) : Decidable (IsShorthand declaration) :=
  inferInstanceAs (Decidable (_ ∧ _))

/-- The longhand of a side that a declaration amounts to, if it sets the side. -/
def longhand? (side : Side) (declaration : Declaration) : Option Declaration :=
  let value :=
    if IsShorthand declaration then Entries.find? (spread declaration.value) side
    else if declaration.property = side.property then some declaration.value
    else none
  value.map fun value => { property := side.property, value, important := declaration.important }

/-- Everything that sets a side, in order. -/
def longhands (side : Side) (declarations : List Declaration) : List Declaration :=
  declarations.filterMap (longhand? side)

/-- What a renderer takes for a side: the last important longhand, or else the last one. -/
def winner (side : Side) (declarations : List Declaration) : Option Declaration :=
  (((longhands side declarations).filter (·.important)).getLast?).or
    (longhands side declarations).getLast?

def setsNothing (declaration : Declaration) : Bool :=
  Side.all.all fun side => (longhand? side declaration).isNone

theorem setsNothing_iff {declaration : Declaration} :
    setsNothing declaration = true ↔ ∀ side, longhand? side declaration = none := by
  simp [setsNothing, List.all_eq_true, Side.mem_all]

/-! ### Spreading a shorthand -/

/-- One to four components give every side a value, any other number none. -/
theorem spread_cases (value : Text) :
    spread value = [] ∧ ¬ (1 ≤ (Scan.components value).length ∧
        (Scan.components value).length ≤ 4) ∨
      (1 ≤ (Scan.components value).length ∧ (Scan.components value).length ≤ 4) ∧
        ∃ top right bottom left,
          spread value = [(.top, top), (.right, right), (.bottom, bottom), (.left, left)] := by
  unfold spread
  split
  next parts => exact .inr ⟨by simp [parts], _, _, _, _, rfl⟩
  next parts => exact .inr ⟨by simp [parts], _, _, _, _, rfl⟩
  next parts => exact .inr ⟨by simp [parts], _, _, _, _, rfl⟩
  next parts => exact .inr ⟨by simp [parts], _, _, _, _, rfl⟩
  next none one two three =>
    refine .inl ⟨rfl, ?_⟩
    rintro ⟨some, few⟩
    match parts : Scan.components value with
    | [] => simp [parts] at some
    | [_] => exact none _ parts
    | [_, _] => exact one _ _ parts
    | [_, _, _] => exact two _ _ _ parts
    | [_, _, _, _] => exact three _ _ _ _ parts
    | _ :: _ :: _ :: _ :: _ :: _ =>
      simp only [parts, List.length_cons] at few
      omega

/-- A side has the value that the shorthand spreads to it, or else keeps what it had. -/
theorem find?_merge_spread (sides : Entries Side Declaration) (value : Text) (side : Side)
    (longhand : Side × Text → Declaration) :
    Entries.find? (Entries.merge sides ((spread value).map fun entry =>
        (entry.1, longhand entry))) side
      = ((Entries.find? (spread value) side).map fun part => longhand (side, part)).or
          (Entries.find? sides side) := by
  obtain ⟨empty, _⟩ | ⟨_, top, right, bottom, left, parts⟩ := spread_cases value
  · simp [empty, Entries.merge, Entries.find?]
  · cases side <;>
      simp [parts, Entries.merge, Entries.find?, Entries.find?_set_self, Entries.find?_set_ne]

/-- What a shorthand gives to a side is one of its components. -/
theorem mem_components_of_mem_spread (value : Text) :
    ∀ entry ∈ spread value, entry.2 ∈ Scan.components value := by
  unfold spread
  split
  next parts => simp [parts]
  next parts => simp [parts]
  next parts => simp [parts]
  next parts => simp [parts]
  next => simp

/-! ### What a declaration sets -/

theorem longhand?_of_isShorthand {declaration : Declaration} (shorthand : IsShorthand declaration)
    (side : Side) :
    longhand? side declaration = (Entries.find? (spread declaration.value) side).map fun value =>
      { property := side.property, value, important := declaration.important } := by
  simp [longhand?, shorthand]

theorem not_isShorthand_of_property {declaration : Declaration} {side : Side}
    (named : declaration.property = side.property) : ¬ IsShorthand declaration := by
  rintro ⟨plain, _⟩
  rw [named] at plain
  revert plain
  cases side <;> decide

/-- A longhand sets its own side to itself and no other side. -/
theorem longhand?_of_property {declaration : Declaration} {side : Side}
    (named : declaration.property = side.property) (other : Side) :
    longhand? other declaration = if other = side then some declaration else none := by
  have swap : declaration.property = other.property ↔ other = side := by
    rw [named, Side.property_inj, eq_comm]
  rw [longhand?, if_neg (not_isShorthand_of_property named)]
  by_cases same : other = side
  · rw [if_pos (swap.mpr same), if_pos same, same, ← named]
    rfl
  · rw [if_neg (mt swap.mp same), if_neg same]
    rfl

theorem not_setsNothing {declaration : Declaration} {side : Side}
    (named : declaration.property = side.property) : ¬ setsNothing declaration = true := by
  rw [setsNothing_iff]
  intro none
  have own := longhand?_of_property named side
  rw [none, if_pos rfl] at own
  cases own

theorem longhand?_of_other {declaration : Declaration} (shorthand : ¬ IsShorthand declaration)
    (unnamed : Side.ofProperty? declaration.property = none) (side : Side) :
    longhand? side declaration = none := by
  have other : declaration.property ≠ side.property := by
    intro named
    rw [named, Side.ofProperty?_property] at unnamed
    cases unnamed
  rw [longhand?, if_neg shorthand, if_neg other]
  rfl

theorem property_of_longhand? {declaration longhand : Declaration} {side : Side}
    (sets : longhand? side declaration = some longhand) : longhand.property = side.property := by
  obtain ⟨value, _, rfl⟩ := Option.map_eq_some_iff.mp sets
  rfl

/-! ### The slots -/

/-- One declaration fills the slots of the sides that it sets. -/
theorem find?_add (margins : Margins) (declaration : Declaration) (side : Side) :
    Entries.find? (margins.add declaration).sides side
      = (longhand? side declaration).or (Entries.find? margins.sides side) := by
  rw [Margins.add]
  split
  next shorthand =>
    rw [longhand?_of_isShorthand shorthand]
    exact find?_merge_spread margins.sides declaration.value side fun entry =>
      { property := entry.1.property, value := entry.2, important := declaration.important }
  next shorthand =>
    split
    next named found =>
      rw [longhand?_of_property (Side.ofProperty?_eq_some found)]
      split
      next same => rw [same, Entries.find?_set_self, Option.some_or]
      next different =>
        rw [Entries.find?_set_ne _ _ (Ne.symm different), Option.none_or]
    next unnamed => rw [longhand?_of_other shorthand unnamed, Option.none_or]

/-- Declarations that set no side stay, but for shorthands that have no values for the sides. -/
theorem others_add (margins : Margins) (declaration : Declaration) :
    (margins.add declaration).others = margins.others ++
      [declaration].filter fun other => setsNothing other && !decide (IsShorthand other) := by
  rw [Margins.add]
  split
  next shorthand =>
    have spreads : IsShorthand declaration := shorthand
    simp [spreads]
  next shorthand =>
    have plain : ¬ IsShorthand declaration := shorthand
    split
    next side found =>
      simp [not_setsNothing (Side.ofProperty?_eq_some found)]
    next unnamed =>
      have sets : setsNothing declaration = true :=
        setsNothing_iff.mpr (longhand?_of_other plain unnamed)
      simp [sets, plain]

theorem longhands_cons (side : Side) (declaration : Declaration) (rest : List Declaration) :
    longhands side (declaration :: rest)
      = (longhand? side declaration).toList ++ longhands side rest := by
  rw [longhands, List.filterMap_cons]
  cases longhand? side declaration <;> rfl

/-- Behind all declarations each slot holds the last longhand of its side. -/
theorem find?_foldl_add (declarations : List Declaration) (margins : Margins) (side : Side) :
    Entries.find? (declarations.foldl Margins.add margins).sides side
      = (longhands side declarations).getLast?.or (Entries.find? margins.sides side) := by
  induction declarations generalizing margins with
  | nil => rfl
  | cons declaration rest ih =>
    have here : (longhand? side declaration).toList.getLast? = longhand? side declaration := by
      cases longhand? side declaration <;> rfl
    rw [List.foldl_cons, ih, find?_add, longhands_cons, List.getLast?_append, here,
      Option.or_assoc]

theorem others_foldl_add (declarations : List Declaration) (margins : Margins) :
    (declarations.foldl Margins.add margins).others = margins.others ++
      declarations.filter fun other => setsNothing other && !decide (IsShorthand other) := by
  induction declarations generalizing margins with
  | nil => simp
  | cons declaration rest ih =>
    rw [List.foldl_cons, ih, others_add, List.append_assoc, ← List.filter_append]
    rfl

/-- The rewriting writes the last longhand of each side behind the declarations that stay. -/
theorem eq_of_rewriteMargins? {declarations rewritten : List Declaration}
    (rewrites : rewriteMargins? declarations = some rewritten) :
    rewritten = (declarations.filter fun other => setsNothing other && !decide (IsShorthand other))
      ++ Side.all.filterMap fun side => (longhands side declarations).getLast? := by
  simp only [rewriteMargins?, find?_foldl_add, others_foldl_add, Entries.find?, Option.or_none,
    List.nil_append] at rewrites
  split at rewrites
  · cases rewrites
  · exact (Option.some.inj rewrites).symm

theorem sides_add_of_setsNothing {margins : Margins} {declaration : Declaration}
    (silent : setsNothing declaration = true) :
    (margins.add declaration).sides = margins.sides := by
  rw [Margins.add]
  split
  next shorthand =>
    have spreads : IsShorthand declaration := shorthand
    obtain ⟨empty, _⟩ | ⟨_, top, right, bottom, left, parts⟩ := spread_cases declaration.value
    · simp [empty, Entries.merge]
    · have none := setsNothing_iff.mp silent .top
      rw [longhand?_of_isShorthand spreads, parts] at none
      simp [Entries.find?] at none
  next =>
    split
    next side found => exact absurd silent (not_setsNothing (Side.ofProperty?_eq_some found))
    next => rfl

/-- Nothing is rewritten where no declaration sets a side. -/
theorem rewriteMargins?_eq_none_iff {declarations : List Declaration} :
    rewriteMargins? declarations = none ↔
      ∀ declaration ∈ declarations, setsNothing declaration = true := by
  have slots := find?_foldl_add declarations ⟨[], []⟩
  simp only [rewriteMargins?]
  constructor
  · intro none declaration member
    have empty : (declarations.foldl Margins.add ⟨[], []⟩).sides = [] := by simpa using none
    rw [setsNothing_iff]
    intro side
    have last := slots side
    simp only [empty, Entries.find?, Option.or_none] at last
    exact List.filterMap_eq_nil_iff.mp (List.getLast?_eq_none_iff.mp last.symm) declaration member
  · intro silent
    have kept (margins : Margins) :
        (declarations.foldl Margins.add margins).sides = margins.sides := by
      clear slots
      induction declarations generalizing margins with
      | nil => rfl
      | cons declaration rest ih =>
        rw [List.forall_mem_cons] at silent
        rw [List.foldl_cons, ih silent.2, sides_add_of_setsNothing silent.1]
    rw [kept]
    rfl

theorem property_of_mem_longhands {declarations : List Declaration} {side : Side}
    {longhand : Declaration} (member : longhand ∈ longhands side declarations) :
    longhand.property = side.property := by
  obtain ⟨declaration, _, sets⟩ := List.mem_filterMap.mp member
  exact property_of_longhand? sets

/-- Behind the rewriting a side is set once, by what set it last. -/
theorem longhands_rewriteMargins? {declarations rewritten : List Declaration}
    (rewrites : rewriteMargins? declarations = some rewritten) (side : Side) :
    longhands side rewritten = (longhands side declarations).getLast?.toList := by
  have silent : (declarations.filter fun other =>
      setsNothing other && !decide (IsShorthand other)).filterMap (longhand? side) = [] := by
    rw [List.filterMap_eq_nil_iff]
    intro other kept
    have sets := (Bool.and_eq_true_iff.mp (List.mem_filter.mp kept).2).1
    exact setsNothing_iff.mp sets side
  -- A longhand of another side does not set this one.
  have own (other : Side) : ((longhands other declarations).getLast?).bind (longhand? side)
      = if side = other then (longhands other declarations).getLast? else none := by
    cases last : (longhands other declarations).getLast? with
    | none => split <;> rfl
    | some longhand =>
      have named := property_of_mem_longhands (List.mem_of_getLast? last)
      exact longhand?_of_property named side
  rw [eq_of_rewriteMargins? rewrites, longhands, List.filterMap_append, silent, List.nil_append,
    List.filterMap_filterMap]
  simp only [own]
  cases side <;> simp [Side.all, List.filterMap_cons] <;> rfl

theorem winner_of_toList {side : Side} {declarations : List Declaration}
    {last : Option Declaration} (set : longhands side declarations = last.toList) :
    winner side declarations = last := by
  rw [winner, set]
  cases last with
  | none => rfl
  | some longhand => cases important : longhand.important <;> simp [important]

theorem isSome_winner (side : Side) (declarations : List Declaration) :
    (winner side declarations).isSome = (longhands side declarations).getLast?.isSome := by
  rw [winner]
  cases chosen : ((longhands side declarations).filter (·.important)).getLast? with
  | none => rw [Option.none_or]
  | some longhand =>
    have member := (List.mem_filter.mp (List.mem_of_getLast? chosen)).1
    rw [List.getLast?_isSome.mpr (List.ne_nil_of_mem member)]
    rfl

/-- Importance decides nothing where the last longhand is important or none is. -/
theorem winner_eq_getLast?_iff (side : Side) (declarations : List Declaration) :
    (longhands side declarations).getLast? = winner side declarations ↔
      ∀ last, (longhands side declarations).getLast? = some last → last.important = false →
        ∀ longhand ∈ longhands side declarations, longhand.important = false := by
  rw [winner]
  generalize longhands side declarations = set
  constructor
  · intro same last ends plain longhand member
    rw [← Bool.not_eq_true]
    intro important
    have listed : longhand ∈ set.filter (·.important) := List.mem_filter.mpr ⟨member, important⟩
    cases chosen : (set.filter (·.important)).getLast? with
    | none => simp [List.getLast?_eq_none_iff.mp chosen] at listed
    | some first =>
      -- The renderer's choice is important, the last longhand is not.
      rw [ends, chosen, Option.some_or, Option.some.injEq] at same
      have marked := (List.mem_filter.mp (List.mem_of_getLast? chosen)).2
      rw [← same, plain] at marked
      cases marked
  · intro bound
    cases ends : set.getLast? with
    | none => simp [List.getLast?_eq_none_iff.mp ends]
    | some last =>
      obtain ⟨before, rfl⟩ := List.getLast?_eq_some_iff.mp ends
      cases important : last.important with
      | true => simp [List.filter_append, important]
      | false =>
        have none : (before ++ [last]).filter (·.important) = [] := by
          rw [List.filter_eq_nil_iff]
          intro longhand member
          rw [bound last ends important longhand member]
          decide
        rw [none, List.getLast?_nil, Option.none_or]

/-- What sets no side stays in order, but for shorthands that have no values for the sides. -/
theorem filter_rewriteMargins? {declarations rewritten : List Declaration}
    (rewrites : rewriteMargins? declarations = some rewritten) :
    rewritten.filter setsNothing = declarations.filter fun other =>
      setsNothing other && !decide (IsShorthand other) := by
  have sets : (Side.all.filterMap fun side =>
      (longhands side declarations).getLast?).filter setsNothing = [] := by
    rw [List.filter_eq_nil_iff]
    intro longhand member
    obtain ⟨side, _, last⟩ := List.mem_filterMap.mp member
    exact not_setsNothing (property_of_mem_longhands (List.mem_of_getLast? last))
  rw [eq_of_rewriteMargins? rewrites, List.filter_append, sets, List.append_nil, List.filter_filter]
  congr 1
  funext other
  cases setsNothing other <;> simp

/-- Rewritten margins set each side at most once, to what set it last, and so a renderer takes the
same for it unless an important longhand stands before a last one without a mark. What sets no side
stays as it is, but for shorthands that have no values for the sides. -/
theorem winner_rewritten {declarations rewritten : List Declaration}
    (rewrites : rewriteMargins? declarations = some rewritten) :
    (∀ side,
      longhands side rewritten = (longhands side declarations).getLast?.toList ∧
      winner side rewritten = (longhands side declarations).getLast? ∧
      (winner side rewritten).isSome = (winner side declarations).isSome ∧
      (winner side rewritten = winner side declarations ↔
        ∀ last, (longhands side declarations).getLast? = some last → last.important = false →
          ∀ longhand ∈ longhands side declarations, longhand.important = false)) ∧
    rewritten.filter setsNothing = declarations.filter fun other =>
      setsNothing other && !decide (IsShorthand other) := by
  refine ⟨fun side => ?_, filter_rewriteMargins? rewrites⟩
  have once := longhands_rewriteMargins? rewrites side
  have last := winner_of_toList once
  refine ⟨once, last, ?_, ?_⟩
  · rw [last, isSome_winner]
  · rw [last]
    exact winner_eq_getLast?_iff side declarations

/-- A shorthand and a longhand behind it, a shorthand that cannot be spread, one with too many
components, and a longhand that is important. -/
def mixedMargins : List Declaration :=
  [{ property := "margin".toList, value := "4px 8px".toList },
    { property := "color".toList, value := "red".toList },
    { property := "margin-top".toList, value := "9px".toList },
    { property := "margin".toList, value := "var(--m)".toList },
    { property := "margin".toList, value := "1px 2px 3px 4px 5px".toList },
    { property := "margin-left".toList, value := "0".toList, important := true }]

theorem winner_rewritten_mixedMargins :
    ∃ rewritten, rewriteMargins? mixedMargins = some rewritten ∧
      winner .left rewritten = winner .left mixedMargins ∧
      winner .top rewritten
        = some { property := "margin-top".toList, value := "9px".toList } ∧
      rewritten.filter setsNothing =
        [{ property := "color".toList, value := "red".toList },
          { property := "margin".toList, value := "var(--m)".toList }] := by
  have rewrites : rewriteMargins? mixedMargins = some
      [{ property := "color".toList, value := "red".toList },
        { property := "margin".toList, value := "var(--m)".toList },
        { property := "margin-top".toList, value := "9px".toList },
        { property := "margin-right".toList, value := "8px".toList },
        { property := "margin-bottom".toList, value := "4px".toList },
        { property := "margin-left".toList, value := "0".toList, important := true }] := by decide
  obtain ⟨sides, others⟩ := winner_rewritten rewrites
  refine ⟨_, rewrites, (sides .left).2.2.2.mpr ?_, ?_, others.trans (by decide)⟩
  · intro last ends plain
    have marked : (longhands .left mixedMargins).getLast? = some
        { property := "margin-left".toList, value := "0".toList, important := true } := by decide
    rw [marked, Option.some.injEq] at ends
    rw [← ends] at plain
    cases plain
  · exact (sides .top).2.1.trans (by decide)

/-- A longhand without a mark behind an important shorthand. -/
def outranked : List Declaration :=
  [{ property := "margin".toList, value := "0 auto".toList, important := true },
    { property := "margin-top".toList, value := "8px".toList }]

/-- A shorthand with too many components before a longhand. -/
def overfull : List Declaration :=
  [{ property := "margin".toList, value := "1px 2px 3px 4px 5px".toList },
    { property := "margin-top".toList, value := "8px".toList }]

/-- What a renderer takes for a side can change, and a declaration that sets no side can go. -/
theorem winner_outranked :
    (∃ rewritten, rewriteMargins? outranked = some rewritten ∧
      winner .top outranked
        = some { property := "margin-top".toList, value := "0".toList, important := true } ∧
      winner .top rewritten = some { property := "margin-top".toList, value := "8px".toList }) ∧
    ∃ rewritten, rewriteMargins? overfull = some rewritten ∧
      overfull.filter setsNothing
        = [{ property := "margin".toList, value := "1px 2px 3px 4px 5px".toList }] ∧
      rewritten.filter setsNothing = [] :=
  ⟨⟨_, rfl, by decide, by decide⟩, _, rfl, by decide, by decide⟩

end ThemeCss.Inline
