import ThemeCss.Markup.Library

/-!
# Staging

Markup is staged in a hidden host that becomes the last child of a document's body, or of the
document itself when it has no body. Whatever happens on the stage, the host is taken off again
afterwards unless that was done already, so the document ends as it began. Markup that cannot be
staged never reaches the document: markup that the library does not read, and markup whose leading
text, which is set anew in the host, holds a character that no document takes.
-/
namespace ThemeCss.Markup

def stagingStyle : Text :=
  ("position: absolute; left: -9999px; top: -9999px; " ++
    "pointer-events: none; opacity: 0;").toList

def hostTag : Tag := ⟨"div".toList, [⟨"style".toList, some stagingStyle⟩]⟩

def host (forest : List Markup) : Markup := .element hostTag forest

def bodyName : Text := "body".toList

section owner

variable (hidden : Markup → Bool) (change : List Markup → List Markup)

mutual

/-- Changes the children of the first body at or below an element, hidden elements left out. -/
def mapBody? : Markup → Option Markup
  | .element tag children =>
    if hidden (.element tag children) then none
    else if tag.name = bodyName then some (.element tag (change children))
    else (mapFirstBody? children).map (.element tag)
  | _ => none

/-- Changes the children of the first body in a forest. -/
def mapFirstBody? : List Markup → Option (List Markup)
  | [] => none
  | markup :: forest =>
    match mapBody? markup with
    | some changed => some (changed :: forest)
    | none => (mapFirstBody? forest).map (markup :: ·)

end

/-- Changes the children of a document's body, or its own when it has none. -/
def mapOwner : Markup → Markup
  | .element tag children =>
    .element tag ((mapFirstBody? hidden change children).getD (change children))
  | markup => markup

end owner

mutual

/-- The first body at or below an element. -/
def body? : Markup → Option (Tag × List Markup)
  | .element tag children =>
    if tag.name = bodyName then some (tag, children) else firstBody? children
  | _ => none

def firstBody? : List Markup → Option (Tag × List Markup)
  | [] => none
  | markup :: forest =>
    match body? markup with
    | some found => some found
    | none => firstBody? forest

end

/-- The element of a document that takes a host. -/
def owner : Markup → Option (Tag × List Markup)
  | .element tag children => some ((firstBody? children).getD (tag, children))
  | _ => none

def attach (document hosted : Markup) : Markup :=
  mapOwner (fun _ => false) (· ++ [hosted]) document

/-- Takes a host off its owner. What is staged may hold a body of its own, so the owner is looked
for outside the host. -/
def detach (document hosted : Markup) : Markup :=
  mapOwner (fun markup => markup = hosted) List.dropLast document

/-- A document with markup on stage. -/
structure Stage where
  document : Markup
  forest : List Markup
  attached : Bool

namespace Stage

def enter (document : Markup) (forest : List Markup) : Stage :=
  ⟨attach document (host forest), forest, true⟩

/-- Takes the host off if it is still there. -/
def leave (stage : Stage) : Stage :=
  if stage.attached then
    { stage with document := detach stage.document (host stage.forest), attached := false }
  else stage

/-- Changes what the host holds. -/
def replace (stage : Stage) (forest : List Markup) : Stage :=
  if stage.attached then
    let bare := detach stage.document (host stage.forest)
    { stage with document := attach bare (host forest), forest }
  else { stage with forest }

end Stage

/-- The document used when none is given. -/
def emptyDocument : Markup :=
  .element ⟨"html".toList, []⟩ [.element ⟨bodyName, []⟩ []]

section library

variable [Library]

/-- Why markup cannot be staged. -/
inductive StageError where
  | unreadable (fault : Library.Fault)
  | forbiddenCharacter

namespace StageError

/-- Whether the failure is reported as one of staging. A text that cannot be set is not, nor are the
faults of reading that are not to be expected: these go through as they are. -/
def isReported : StageError → Bool
  | .unreadable fault => Library.refuses fault
  | .forbiddenCharacter => false

def message (cause : StageError) : String :=
  let what := match cause with
    | .unreadable fault => Library.message fault
    | .forbiddenCharacter => forbiddenMessage
  if cause.isReported then "Cannot stage markup: " ++ what else what

end StageError

/-- Whether the leading text of a fragment can be set. -/
def isStageable (forest : List Markup) : Bool := (leadingText? forest).all isSettable

/-- What the host of a markup holds. -/
def hostContent (markup : Text) : Except StageError (List Markup) :=
  match Library.read markup with
  | .error fault => .error (.unreadable fault)
  | .ok forest => if isStageable forest then .ok forest else .error .forbiddenCharacter

/-- Runs a block on staged markup and takes the host off afterwards. Answers what the block came to
and the stage it left, unless the markup cannot be staged. -/
def onStage {m : Type → Type} [Monad m] {Outcome : Type} (document : Markup) (markup : Text)
    (block : Stage → m (Outcome × Stage)) : m (Except StageError (Outcome × Stage)) :=
  match hostContent markup with
  | .error cause => return .error cause
  | .ok forest => do
    -- The host comes off after the block, whatever the block did with it.
    let (outcome, stage) ← block (Stage.enter document forest)
    return .ok (outcome, stage.leave)

end library

end ThemeCss.Markup
