import LiveReload.Message
import LiveReload.Wire.Problem

namespace LiveReload.Wire

-- What a record is made of when its values are known: its members, or its fields in order.
inductive Contents where
  | members (entries : List (Value × Value))
  | elements (items : List Value)

-- A field changes the record made so far.
structure Slot (σ : Type) where
  name : String
  fill : Value → Except Problem (σ → σ)

structure Form (σ α : Type) where
  -- What a sentence on a mismatch calls the record.
  name : String
  slots : List (Slot σ)
  -- How many slots an array has to fill.
  needed : Nat
  start : σ
  finish : σ → Except Problem α

def textOf : Value → Except Problem String
  | .text value => .ok value
  | .bytes value =>
    match String.fromUTF8? ⟨value.toArray⟩ with
    | some text => .ok text
    | none => .error (.invalidValue .bytes "a string")
  | value => .error (.invalidType value.found "a string")

def optionalTextOf : Value → Except Problem (Option String)
  | .null => .ok none
  | value => (textOf value).map some

namespace Form

variable {σ α : Type}

-- A key names a field by its name or by its number. Unsigned numbers of other widths do not count.
def slotIndex (form : Form σ α) (key : Value) : Except Problem (Option Nat) :=
  let named (name : String) := form.slots.findIdx? (·.name = name)
  let numbered (n : Nat) := if n < form.slots.length then some n else none
  match key with
  | .text name => .ok (named name)
  | .bytes name => .ok ((String.fromUTF8? ⟨name.toArray⟩).bind named)
  | .unsigned .bits8 n => .ok (numbered n)
  | .unsigned .bits64 n => .ok (numbered n)
  | key => .error (.invalidType key.found "field identifier")

-- A member that is no field is passed over; a field that comes again is refused.
def fillMembers (form : Form σ α) (filled : List Nat) (state : σ) :
    List (Value × Value) → Except Problem σ
  | [] => .ok state
  | (key, value) :: entries =>
    match form.slotIndex key with
    | .error problem => .error problem
    | .ok none => fillMembers form filled state entries
    | .ok (some index) =>
      match form.slots[index]? with
      | none => fillMembers form filled state entries
      | some slot =>
        if index ∈ filled then .error (.duplicateField slot.name)
        else
          match slot.fill value with
          | .error problem => .error problem
          | .ok update => fillMembers form (index :: filled) (update state) entries

def lengthProblem (form : Form σ α) (length : Nat) : Problem :=
  .invalidLength length (form.name ++ " with " ++ toString form.slots.length ++ " elements")

-- `count` slots have been filled.
def fillElements (form : Form σ α) (count : Nat) (state : σ) :
    List (Slot σ) → List Value → Except Problem σ
  | [], [] => .ok state
  | [], extra =>
    .error (.invalidLength (count + extra.length) (toString count ++ " elements in sequence"))
  | _ :: _, [] => if count < form.needed then .error (form.lengthProblem count) else .ok state
  | slot :: slots, item :: items =>
    match slot.fill item with
    | .error problem => .error problem
    | .ok update => fillElements form (count + 1) (update state) slots items

def read (form : Form σ α) (contents : Contents) : Except Problem α := do
  let state ←
    match contents with
    | .members entries => form.fillMembers [] form.start entries
    | .elements items => form.fillElements 0 form.start form.slots items
  form.finish state

-- A value that is neither map nor list is no record.
def readValue (form : Form σ α) : Value → Except Problem α
  | .map entries => form.read (.members entries)
  | .list items => form.read (.elements items)
  | value => .error (.invalidType value.found form.name)

end Form

def listOf {α : Type} (item : Value → Except Problem α) : Value → Except Problem (List α)
  | .list items => items.mapM item
  | value => .error (.invalidType value.found "a sequence")

end LiveReload.Wire

namespace LiveReload

open Wire (Contents Form Problem Value required)

structure Instruction.Draft where
  kind : Option String := none
  boundary : Option String := none
  accepted : Option String := none

def Instruction.form : Form Instruction.Draft Instruction where
  name := "struct UpdateInstruction"
  slots := [
    ⟨"type", fun value => (Wire.textOf value).map fun text draft => { draft with kind := some text }⟩,
    ⟨"boundary", fun value =>
      (Wire.textOf value).map fun text draft => { draft with boundary := some text }⟩,
    ⟨"acceptedBy", fun value =>
      (Wire.textOf value).map fun text draft => { draft with accepted := some text }⟩]
  needed := 3
  start := {}
  finish draft := do
    let kind ← required "type" draft.kind
    let boundary ← required "boundary" draft.boundary
    let accepted ← required "acceptedBy" draft.accepted
    pure ⟨kind, boundary, accepted⟩

namespace Message

structure Draft where
  cause : Option String := none
  reason : Option String := none
  declinedBy : Option String := none
  updates : Option (List Instruction) := none

def causeSlot : Wire.Slot Draft :=
  ⟨"cause", fun value => (Wire.textOf value).map fun text draft => { draft with cause := some text }⟩

def fullReloadForm : Form Draft Message where
  name := "struct variant ReloadMessage::FullReload"
  slots := [
    causeSlot,
    ⟨"reason", fun value =>
      (Wire.textOf value).map fun text draft => { draft with reason := some text }⟩,
    ⟨"declinedBy", fun value =>
      (Wire.optionalTextOf value).map fun text draft => { draft with declinedBy := text }⟩]
  needed := 2
  start := {}
  finish draft := do
    let cause ← required "cause" draft.cause
    let reason ← required "reason" draft.reason
    pure (.fullReload cause reason draft.declinedBy)

def hotReloadForm : Form Draft Message where
  name := "struct variant ReloadMessage::HotReload"
  slots := [
    causeSlot,
    ⟨"updates", fun value =>
      (Wire.listOf Instruction.form.readValue value).map fun updates draft =>
        { draft with updates := some updates }⟩]
  needed := 2
  start := {}
  finish draft := do
    let cause ← required "cause" draft.cause
    let updates ← required "updates" draft.updates
    pure (.hotReload cause updates)

def Kind.choices : List (String × Kind) := Kind.all.map fun kind => (kind.name, kind)

def ofContents (kind : Kind) (contents : Contents) : Except Problem Message :=
  match kind with
  | .fullReload => fullReloadForm.read contents
  | .hotReload => hotReloadForm.read contents

def tagName : String := "type"

-- What a sentence on a mismatch calls a message.
def title : String := "internally tagged enum ReloadMessage"

end Message

end LiveReload
