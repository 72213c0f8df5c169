import LiveReload.Message.Contents

namespace LiveReload

open Wire (Form Problem Value)

-- The members of the record, by name.
def Instruction.fields (instruction : Instruction) : List (Value × Value) :=
  [(.text "type", .text instruction.kind), (.text "boundary", .text instruction.boundary),
    (.text "acceptedBy", .text instruction.accepted)]

def Instruction.value (instruction : Instruction) : Value := .map instruction.fields

namespace Message

-- The members of a message next to its tag.
def fields : Message → List (Value × Value)
  | fullReload cause reason declinedBy =>
    [(.text "cause", .text cause), (.text "reason", .text reason)] ++
      match declinedBy with
      | none => []
      | some url => [(.text "declinedBy", .text url)]
  | hotReload cause updates =>
    [(.text "cause", .text cause), (.text "updates", .list (updates.map Instruction.value))]

end Message

theorem Wire.Form.fillMembers_cons {σ α : Type} {form : Form σ α} {filled : List Nat} {state : σ}
    {key value : Value} {entries : List (Value × Value)} {index : Nat} {slot : Wire.Slot σ}
    {update : σ → σ} (hk : form.slotIndex key = .ok (some index))
    (hs : form.slots[index]? = some slot) (hf : index ∉ filled)
    (hu : slot.fill value = .ok update) :
    form.fillMembers filled state ((key, value) :: entries) =
      form.fillMembers (index :: filled) (update state) entries := by
  simp only [fillMembers, hk, hs, hf, hu, if_false]

theorem Instruction.readValue_value (instruction : Instruction) :
    Instruction.form.readValue instruction.value = .ok instruction := by
  rfl

theorem Instruction.listOf_value (updates : List Instruction) :
    Wire.listOf Instruction.form.readValue (.list (updates.map Instruction.value)) =
      .ok updates := by
  rw [Wire.listOf]
  induction updates with
  | nil => rfl
  | cons instruction updates ih =>
      rw [List.map_cons, List.mapM_cons, Instruction.readValue_value, ih]
      rfl

theorem Message.ofContents_fields (message : Message) :
    Message.ofContents message.kind (.members message.fields) = .ok message := by
  cases message with
  | fullReload cause reason declinedBy =>
      cases declinedBy with
      | none => rfl
      | some url => rfl
  | hotReload cause updates =>
      have hupdates : (Wire.listOf Instruction.form.readValue
          (.list (updates.map Instruction.value))).map
            (fun updates draft => { draft with updates := some updates }) =
              .ok fun draft : Draft => { draft with updates := some updates } := by
        rw [Instruction.listOf_value]
        rfl
      have hfields : hotReloadForm.fillMembers [] {} (hotReload cause updates).fields =
          .ok { cause := some cause, updates := some updates } := by
        rw [fields, Form.fillMembers_cons rfl rfl List.not_mem_nil rfl,
          Form.fillMembers_cons rfl rfl (by decide) hupdates]
        rfl
      change (hotReloadForm.fillMembers [] {} (hotReload cause updates).fields).bind
        hotReloadForm.finish = _
      rw [hfields]
      rfl

end LiveReload
