import LiveReload.Message.MessagePack
import LiveReload.Proofs.Message.Contents
import LiveReload.Proofs.MessagePack

namespace LiveReload

open MessagePack (Decodes Entry decodes_list decodes_map entry_text writeText)
open Wire (Value)

def Instruction.texts (instruction : Instruction) : List String :=
  [instruction.kind, instruction.boundary, instruction.accepted]

def Message.texts : Message → List String
  | fullReload cause reason declinedBy => [cause, reason] ++ declinedBy.toList
  | hotReload cause updates => cause :: updates.flatMap Instruction.texts

-- The largest header counts with four bytes.
structure Message.Fits (message : Message) : Prop where
  texts : ∀ text ∈ message.texts, text.utf8ByteSize < 2 ^ 32
  updates : message.updates.length < 2 ^ 32

theorem Message.Kind.utf8ByteSize_name_lt (kind : Kind) : kind.name.utf8ByteSize < 2 ^ 32 := by
  cases kind <;> decide

theorem Instruction.decodes_write {instruction : Instruction}
    (h : ∀ text ∈ instruction.texts, text.utf8ByteSize < 2 ^ 32) (depth : Nat) :
    Decodes (MessagePack.value (depth + 1)) instruction.write instruction.value := by
  simp only [texts, List.forall_mem_cons] at h
  obtain ⟨hkind, hboundary, haccepted, -⟩ := h
  apply decodes_map (by simp)
  exact .cons (entry_text (by decide) hkind depth) <|
    .cons (entry_text (by decide) hboundary depth) <|
      .cons (entry_text (by decide) haccepted depth) .nil

namespace Message

-- The members of a message as they are written, without the tag.
def writtenFields : Message → List (String × List UInt8)
  | fullReload cause reason declinedBy =>
    [("cause", writeText cause), ("reason", writeText reason)] ++
      match declinedBy with
      | none => []
      | some url => [("declinedBy", writeText url)]
  | hotReload cause updates =>
    [("cause", writeText cause), ("updates", MessagePack.writeList (updates.map Instruction.write))]

theorem toMessagePack_eq (message : Message) : message.toMessagePack =
    MessagePack.writeMap ((tagName, writeText message.kind.name) :: message.writtenFields) := by
  cases message <;> rfl

theorem length_writtenFields (message : Message) : message.writtenFields.length ≤ 3 := by
  cases message with
  | fullReload cause reason declinedBy => cases declinedBy <;> simp [writtenFields]
  | hotReload cause updates => simp [writtenFields]

theorem Fits.entries {message : Message} (h : message.Fits) (depth : Nat) :
    List.Forall₂ (Entry (MessagePack.value (depth + 2))) message.writtenFields message.fields := by
  cases message with
  | fullReload cause reason declinedBy =>
      have htexts := h.texts
      simp only [Message.texts, List.cons_append, List.nil_append, List.forall_mem_cons] at htexts
      obtain ⟨hcause, hreason, hurl⟩ := htexts
      refine .cons (entry_text (by decide) hcause _) (.cons (entry_text (by decide) hreason _) ?_)
      cases declinedBy with
      | none => exact .nil
      | some url =>
          exact .cons (entry_text (by decide) (hurl url List.mem_cons_self) _) .nil
  | hotReload cause updates =>
      have htexts := h.texts
      simp only [Message.texts, List.forall_mem_cons] at htexts
      obtain ⟨hcause, hupdates⟩ := htexts
      have hwrite : ∀ instruction ∈ updates,
          Decodes (MessagePack.value (depth + 1)) instruction.write instruction.value :=
        fun instruction hm => Instruction.decodes_write
          (fun text ht => hupdates text (List.mem_flatMap.mpr ⟨instruction, hm, ht⟩)) depth
      exact .cons (entry_text (by decide) hcause _) <|
        .cons (.of_decodes (by decide) (decodes_list h.updates hwrite)) .nil

-- A message, its updates and each of them are all that is ever open.
theorem Fits.decodes {message : Message} (h : message.Fits) (depth : Nat) :
    Decodes (MessagePack.value (depth + 3)) message.toMessagePack
      (.map ((.text tagName, .text message.kind.name) :: message.fields)) := by
  rw [toMessagePack_eq]
  have hlength := message.length_writtenFields
  refine decodes_map (by rw [List.length_cons]; omega) (.cons ?_ (h.entries depth))
  exact entry_text (by decide) message.kind.utf8ByteSize_name_lt _

-- The tag has a name of its own.
theorem isTag_of_mem_fields {message : Message} {entry : Value × Value}
    (h : entry ∈ message.fields) : isTag entry = false := by
  cases message with
  | fullReload cause reason declinedBy =>
      cases declinedBy with
      | none =>
          simp only [fields, List.append_nil, List.mem_cons, List.not_mem_nil, or_false] at h
          rcases h with rfl | rfl <;> rfl
      | some url =>
          simp only [fields, List.cons_append, List.nil_append, List.mem_cons, List.not_mem_nil,
            or_false] at h
          rcases h with rfl | rfl | rfl <;> rfl
  | hotReload cause updates =>
      simp only [fields, List.mem_cons, List.not_mem_nil, or_false] at h
      rcases h with rfl | rfl <;> rfl

theorem ofValue?_fields (message : Message) :
    ofValue? (.map ((.text tagName, .text message.kind.name) :: message.fields)) =
      some message := by
  have hkind : kindOf? (.text message.kind.name) = some message.kind := by
    cases message <;> rfl
  have hpartition : ((.text tagName, .text message.kind.name) :: message.fields).partition isTag =
      ([(.text tagName, .text message.kind.name)], message.fields) := by
    rw [List.partition_eq_filter_filter, List.filter_cons_of_pos rfl,
      List.filter_cons_of_neg Bool.false_ne_true, List.filter_eq_nil_iff.mpr,
      List.filter_eq_self.mpr]
    · intro entry hm
      simp [isTag_of_mem_fields hm]
    · intro entry hm
      simp [isTag_of_mem_fields hm]
  rw [ofValue?, hpartition]
  simp only [hkind, Option.bind_some, ofContents_fields]
  rfl

theorem Fits.ofMessagePack? {message : Message} (h : message.Fits) (extra : List UInt8) :
    ofMessagePack? (message.toMessagePack ++ extra) = some message := by
  rw [Message.ofMessagePack?, maxDepth, h.decodes 1020 extra]
  exact message.ofValue?_fields

end Message

end LiveReload
