import LiveReload.Message.Frame
import LiveReload.Proofs.Json.Truncation
import LiveReload.Proofs.Message.Json
import LiveReload.Proofs.Message.MessagePack
import LiveReload.Proofs.MessagePack.Extension

namespace LiveReload

open Json (NeedsAll NeedsValues Reader needsAll_cons needsAll_printList needsAll_printObject
  needsAll_textValue needsAll_valueText printText)

theorem Instruction.needsAll_print (depth : Nat) (instruction : Instruction) :
    NeedsAll (Reader.value (depth + 1)).run instruction.print := by
  apply needsAll_printObject (instruction.takes_print depth)
  intro one hm
  simp only [List.mem_cons, List.not_mem_nil, or_false] at hm
  rcases hm with rfl | rfl | rfl <;> exact needsAll_valueText depth _

namespace Message

theorem needsAll_tag (name : String) : NeedsAll tagReader.run (printText name) := by
  refine needsAll_cons rfl fun tail htail => ?_
  change Json.chosen Kind.choices tail = _
  rw [Json.chosen, needsAll_textValue name tail htail]
  rfl

-- No member but the first is called as the tag is.
theorem needsAll_printedFields {message : Message} {one : String × List Char}
    (hm : one ∈ message.printedFields) :
    one.1 ≠ tagName ∧ NeedsAll (Reader.value innerDepth).run one.2 := by
  cases message with
  | fullReload cause reason declinedBy =>
      have htext (text : String) : NeedsAll (Reader.value innerDepth).run (printText text) :=
        needsAll_valueText innerDepth text
      cases declinedBy with
      | none =>
          simp only [printedFields, List.append_nil, List.mem_cons, List.not_mem_nil,
            or_false] at hm
          rcases hm with rfl | rfl <;> exact ⟨by simp [tagName], htext _⟩
      | some url =>
          simp only [printedFields, List.cons_append, List.nil_append, List.mem_cons,
            List.not_mem_nil, or_false] at hm
          rcases hm with rfl | rfl | rfl <;> exact ⟨by simp [tagName], htext _⟩
  | hotReload cause updates =>
      simp only [printedFields, List.mem_cons, List.not_mem_nil, or_false] at hm
      rcases hm with rfl | rfl
      · exact ⟨by simp [tagName], needsAll_valueText innerDepth cause⟩
      · refine ⟨by simp [tagName], ?_⟩
        exact needsAll_printList (fun instruction _ => instruction.reads_print 124)
          fun instruction _ => instruction.needsAll_print 124

theorem needsValues_print (message : Message) :
    NeedsValues member ((tagName, printText message.kind.name) :: message.printedFields) := by
  intro one hm scan reader hknown
  rcases List.mem_cons.1 hm with rfl | hm
  · rw [member, if_pos rfl] at hknown
    cases htag : scan.tag with
    | some kind => simp [htag] at hknown
    | none =>
        simp only [htag, Except.ok.injEq] at hknown
        exact hknown ▸ (needsAll_tag message.kind.name).map _
  · obtain ⟨hne, hone⟩ := needsAll_printedFields hm
    rw [member_of_ne hne, Except.ok.injEq] at hknown
    exact hknown ▸ hone.map _

theorem needsAll_print (message : Message) : NeedsAll reader.run message.print := by
  rw [print_eq]
  refine needsAll_cons rfl fun tail htail => ?_
  have hbody := Json.needsAll_object message.takes_print message.needsValues_print tail htail
  change decided ((Json.objectBody .strict member {} true tail).map ofScan) = _
  rw [hbody]
  rfl

theorem ofJson_cut {message : Message} {part : String}
    (hpart : part.toList <+: message.toJson.toList) (hne : part ≠ message.toJson) :
    ofJson part = .error .endOfText := by
  have hcut : Json.Cut part.toList message.print := by
    rw [toJson, String.toList_ofList] at hpart
    refine ⟨hpart, fun h => hne ?_⟩
    rw [toJson, ← h, String.ofList_toList]
  rw [ofJson, Reader.readAll, message.needsAll_print part.toList hcut]

theorem Fits.ofMessagePack?_cut {message : Message} (h : message.Fits) {part : List UInt8}
    (hpart : part <+: message.toMessagePack) (hne : part ≠ message.toMessagePack) :
    Message.ofMessagePack? part = none := by
  have hnone : MessagePack.value maxDepth part = none :=
    (h.decodes 1020).eq_none (.value maxDepth) hpart hne
  rw [Message.ofMessagePack?, hnone, Option.bind_none]

theorem cut_frame_unread {message : Message} (h : message.Fits) :
    (∃ text, message.frame .json = .text text ∧
      ∀ part : String, part.toList <+: text.toList → part ≠ text →
        ofJson part = .error .endOfText) ∧
    (∃ bytes, message.frame .messagePack = .binary bytes ∧
      ∀ part, part <+: bytes → part ≠ bytes → ofMessagePack? part = none) :=
  ⟨⟨_, rfl, fun _ hpart hne => ofJson_cut hpart hne⟩,
    ⟨_, rfl, fun _ hpart hne => h.ofMessagePack?_cut hpart hne⟩⟩

-- The text breaks off between the digits of an escape and before the last bracket, the bytes before
-- the last one.
theorem cut_frame_unread_in_escape :
    (hotReload "\x01.js" [⟨"js", "a.js", "\"é\""⟩]).Fits ∧
    ofJson "\x7b\"type\":\"hot_reload\",\"cause\":\"\\u00" = .error .endOfText ∧
    ofJson (.ofList (hotReload "\x01.js" [⟨"js", "a.js", "\"é\""⟩]).toJson.toList.dropLast) =
      .error .endOfText ∧
    ofMessagePack? (hotReload "\x01.js" [⟨"js", "a.js", "\"é\""⟩]).toMessagePack.dropLast =
      none := by
  have h : (hotReload "\x01.js" [⟨"js", "a.js", "\"é\""⟩]).Fits := ⟨by decide, by decide⟩
  obtain ⟨⟨_, htext, hjson⟩, _, hbytes, hpack⟩ := cut_frame_unread h
  cases htext
  cases hbytes
  refine ⟨h, ?_, ?_, ?_⟩
  · exact hjson _ (by decide +kernel) (by decide +kernel)
  · exact hjson _ (by decide +kernel) (by decide +kernel)
  · exact hpack _ (List.dropLast_prefix _) (by decide +kernel)

end Message

end LiveReload
