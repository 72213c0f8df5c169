import LiveReload.Message.Json
import LiveReload.Proofs.Json.Printed
import LiveReload.Proofs.Message.Contents

namespace LiveReload

open Json (Member Reader Reads Takes keep printText reads_list reads_object reads_text)
open Wire (Value)

theorem Instruction.takes_print (depth : Nat) (instruction : Instruction) :
    Takes (keep (Reader.value depth)) []
      [("type", printText instruction.kind), ("boundary", printText instruction.boundary),
        ("acceptedBy", printText instruction.accepted)] instruction.fields :=
  .cons ((reads_text depth _).map _) rfl <| .cons ((reads_text depth _).map _) rfl <|
    .cons ((reads_text depth _).map _) rfl <| .nil _

theorem Instruction.reads_print (depth : Nat) (instruction : Instruction) :
    Reads (Reader.value (depth + 1)) instruction.print instruction.value :=
  reads_object (instruction.takes_print depth)

namespace Message

theorem reads_tag (kind : Kind) : Reads tagReader (printText kind.name) kind where
  run rest := by
    have hchosen : Json.chosen Kind.choices
        (kind.name.toList.flatMap Json.escapedChar ++ '"' :: rest) = .ok (kind, rest) := by
      rw [Json.chosen, Json.textValue_printed]
      cases kind <;> rfl
    rw [Json.printText_append]
    exact hchosen
  head := ⟨'"', _, rfl, rfl, by decide⟩

-- A member that is not the tag is kept with the others.
theorem member_of_ne {key : String} (h : key ≠ tagName) (scan : Scan) :
    member scan key = .ok ((Reader.value innerDepth).map fun value =>
      { scan with entries := scan.entries ++ [(.text key, value)] }) :=
  if_neg h

-- The members of a message as they are printed, without the tag.
def printedFields : Message → List (String × List Char)
  | fullReload cause reason declinedBy =>
    [("cause", printText cause), ("reason", printText reason)] ++
      match declinedBy with
      | none => []
      | some url => [("declinedBy", printText url)]
  | hotReload cause updates =>
    [("cause", printText cause), ("updates", Json.printList (updates.map Instruction.print))]

theorem print_eq (message : Message) : message.print =
    Json.printObject ((tagName, printText message.kind.name) :: message.printedFields) := by
  cases message <;> rfl

theorem takes_text {key : String} (hk : key ≠ tagName) {tag : Option Kind} (text : String)
    {entries : List (Value × Value)} {members : List (String × List Char)} {result : Scan}
    (h : Takes member ⟨tag, entries ++ [(.text key, .text text)]⟩ members result) :
    Takes member ⟨tag, entries⟩ ((key, printText text) :: members) result :=
  .cons ((reads_text innerDepth text).map _) (member_of_ne hk _) h

theorem takes_printedFields (message : Message) (tag : Option Kind) :
    Takes member ⟨tag, []⟩ message.printedFields ⟨tag, message.fields⟩ := by
  cases message with
  | fullReload cause reason declinedBy =>
      apply takes_text (by decide)
      apply takes_text (by decide)
      cases declinedBy with
      | none => exact .nil _
      | some url => exact takes_text (by decide) url (.nil _)
  | hotReload cause updates =>
      apply takes_text (by decide)
      have hupdates : Reads (Reader.value innerDepth)
          (Json.printList (updates.map Instruction.print))
          (.list (updates.map Instruction.value)) :=
        reads_list fun instruction _ => instruction.reads_print 124
      exact .cons (hupdates.map _) (member_of_ne (by decide) _) (.nil _)

theorem takes_print (message : Message) :
    Takes member {} ((tagName, printText message.kind.name) :: message.printedFields)
      ⟨some message.kind, message.fields⟩ :=
  .cons ((reads_tag message.kind).map _) rfl (message.takes_printedFields _)

theorem reads_print (message : Message) : Reads reader message.print message where
  run rest := by
    rw [print_eq, Json.printObject_append]
    change decided ((Json.objectBody .strict member {} true _).map ofScan) = _
    rw [Json.objectBody_separated message.takes_print]
    change decided (.ok (ofContents message.kind (.members message.fields), rest)) = _
    rw [ofContents_fields]
    rfl
  head := by
    rw [print_eq]
    exact ⟨'\x7b', _, rfl, rfl, by decide⟩

theorem ofJson_toJson (message : Message) : ofJson message.toJson = .ok message := by
  have hrun := message.reads_print.run []
  rw [List.append_nil] at hrun
  rw [ofJson, Reader.readAll, toJson, String.toList_ofList, hrun]
  rfl

end Message

end LiveReload
