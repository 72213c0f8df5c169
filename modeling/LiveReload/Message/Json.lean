import LiveReload.Message.Contents
import LiveReload.Json.Choice
import LiveReload.Json.Printer
import LiveReload.Json.Value

namespace LiveReload

open Json (Reader Step)
open Wire (Contents Problem Value)

def Instruction.print (instruction : Instruction) : List Char :=
  Json.printObject [
    ("type", Json.printText instruction.kind),
    ("boundary", Json.printText instruction.boundary),
    ("acceptedBy", Json.printText instruction.accepted)]

namespace Message

def print : Message → List Char
  | fullReload cause reason declinedBy =>
    Json.printObject <|
      [(tagName, Json.printText Kind.fullReload.name),
        ("cause", Json.printText cause),
        ("reason", Json.printText reason)] ++
      match declinedBy with
      | none => []
      | some url => [("declinedBy", Json.printText url)]
  | hotReload cause updates =>
    Json.printObject [
      (tagName, Json.printText Kind.hotReload.name),
      ("cause", Json.printText cause),
      ("updates", Json.printList (updates.map Instruction.print))]

def toJson (message : Message) : String := .ofList message.print

def tagReader : Reader Kind :=
  .ofBody
    (fun text =>
      match text with
      | '"' :: rest => Json.chosen Kind.choices rest
      | _ => .error (Json.mismatch "variant identifier" text))
    (by
      intro text value rest h
      split at h
      · rename_i he
        have := Json.chosen_shorter h
        rw [he, List.length_cons]
        omega
      · cases h)

-- How many brackets may be open inside a message's own.
def innerDepth : Nat := 126

-- The tag may stand anywhere in the object; the other members are kept until the closing bracket and
-- looked at then.
structure Scan where
  tag : Option Kind := none
  entries : List (Value × Value) := []

def member : Json.Member Scan := fun scan key =>
  if key = tagName then
    match scan.tag with
    | some _ => .error (.duplicateField tagName)
    | none => .ok (tagReader.map fun kind => { scan with tag := some kind })
  else
    .ok ((Reader.value innerDepth).map fun value =>
      { scan with entries := scan.entries ++ [(.text key, value)] })

def ofScan (scan : Scan) : Except Problem Message :=
  match scan.tag with
  | none => .error (.missingField tagName)
  | some kind => ofContents kind (.members scan.entries)

-- From behind the opening bracket of an array, whose first element is the tag.
def arrayBody (text : List Char) : Step (Kind × List Value) :=
  match Json.nextItem true text with
  | .error fault => .error fault
  | .ok (.close _) => .error (.problem (.missingField tagName))
  | .ok (.item text) =>
    (tagReader.run text).andThen fun kind rest =>
      (Json.listBody (Reader.value innerDepth) false rest).map fun items => (kind, items)

def decided (step : Step (Except Problem Message)) : Step Message :=
  step.andThen fun message rest =>
    match message with
    | .error problem => .error (.problem problem)
    | .ok message => .ok (message, rest)

def body (text : List Char) : Step Message :=
  match text with
  | '[' :: rest =>
    decided ((arrayBody rest).map fun found => ofContents found.1 (.elements found.2))
  | '\x7b' :: rest => decided ((Json.objectBody .strict member {} true rest).map ofScan)
  | _ => .error (Json.mismatch title text)

theorem arrayBody_lt {text rest : List Char} {value : Kind × List Value}
    (h : arrayBody text = .ok (value, rest)) : rest.length < text.length := by
  unfold arrayBody at h
  split at h
  · cases h
  · cases h
  · obtain ⟨_, _, ht, h⟩ := Step.andThen_eq_ok.1 h
    obtain ⟨_, hl, -⟩ := Step.map_eq_ok.1 h
    have := Json.nextItem_le ‹_›
    have := tagReader.shorter ht
    have := Json.listBody_shorter hl
    omega

theorem decided_eq_ok {step : Step (Except Problem Message)} {message : Message}
    {rest : List Char} (h : decided step = .ok (message, rest)) :
    step = .ok (.ok message, rest) := by
  obtain ⟨found, _, hs, h⟩ := Step.andThen_eq_ok.1 h
  cases found with
  | error problem => cases h
  | ok found =>
      cases h
      exact hs

theorem body_shorter {text rest : List Char} {message : Message}
    (h : body text = .ok (message, rest)) : rest.length < text.length := by
  unfold body at h
  split at h
  · obtain ⟨_, h, -⟩ := Step.map_eq_ok.1 (decided_eq_ok h)
    have := arrayBody_lt h
    simp only [List.length_cons]
    omega
  · obtain ⟨_, h, -⟩ := Step.map_eq_ok.1 (decided_eq_ok h)
    have := Json.objectBody_shorter h
    simp only [List.length_cons]
    omega
  · cases h

def reader : Reader Message := .ofBody body body_shorter

def ofJson (text : String) : Except Json.Fault Message := reader.readAll text

end Message

end LiveReload
