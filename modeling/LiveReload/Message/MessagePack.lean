import LiveReload.Message.Contents
import LiveReload.MessagePack.Reader
import LiveReload.MessagePack.Writer

namespace LiveReload

open MessagePack (writeList writeMap writeText)
open Wire (Problem Value)

def Instruction.write (instruction : Instruction) : List UInt8 :=
  writeMap [
    ("type", writeText instruction.kind),
    ("boundary", writeText instruction.boundary),
    ("acceptedBy", writeText instruction.accepted)]

namespace Message

def toMessagePack : Message → List UInt8
  | fullReload cause reason declinedBy =>
    writeMap <|
      [(tagName, writeText Kind.fullReload.name),
        ("cause", writeText cause),
        ("reason", writeText reason)] ++
      match declinedBy with
      | none => []
      | some url => [("declinedBy", writeText url)]
  | hotReload cause updates =>
    writeMap [
      (tagName, writeText Kind.hotReload.name),
      ("cause", writeText cause),
      ("updates", writeList (updates.map Instruction.write))]

def nameOf? : Value → Option String
  | .text name => some name
  | .bytes name => String.fromUTF8? ⟨name.toArray⟩
  | _ => none

-- A kind is tagged by its name or by its number.
def kindOf? : Value → Option Kind
  | .unsigned _ n => Kind.all[n]?
  | value => (nameOf? value).bind fun name => (Kind.choices.find? (·.1 = name)).map Prod.snd

def isTag (entry : Value × Value) : Bool := nameOf? entry.1 = some tagName

def ofValue? : Value → Option Message
  | .map entries =>
    match entries.partition isTag with
    | ([(_, tag)], fields) =>
      (kindOf? tag).bind fun kind => (ofContents kind (.members fields)).toOption
    | _ => none
  | .list (tag :: fields) =>
    (kindOf? tag).bind fun kind => (ofContents kind (.elements fields)).toOption
  | _ => none

def maxDepth : Nat := 1023

-- Whatever follows the value is left alone.
def ofMessagePack? (bytes : List UInt8) : Option Message :=
  (MessagePack.value maxDepth bytes).bind fun step => ofValue? step.1

end Message

end LiveReload
