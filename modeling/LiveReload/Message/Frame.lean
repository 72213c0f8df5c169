import LiveReload.Config
import LiveReload.Message.Json
import LiveReload.Message.MessagePack

namespace LiveReload

inductive Frame where
  | text (text : String)
  | binary (bytes : List UInt8)
deriving DecidableEq

def Message.frame (message : Message) : WireFormat → Frame
  | .json => .text message.toJson
  | .messagePack => .binary message.toMessagePack

end LiveReload
