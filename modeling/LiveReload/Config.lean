import LiveReload.Text.Quoted
import LiveReload.UrlSet

namespace LiveReload

inductive WireFormat where
  | json
  | messagePack
deriving DecidableEq

namespace WireFormat

def all : List WireFormat := [json, messagePack]

def name : WireFormat → String
  | json => "json"
  | messagePack => "msgpack"

end WireFormat

structure Config where
  -- URLs sent to clients are relative to this one.
  rootUrl : Url := "http://localhost/"
  wireFormat : WireFormat := .json
  -- How many messages are kept for a client that falls behind.
  channelCapacity : UInt64 := 64
  pruneNotifications : Bool := true
deriving DecidableEq

inductive ConfigFault where
  | invalidRootUrl (url : Url)
  | zeroCapacity
deriving DecidableEq

namespace ConfigFault

def name : ConfigFault → String
  | invalidRootUrl _ => "InvalidRootUrl"
  | zeroCapacity => "ZeroCapacity"

def message : ConfigFault → String
  | invalidRootUrl url =>
    "root url must be non-empty and end with '/', got " ++ Text.quoted url
  | zeroCapacity => "channel capacity must be greater than zero"

end ConfigFault

namespace Config

-- The root is looked at first.
def validate (config : Config) : Except ConfigFault Unit :=
  if config.rootUrl.toList.getLast? ≠ some '/' then .error (.invalidRootUrl config.rootUrl)
  else if config.channelCapacity = 0 then .error .zeroCapacity
  else .ok ()

end Config

end LiveReload
