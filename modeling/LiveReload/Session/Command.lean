import LiveReload.Channel
import LiveReload.Config
import LiveReload.Message
import LiveReload.Resource
import LiveReload.Turnstile
import LiveReload.Wire.Problem

namespace LiveReload.Session

-- Tickets, subscribers, channels and receivers go by names that the asker chooses.
inductive Command where
  | declare (url : Url) (declaration : Declaration)
  | begin (url : Url) (ticket : String)
  | finish (ticket : String) (declaration : Declaration)
  | fileEvent (url : Url) (kind : Wire.Value)
  | remove (url : Url)
  | verdict (url : Url)
  | relative (url : Url)
  | config
  -- Edits of the graph that no reloader gets to know of.
  | declareQuietly (url : Url) (declaration : Declaration)
  | removeQuietly (url : Url)
  | addReloader (config : Config)
  | subscribe (name : String)
  -- A subscriber that gives a command of its own, to the reloader `on`, when first told something.
  | subscribeReacting (name : String) (on : Nat) (reaction : Command)
  | unsubscribe (name : String)
  -- A channel of the configured capacity, known by its own name only.
  | broadcast (name : String)
  -- A channel that is also a subscriber by its name.
  | attach (name : String) (capacity : Nat)
  | dropChannel (name : String)
  | send (channel : String) (message : Message)
  | listen (channel receiver : String)
  | receiverCount (channel : String)
  | dropReceiver (name : String)
  | receive (receiver : String)
deriving Inhabited

-- How many reactions are written into a command.
def Command.reactions : Command → Nat
  | subscribeReacting _ _ reaction => reaction.reactions + 1
  | _ => 0

inductive Reply where
  | nothing
  | flag (value : Bool)
  | count (n : Nat)
  | text (text : String)
  | urls (urls : List Url)
  | ticket (ticket : Ticket)
  | message (message : Message)
  | verdict (verdict : Verdict)
  | config (config : Config)
  | reception (reception : Reception Message)
  | unknownResource (fault : UnknownResource)
  | invalidConfig (fault : ConfigFault)
  | problem (problem : Wire.Problem)
  -- The command names a reloader or a ticket that does not exist.
  | badCommand

-- What subscribers experience, in the order of events.
inductive Note where
  | told (name : String) (message : Message)
  | reacted (name : String) (reply : Reply)

end LiveReload.Session
