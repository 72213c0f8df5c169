import LiveReload.Announcement
import LiveReload.Config
import LiveReload.Graph.Edges
import LiveReload.Turnstile

namespace LiveReload

structure Reloader where
  config : Config
  graph : Graph
  turnstile : Turnstile

namespace Reloader

-- The state after a call and the message to deliver, if there is one.
structure Response where
  reloader : Reloader
  message : Option Message

def empty (config : Config) : Reloader := ⟨config, ∅, ∅⟩

def silent (reloader : Reloader) : Logged Response := pure ⟨reloader, none⟩

def say (reloader : Reloader) (message : Message) : Logged Response := do
  Logged.tell (.sendingReload message.kind.name message.cause message.updates.length)
  pure ⟨reloader, some message⟩

def sayAny (reloader : Reloader) : Option Message → Logged Response
  | some message => reloader.say message
  | none => reloader.silent

-- Every parse of `url` begins with a ticket.
def begin (reloader : Reloader) (url : Url) : Ticket × Reloader :=
  let (ticket, turnstile) := reloader.turnstile.issue url
  (ticket, { reloader with turnstile := turnstile })

-- Whether clients are told of resources that an edit orphaned.
def tellsOf (reloader : Reloader) (orphaned : List Url) : Bool :=
  !orphaned.isEmpty && reloader.config.pruneNotifications

-- Takes in what the parse begun with `ticket` found, unless a newer one was there first.
def finish (reloader : Reloader) (ticket : Ticket) (declaration : Declaration) :
    Logged Response := do
  let (fresh, turnstile) ← reloader.turnstile.pass ticket
  let reloader := { reloader with turnstile := turnstile }
  if fresh then
    let change ← reloader.graph.declare ticket.url declaration
    let reloader := { reloader with graph := change.graph }
    if reloader.tellsOf change.orphaned then
      match ← Message.ofOrphans reloader.config.rootUrl change.graph ticket.url change.orphaned with
      | .ok message => reloader.sayAny message
      | .error fault =>
        Logged.tell (.pruneSkipped fault)
        reloader.silent
    else reloader.silent
  else reloader.silent

-- Begins a parse and finishes it at once.
def declare (reloader : Reloader) (url : Url) (declaration : Declaration) : Logged Response :=
  let (ticket, reloader) := reloader.begin url
  reloader.finish ticket declaration

-- What a change of a registered resource means to clients.
def announce (reloader : Reloader) (event : FileEvent) : Logged (Option Message) := do
  match ← reloader.graph.verdictAtLogged event.url with
  | .ok verdict =>
    let root := reloader.config.rootUrl
    pure (some (.ofVerdict root reloader.graph (Message.changeCause root event) verdict))
  | .error _ =>
    Logged.tell (.unknownResource event)
    pure none

-- A removed file stays registered, since others may still reference it, but references nothing.
def fileRemoved (reloader : Reloader) (event : FileEvent) : Logged Response := do
  if reloader.graph.contains event.url then
    let change ← reloader.graph.declare event.url { dependencies := some [] }
    let reloader := { reloader with graph := change.graph }
    let message ← reloader.announce event
    if reloader.tellsOf change.orphaned then
      reloader.sayAny <| message.map <|
        Message.addOrphans reloader.config.rootUrl change.graph event.url change.orphaned
    else reloader.sayAny message
  else
    Logged.tell (.unknownResource event)
    reloader.silent

def fileChanged (reloader : Reloader) (event : FileEvent) : Logged Response :=
  match event.kind with
  | .removed => reloader.fileRemoved event
  | .added | .modified => do
    let message ← reloader.announce event
    reloader.sayAny message

-- Takes `url` out of the graph and forgets its tickets; what that orphaned comes with the result.
def remove (reloader : Reloader) (url : Url) : Logged (List Url × Reloader) := do
  let change ← reloader.graph.remove url
  pure (change.orphaned,
    { reloader with graph := change.graph, turnstile := reloader.turnstile.forget url })

end Reloader

end LiveReload
