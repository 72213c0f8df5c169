import LiveReload.FileEvent.Json
import LiveReload.Reloader
import LiveReload.Roster
import LiveReload.Session.Command

namespace LiveReload

namespace Session

inductive Sink where
  | observer (name : String)
  | channel (id : Nat)
deriving DecidableEq

-- One of the reloaders, without the graph that all share.
structure Desk where
  config : Config
  turnstile : Turnstile
  roster : Roster Sink

-- A subscription, by the reloader it is held at and its identity there.
structure SubscriberKey where
  desk : Nat
  id : Nat
deriving DecidableEq

-- What a subscriber has done when it is told its first message, before the next one is told.
structure Reaction where
  subscriber : SubscriberKey
  on : Nat
  command : Command

structure Listener where
  channel : Nat
  receiver : Receiver

end Session

structure Session where
  graph : Graph := ∅
  desks : List Session.Desk := []
  tickets : Table Ticket := ∅
  subscribers : Table Session.SubscriberKey := ∅
  -- Reactions still to come.
  reactions : List Session.Reaction := []
  channels : List (Channel Message) := []
  -- The channels that can be sent to by name.
  handles : Table Nat := ∅
  listeners : Table Session.Listener := ∅
  -- Channels that notifications under way have not reached yet.
  awaiting : List Nat := []
  notes : List Session.Note := []
  log : List LogRecord := []

namespace Session

-- A channel that cannot be made ends the session.
abbrev Run := StateT Session (Except Channel.CapacityFault)

def newDesk (config : Config) : Desk := ⟨config, ∅, ∅⟩

def start (config : Config) : Except ConfigFault Session :=
  match config.validate with
  | .error fault => .error fault
  | .ok () => .ok { desks := [newDesk config] }

def note (note : Note) : Run Unit :=
  modify fun session => { session with notes := session.notes ++ [note] }

def record {α : Type} (logged : Logged α) : Run α := do
  modify fun session => { session with log := session.log ++ logged.log }
  pure logged.result

def updateDesk (index : Nat) (f : Desk → Desk) : Run Unit :=
  modify fun session => { session with desks := session.desks.modify index f }

-- The reloader at a desk, with the graph as it is now.
def reloaderAt (session : Session) (desk : Desk) : Reloader :=
  ⟨desk.config, session.graph, desk.turnstile⟩

def store (on : Nat) (reloader : Reloader) : Run Unit := do
  modify fun session => { session with graph := reloader.graph }
  updateDesk on fun desk => { desk with turnstile := reloader.turnstile }

section Channels

-- Somebody can still send as long as the channel has a name, is subscribed or is about to be told.
def isOpen (session : Session) (id : Nat) : Bool :=
  session.handles.values.contains id ||
    session.desks.any (fun desk => desk.roster.subscriptions.any (·.sink = .channel id)) ||
    session.awaiting.contains id

def sendTo (id : Nat) (message : Message) : Run Unit := do
  let session ← get
  match session.channels[id]? with
  | none => pure ()
  | some channel =>
    match channel.send message with
    | some channel => set { session with channels := session.channels.set id channel }
    | none => record (Logged.tell (.noClient message.cause))

def openChannel (capacity : Nat) : Run Nat := do
  let channel ← Channel.create capacity
  let session ← get
  set { session with channels := session.channels ++ [channel] }
  pure session.channels.length

def nameChannel (name : String) (id : Nat) : Run Unit :=
  modify fun session => { session with handles := session.handles.insert name id }

def dropListener (name : String) : Run Bool := do
  let session ← get
  match session.listeners.get? name with
  | none => pure false
  | some listener =>
    set { session with
      listeners := session.listeners.erase name
      channels := session.channels.modify listener.channel Channel.unsubscribe }
    pure true

-- A receiver of the same name is dropped, but only after the new one is there.
def listen (id : Nat) (name : String) : Run Reply := do
  let session ← get
  match session.channels[id]? with
  | none => pure .nothing
  | some channel =>
    let (receiver, channel) := channel.subscribe
    set { session with channels := session.channels.set id channel }
    let _ ← dropListener name
    modify fun session =>
      { session with listeners := session.listeners.insert name ⟨id, receiver⟩ }
    let session ← get
    pure (.count ((session.channels[id]?.map Channel.receivers).getD 0))

def receive (name : String) : Run Reply := do
  let session ← get
  match session.listeners.get? name with
  | none => pure .nothing
  | some listener =>
    match session.channels[listener.channel]? with
    | none => pure .nothing
    | some channel =>
      let (reception, receiver) :=
        channel.receive (session.isOpen listener.channel) listener.receiver
      set { session with
        listeners := session.listeners.insert name { listener with receiver := receiver } }
      pure (.reception reception)

end Channels

section Subscribers

def addSubscriber (on : Nat) (sink : Sink) : Run SubscriberKey := do
  let session ← get
  match session.desks[on]? with
  | none => pure ⟨on, 0⟩
  | some desk =>
    let (id, roster) := desk.roster.add sink
    updateDesk on fun desk => { desk with roster := roster }
    pure ⟨on, id⟩

def nameSubscriber (name : String) (key : SubscriberKey) : Run Unit :=
  modify fun session => { session with subscribers := session.subscribers.insert name key }

-- A subscriber can only be removed at the reloader that it subscribed to.
def removeSubscriber (on : Nat) (key : SubscriberKey) : Run Bool := do
  let session ← get
  match session.desks[on]? with
  | none => pure false
  | some desk =>
    if key.desk = on then
      updateDesk on fun desk => { desk with roster := desk.roster.remove key.id }
      pure (desk.roster.contains key.id)
    else pure false

-- The reaction of a subscriber that has not been told anything before.
def takeReaction (key : SubscriberKey) : Run (Option Reaction) := do
  let session ← get
  match session.reactions.find? (·.subscriber = key) with
  | none => pure none
  | some reaction =>
    set { session with reactions := session.reactions.filter (·.subscriber ≠ key) }
    pure (some reaction)

def channelOf? : Sink → Option Nat
  | .observer _ => none
  | .channel id => some id

-- `react` carries a command out on behalf of a subscriber.
def deliver (react : Nat → Command → Run Reply) (on : Nat) (message : Message)
    (subscription : Subscription Sink) : Run Unit :=
  match subscription.sink with
  | .channel id => do
    sendTo id message
    modify fun session => { session with awaiting := session.awaiting.erase id }
  | .observer name => do
    note (.told name message)
    match ← takeReaction ⟨on, subscription.id⟩ with
    | none => pure ()
    | some reaction =>
      let reply ← react reaction.on reaction.command
      note (.reacted name reply)

def notify (react : Nat → Command → Run Reply) (on : Nat) (message : Message) : Run Unit := do
  let session ← get
  match session.desks[on]? with
  | none => pure ()
  | some desk =>
    let told := desk.roster.subscriptions.filterMap fun subscription => channelOf? subscription.sink
    set { session with awaiting := told ++ session.awaiting }
    desk.roster.notify (deliver react on message)

-- Takes over the state that a call of a reloader led to and tells its subscribers.
def settle (react : Nat → Command → Run Reply) (on : Nat) (logged : Logged Reloader.Response) :
    Run Reply := do
  let response ← record logged
  store on response.reloader
  match response.message with
  | none => pure .nothing
  | some message =>
    notify react on message
    pure (.message message)

end Subscribers

def verdictReply : Except UnknownResource Verdict → Reply
  | .ok verdict => .verdict verdict
  | .error fault => .unknownResource fault

def addReloader (config : Config) : Run Reply := do
  match config.validate with
  | .error fault => pure (.invalidConfig fault)
  | .ok () =>
    let session ← get
    set { session with desks := session.desks ++ [newDesk config] }
    pure (.count session.desks.length)

-- Carries out one command at the desk `on`.
def perform (react : Nat → Command → Run Reply) (on : Nat) (desk : Desk) :
    Command → Run Reply
  | .declare url declaration => do
    let session ← get
    settle react on ((session.reloaderAt desk).declare url declaration)
  | .begin url name => do
    let session ← get
    let (ticket, reloader) := (session.reloaderAt desk).begin url
    store on reloader
    modify fun session => { session with tickets := session.tickets.insert name ticket }
    pure (.ticket ticket)
  | .finish name declaration => do
    let session ← get
    match session.tickets.get? name with
    | none => pure .badCommand
    | some ticket => settle react on ((session.reloaderAt desk).finish ticket declaration)
  | .fileEvent url kind => do
    match FileEvent.Kind.ofValue kind with
    | .error problem => pure (.problem problem)
    | .ok kind =>
      let session ← get
      settle react on ((session.reloaderAt desk).fileChanged ⟨url, kind⟩)
  | .remove url => do
    let session ← get
    let (orphaned, reloader) ← record ((session.reloaderAt desk).remove url)
    store on reloader
    pure (.urls orphaned)
  | .verdict url => do
    let session ← get
    verdictReply <$> record (session.graph.verdictAtLogged url)
  | .relative url => pure (.text (Url.relativeTo desk.config.rootUrl url))
  | .config => pure (.config desk.config)
  | .declareQuietly url declaration => do
    let session ← get
    let change ← record (session.graph.declare url declaration)
    modify fun session => { session with graph := change.graph }
    pure (.urls change.orphaned)
  | .removeQuietly url => do
    let session ← get
    let change ← record (session.graph.remove url)
    modify fun session => { session with graph := change.graph }
    pure (.urls change.orphaned)
  | .addReloader config => addReloader config
  | .subscribe name => do
    let key ← addSubscriber on (.observer name)
    nameSubscriber name key
    pure .nothing
  | .subscribeReacting name target reaction => do
    let key ← addSubscriber on (.observer name)
    nameSubscriber name key
    modify fun session => { session with reactions := session.reactions ++ [⟨key, target, reaction⟩] }
    pure .nothing
  | .unsubscribe name => do
    let session ← get
    match session.subscribers.get? name with
    | none => pure .nothing
    | some key => .flag <$> removeSubscriber on key
  | .broadcast name => do
    let id ← openChannel desk.config.channelCapacity.toNat
    let _ ← addSubscriber on (.channel id)
    nameChannel name id
    pure .nothing
  | .attach name capacity => do
    let id ← openChannel capacity
    let key ← addSubscriber on (.channel id)
    nameSubscriber name key
    nameChannel name id
    pure .nothing
  | .dropChannel name => do
    let session ← get
    set { session with handles := session.handles.erase name }
    pure (.flag (session.handles.contains name))
  | .send name message => do
    let session ← get
    match session.handles.get? name with
    | none => pure (.flag false)
    | some id =>
      sendTo id message
      pure (.flag true)
  | .listen channel receiver => do
    let session ← get
    match session.handles.get? channel with
    | none => pure .nothing
    | some id => listen id receiver
  | .receiverCount name => do
    let session ← get
    match (session.handles.get? name).bind (session.channels[·]?) with
    | none => pure .nothing
    | some channel => pure (.count channel.receivers)
  | .dropReceiver name => .flag <$> dropListener name
  | .receive name => receive name

-- At most `depth` reactions are under way at a time.
def run : (depth : Nat) → (on : Nat) → Command → Run Reply
  | 0, on, command => runAt (fun _ _ => pure .badCommand) on command
  | depth + 1, on, command => runAt (run depth) on command
where
  runAt (react : Nat → Command → Run Reply) (on : Nat) (command : Command) : Run Reply := do
    let session ← get
    match session.desks[on]? with
    | none => pure .badCommand
    | some desk => perform react on desk command

-- Reactions that are waiting for a first message, with those written into them. Reactions nest, but
-- each is carried out once, so their number bounds the nesting.
def pendingReactions (session : Session) : Nat :=
  session.reactions.foldl (fun pending reaction => pending + reaction.command.reactions + 1) 0

structure Answer where
  reply : Reply
  notes : List Note
  log : List LogRecord

-- Carries a command out and tells what happened meanwhile.
def step (session : Session) (on : Nat) (command : Command) :
    Except Channel.CapacityFault (Answer × Session) := do
  let depth := session.pendingReactions + command.reactions
  let (reply, session) ← (run depth on command).run { session with notes := [], log := [] }
  pure (⟨reply, session.notes, session.log⟩, session)

end Session

end LiveReload
