import LiveReload.Proofs.Channel.Tally
import LiveReload.Proofs.Session.Audience
import LiveReload.Proofs.Session.Delivery

namespace LiveReload.Session

-- Commands of a session with one reloader, whose subscribers do not react and whose channels are
-- those it made itself, with nothing sent to them but by it.
def Command.Ordinary : Command → Prop
  | .addReloader _ | .subscribeReacting .. | .unsubscribe _ | .attach .. | .send .. => False
  | _ => True

-- The receiver that a command is about.
def Command.receiver? : Command → Option String
  | .listen _ name | .dropReceiver name | .receive name => some name
  | _ => none

-- The message that an answer returns, or what the receiver `name` found.
def turn? (name : String) : Command → Reply → Option (Turn Message)
  | _, .message message => some (.sent message)
  | .receive other, .reception reception => if other = name then some (.found reception) else none
  | _, _ => none

-- The session but for its receivers, what its channels keep and what is only reported.
def front (session : Session) : Session :=
  { session with channels := [], listeners := ∅, awaiting := [], notes := [], log := [] }

structure View where
  front : Session
  channels : Nat
  -- The channel of the receiver and what it has yet to read there.
  own : Option (Nat × List Message)

variable {config : Config} {desk : Desk} {view : View} {session : Session} {name : String}
  {capacity : Nat}

structure Shows (capacity : Nat) (name : String) (view : View) (session : Session) : Prop where
  front : session.front = view.front
  length : session.channels.length = view.channels
  attended : session.Attended (Channel.slots capacity)
  absent : view.own = none → session.listeners.get? name = none
  present : ∀ id unread, view.own = some (id, unread) → session.Hears name id unread

namespace Shows

variable (h : Shows capacity name view session)

include h

theorem graph : session.graph = view.front.graph := h.front ▸ rfl

theorem desks : session.desks = view.front.desks := h.front ▸ rfl

theorem tickets : session.tickets = view.front.tickets := h.front ▸ rfl

theorem reactions : session.reactions = view.front.reactions := h.front ▸ rfl

theorem handles : session.handles = view.front.handles := h.front ▸ rfl

theorem reloaderAt (desk : Desk) : session.reloaderAt desk = view.front.reloaderAt desk := by
  rw [Session.reloaderAt, h.graph]
  rfl

-- Where the channels and their receivers stay, only the front of the view changes.
theorem of_front {later front : Session} (hf : later.front = front)
    (hc : later.channels = session.channels) (hl : later.listeners = session.listeners) :
    Shows capacity name { view with front := front } later where
  front := hf
  length := hc ▸ h.length
  attended := h.attended.congr hc hl
  absent := fun ho => hl ▸ h.absent ho
  present := fun id unread ho => (h.present id unread ho).congr hc hl

end Shows

-- One reloader, all whose channels are on its roster, and nobody who reacts.
structure View.Plain (config : Config) (desk : Desk) (view : View) : Prop where
  desks : view.front.desks = [desk]
  config : desk.config = config
  roster : channelsOf desk.roster = List.range view.channels
  reactions : view.front.reactions = []

-- In whatever session the view shows, the command leads to one that `next` shows, with this turn.
def Moves (capacity : Nat) (name : String) (desk : Desk) (view : View) (command : Command)
    (next : View) (turn : Option (Turn Message)) : Prop :=
  ∀ react session, Shows capacity name view session →
    ∃ reply later, (perform react 0 desk command).run session = .ok (reply, later) ∧
      Shows capacity name next later ∧ turn? name command reply = turn

-- The view after a call of the reloader that led to `front` and returned `message`, if any.
def View.told (view : View) (front : Session) (message : Option Message) : View where
  front := front
  channels := view.channels
  own := view.own.map fun own => (own.1, own.2 ++ message.toList)

@[simp] theorem View.told_none (view : View) (front : Session) :
    view.told front none = { view with front := front } := by
  simp [View.told]

theorem Shows.told (h : Shows capacity name view session) {later front : Session}
    {message : Option Message} (hf : later.front = front)
    (hc : later.channels = message.elim session.channels fun message =>
      session.channels.map (Channel.deliver message))
    (hl : later.listeners = session.listeners) :
    Shows capacity name (view.told front message) later := by
  cases message with
  | none =>
      rw [View.told_none]
      exact h.of_front hf hc hl
  | some message =>
      refine ⟨hf, ?_, h.attended.publish hc hl, fun ho => ?_, fun id unread ho => ?_⟩
      · rw [hc, Option.elim_some, List.length_map, h.length, View.told]
      · rw [hl]
        exact h.absent (Option.map_eq_none_iff.mp ho)
      · obtain ⟨⟨joined, before⟩, hb, he⟩ := Option.map_eq_some_iff.mp ho
        cases he
        exact (h.present joined before hb).publish h.attended hc hl

-- The name stands for a channel.
def View.Names (view : View) (channel : String) : Prop :=
  ∃ id, view.front.handles.get? channel = some id ∧ id < view.channels

-- The receiver is neither dropped nor replaced.
def Command.Spares (name : String) (command : Command) : Prop :=
  command ≠ .dropReceiver name ∧ ∀ channel, command ≠ .listen channel name

-- Whether the command is about no receiver of another name.
def Command.minds (name : String) (command : Command) : Bool := command.receiver?.all (· = name)

-- What becomes of the view by a command.
structure Follows (config : Config) (name : String) (desk : Desk) (view : View) (command : Command)
    (next : View) (turn : Option (Turn Message)) : Prop where
  moves : Moves config.channelCapacity.toNat name desk view command next turn
  plain : ∃ desk, next.Plain config desk
  named : ∀ channel, view.Names channel → command ≠ .dropChannel channel → next.Names channel
  opened : ∀ channel, command = .broadcast channel → next.Names channel
  seated : ∀ channel, command = .listen channel name → view.Names channel →
    ∃ id, next.own = some (id, [])
  reads : command.Spares name → ∀ id unread, view.own = some (id, unread) →
    ∃ rest, next.own = some (id, rest) ∧
      Channel.Reads (Channel.slots config.channelCapacity.toNat) unread turn.toList rest
  answered : command = .receive name → view.own ≠ none → ∃ reception, turn = some (.found reception)
  found : ∀ reception, turn = some (.found reception) → command = .receive name
  unmoved : command.minds name = false → next = view ∧ turn = none

section Told

variable (h : view.Plain config desk) {command : Command}

include h

-- Commands that are about no receiver reach it by the message that they return, if at all.
theorem exists_follows_of_told (later : Desk) (front : Session) (message : Option Message)
    (hd : front.desks = [later]) (hc : later.config = desk.config)
    (hr : channelsOf later.roster = channelsOf desk.roster)
    (hreact : front.reactions = view.front.reactions)
    (hh : ∀ channel, command ≠ .dropChannel channel →
      front.handles.get? channel = view.front.handles.get? channel)
    (hnone : command.receiver? = none) (hb : ∀ channel, command ≠ .broadcast channel)
    (hm : Moves config.channelCapacity.toNat name desk view command (view.told front message)
      (message.map .sent)) :
    ∃ next turn, Follows config name desk view command next turn := by
  refine ⟨view.told front message, message.map .sent, {
    moves := hm
    plain := ⟨later, hd, hc.trans h.config, hr.trans h.roster, hreact.trans h.reactions⟩
    named := ?_
    opened := fun channel he => absurd he (hb channel)
    seated := ?_
    reads := ?_
    answered := ?_
    found := ?_
    unmoved := ?_ }⟩
  · rintro channel ⟨id, hg, hi⟩ hdrop
    exact ⟨id, (hh channel hdrop).trans hg, hi⟩
  · rintro channel rfl
    cases hnone
  · intro _ id unread ho
    refine ⟨unread ++ message.toList, by rw [View.told, ho]; rfl, ?_⟩
    cases message with
    | none =>
        rw [Option.toList_none, List.append_nil]
        exact .done unread
    | some message => exact .sent message (.done _)
  · rintro rfl
    cases hnone
  · intro reception he
    cases message <;> cases he
  · intro ho
    rw [Command.minds, hnone] at ho
    cases ho

theorem exists_follows_of_settle (logged : Logged Reloader.Response)
    (hnone : command.receiver? = none) (hb : ∀ channel, command ≠ .broadcast channel)
    (hp : ∀ react session, Shows config.channelCapacity.toNat name view session →
      (perform react 0 desk command).run session = (settle react 0 logged).run session) :
    ∃ next turn, Follows config name desk view command next turn := by
  refine exists_follows_of_told h { desk with turnstile := logged.result.reloader.turnstile }
    { view.front with
      graph := logged.result.reloader.graph
      desks := [{ desk with turnstile := logged.result.reloader.turnstile }] }
    logged.result.message rfl rfl rfl rfl (fun _ _ => rfl) hnone hb ?_
  intro react session hs
  have hroster : channelsOf desk.roster = List.range session.channels.length := by
    rw [hs.length, h.roster]
  obtain ⟨awaiting, notes, log, hrun⟩ := run_settle react session (hs.desks.trans h.desks)
    (hs.reactions.trans h.reactions) hroster logged
  refine ⟨_, _, (hp react session hs).trans hrun, hs.told ?_ rfl rfl, ?_⟩
  · rw [← hs.front]
    rfl
  · cases logged.result.message <;> cases command <;> rfl

theorem exists_follows_of_front (later : Desk) (front : Session)
    (hd : front.desks = [later]) (hc : later.config = desk.config)
    (hr : channelsOf later.roster = channelsOf desk.roster)
    (hreact : front.reactions = view.front.reactions)
    (hh : ∀ channel, command ≠ .dropChannel channel →
      front.handles.get? channel = view.front.handles.get? channel)
    (hnone : command.receiver? = none) (hb : ∀ channel, command ≠ .broadcast channel)
    (hp : ∀ react session, Shows config.channelCapacity.toNat name view session →
      ∃ reply later, (perform react 0 desk command).run session = .ok (reply, later) ∧
        later.front = front ∧ later.channels = session.channels ∧
        later.listeners = session.listeners ∧ turn? name command reply = none) :
    ∃ next turn, Follows config name desk view command next turn := by
  refine exists_follows_of_told h later front none hd hc hr hreact hh hnone hb ?_
  intro react session hs
  obtain ⟨reply, later, hrun, hf, hch, hl, ht⟩ := hp react session hs
  exact ⟨reply, later, hrun, hs.told hf hch hl, ht⟩

-- A command that only looks at the session.
theorem exists_follows_of_reply
    (hnone : command.receiver? = none) (hb : ∀ channel, command ≠ .broadcast channel)
    (hp : ∀ react session, Shows config.channelCapacity.toNat name view session →
      ∃ reply log, (perform react 0 desk command).run session =
        .ok (reply, { session with log := log }) ∧ turn? name command reply = none) :
    ∃ next turn, Follows config name desk view command next turn := by
  refine exists_follows_of_front h desk view.front h.desks rfl rfl rfl (fun _ _ => rfl) hnone hb ?_
  intro react session hs
  obtain ⟨reply, log, hrun, ht⟩ := hp react session hs
  exact ⟨reply, _, hrun, hs.front, rfl, rfl, ht⟩

end Told

section Commands

variable (h : view.Plain config desk) {command : Command}

include h

theorem exists_follows_declare (url : Url) (declaration : Declaration) :
    ∃ next turn, Follows config name desk view (.declare url declaration) next turn := by
  refine exists_follows_of_settle h ((view.front.reloaderAt desk).declare url declaration) rfl
    (fun _ => nofun) fun react session hs => ?_
  rw [← hs.reloaderAt]
  rfl

theorem exists_follows_begin (url : Url) (ticket : String) :
    ∃ next turn, Follows config name desk view (.begin url ticket) next turn := by
  let begun := (view.front.reloaderAt desk).begin url
  refine exists_follows_of_front h { desk with turnstile := begun.2.turnstile }
    { view.front with
      graph := begun.2.graph
      desks := [{ desk with turnstile := begun.2.turnstile }]
      tickets := view.front.tickets.insert ticket begun.1 }
    rfl rfl rfl rfl (fun _ _ => rfl) rfl (fun _ => nofun) fun react session hs => ?_
  refine ⟨.ticket begun.1, { session with
    graph := begun.2.graph
    desks := [{ desk with turnstile := begun.2.turnstile }]
    tickets := session.tickets.insert ticket begun.1 }, ?_, by rw [← hs.front]; rfl, rfl, rfl, rfl⟩
  have hstore := run_store session (hs.desks.trans h.desks) begun.2
  have hbegun : (session.reloaderAt desk).begin url = begun := by rw [hs.reloaderAt]
  simp only [perform, StateT.run_bind, StateT.run_get, pure_bind, hbegun, hstore]
  rfl

theorem exists_follows_finish (ticket : String) (declaration : Declaration) :
    ∃ next turn, Follows config name desk view (.finish ticket declaration) next turn := by
  cases hg : view.front.tickets.get? ticket with
  | none =>
      refine exists_follows_of_reply h rfl (fun _ => nofun) fun react session hs =>
        ⟨.badCommand, session.log, ?_, rfl⟩
      have hg' : session.tickets.get? ticket = none := by rw [hs.tickets, hg]
      simp only [perform, StateT.run_bind, StateT.run_get, pure_bind, hg']
      rfl
  | some issued =>
      refine exists_follows_of_settle h ((view.front.reloaderAt desk).finish issued declaration) rfl
        (fun _ => nofun) fun react session hs => ?_
      rw [perform_finish (by rw [hs.tickets, hg]), hs.reloaderAt]

theorem exists_follows_fileEvent (url : Url) (kind : Wire.Value) :
    ∃ next turn, Follows config name desk view (.fileEvent url kind) next turn := by
  cases hk : FileEvent.Kind.ofValue kind with
  | error problem =>
      refine exists_follows_of_reply h rfl (fun _ => nofun) fun react session hs =>
        ⟨.problem problem, session.log, ?_, rfl⟩
      simp only [perform, hk]
      rfl
  | ok kind' =>
      refine exists_follows_of_settle h ((view.front.reloaderAt desk).fileChanged ⟨url, kind'⟩) rfl
        (fun _ => nofun) fun react session hs => ?_
      simp only [perform, hk]
      rw [← hs.reloaderAt]
      rfl

theorem exists_follows_remove (url : Url) :
    ∃ next turn, Follows config name desk view (.remove url) next turn := by
  let removed := (view.front.reloaderAt desk).remove url
  refine exists_follows_of_front h { desk with turnstile := removed.result.2.turnstile }
    { view.front with
      graph := removed.result.2.graph
      desks := [{ desk with turnstile := removed.result.2.turnstile }] }
    rfl rfl rfl rfl (fun _ _ => rfl) rfl (fun _ => nofun) fun react session hs => ?_
  refine ⟨.urls removed.result.1, { session with
    graph := removed.result.2.graph
    desks := [{ desk with turnstile := removed.result.2.turnstile }]
    log := session.log ++ removed.log }, ?_, by rw [← hs.front]; rfl, rfl, rfl, rfl⟩
  have hstore := run_store { session with log := session.log ++ removed.log }
    (hs.desks.trans h.desks) removed.result.2
  have hrun : (perform react 0 desk (.remove url)).run session =
      (do store 0 removed.result.2; pure (.urls removed.result.1) : Run Reply).run
        { session with log := session.log ++ removed.log } := by
    have hremoved : (session.reloaderAt desk).remove url = removed := by rw [hs.reloaderAt]
    rw [← hremoved]
    rfl
  rw [hrun, StateT.run_bind, hstore]
  rfl

-- Edits of the graph that the reloader does not get to know of.
theorem exists_follows_of_edit (change : Graph → Logged Graph.Change)
    (hnone : command.receiver? = none) (hb : ∀ channel, command ≠ .broadcast channel)
    (hp : ∀ react session, (perform react 0 desk command).run session =
      .ok (.urls (change session.graph).result.orphaned, { session with
        graph := (change session.graph).result.graph
        log := session.log ++ (change session.graph).log })) :
    ∃ next turn, Follows config name desk view command next turn := by
  refine exists_follows_of_front h desk
    { view.front with graph := (change view.front.graph).result.graph }
    h.desks rfl rfl rfl (fun _ _ => rfl) hnone hb fun react session hs => ?_
  refine ⟨_, _, hp react session, by rw [← hs.front]; rfl, rfl, rfl, ?_⟩
  cases command <;> rfl

theorem exists_follows_subscribe (subscriber : String) :
    ∃ next turn, Follows config name desk view (.subscribe subscriber) next turn := by
  refine exists_follows_of_front h
    { desk with roster := (desk.roster.add (.observer subscriber)).2 }
    { view.front with
      desks := [{ desk with roster := (desk.roster.add (.observer subscriber)).2 }]
      subscribers := view.front.subscribers.insert subscriber ⟨0, desk.roster.nextId⟩ }
    rfl rfl ?_ rfl (fun _ _ => rfl) rfl (fun _ => nofun) fun react session hs => ?_
  · simp [channelsOf, Roster.add, channelOf?]
  · refine ⟨.nothing, { session with
      desks := [{ desk with roster := (desk.roster.add (.observer subscriber)).2 }]
      subscribers := session.subscribers.insert subscriber ⟨0, desk.roster.nextId⟩ }, ?_,
      by rw [← hs.front]; rfl, rfl, rfl, rfl⟩
    have hadd := run_addSubscriber session (hs.desks.trans h.desks) (.observer subscriber)
    simp only [perform, StateT.run_bind, hadd]
    rfl

theorem exists_follows_dropChannel (channel : String) :
    ∃ next turn, Follows config name desk view (.dropChannel channel) next turn := by
  refine exists_follows_of_front h desk
    { view.front with handles := view.front.handles.erase channel }
    h.desks rfl rfl rfl (fun other hne => ?_) rfl (fun _ => nofun) fun react session hs => ?_
  · have ho : other ≠ channel := fun he => hne (by rw [he])
    exact (Table.get?_erase _ _ _).trans (if_neg ho)
  · exact ⟨_, { session with handles := session.handles.erase channel }, rfl,
      by rw [← hs.front]; rfl, rfl, rfl, rfl⟩

theorem exists_follows_receiverCount (channel : String) :
    ∃ next turn, Follows config name desk view (.receiverCount channel) next turn := by
  refine exists_follows_of_reply h rfl (fun _ => nofun) fun react session hs => ?_
  cases hg : (session.handles.get? channel).bind (session.channels[·]?) with
  | none =>
      refine ⟨.nothing, session.log, ?_, rfl⟩
      simp only [perform, StateT.run_bind, StateT.run_get, pure_bind, hg]
      rfl
  | some found =>
      refine ⟨.count found.receivers, session.log, ?_, rfl⟩
      simp only [perform, StateT.run_bind, StateT.run_get, pure_bind, hg]
      rfl

theorem exists_follows_broadcast (hp : Channel.Possible config.channelCapacity.toNat)
    (channel : String) :
    ∃ next turn, Follows config name desk view (.broadcast channel) next turn := by
  let joined : Desk := { desk with roster := (desk.roster.add (.channel view.channels)).2 }
  let next : View := {
    front := { view.front with
      desks := [joined]
      handles := view.front.handles.insert channel view.channels }
    channels := view.channels + 1
    own := view.own }
  have hroster : channelsOf joined.roster = List.range (view.channels + 1) := by
    rw [List.range_succ, ← h.roster]
    simp [joined, channelsOf, Roster.add, channelOf?]
  refine ⟨next, none, {
    moves := ?_
    plain := ⟨joined, rfl, h.config, hroster, h.reactions⟩
    named := ?_
    opened := ?_
    seated := fun _ he => by cases he
    reads := ?_
    answered := fun he => by cases he
    found := fun _ he => by cases he
    unmoved := fun he => by cases he }⟩
  · intro react session hs
    let opened : List (Channel Message) :=
      session.channels ++ [⟨Channel.slots config.channelCapacity.toNat, [], 0, 0⟩]
    refine ⟨.nothing, { session with
      channels := opened
      desks := [joined]
      handles := session.handles.insert channel view.channels }, ?_, ?_, rfl⟩
    · have hopen := run_openChannel session hp
      rw [hs.length] at hopen
      have hadd := run_addSubscriber { session with channels := opened }
        (hs.desks.trans h.desks) (.channel view.channels)
      simp only [perform, h.config, StateT.run_bind, hopen]
      show (do
        let _ ← addSubscriber 0 (.channel view.channels)
        nameChannel channel view.channels
        pure .nothing : Run Reply).run { session with channels := opened } = _
      rw [StateT.run_bind, hadd]
      rfl
    · refine ⟨?_, ?_, hs.attended.open rfl rfl, hs.absent, fun id unread ho =>
        (hs.present id unread ho).open rfl rfl⟩
      · show ({ session.front with
          desks := [joined]
          handles := session.handles.insert channel view.channels } : Session) = next.front
        rw [hs.handles, hs.front]
      · rw [List.length_append, hs.length]
        rfl
  · rintro other ⟨id, hg, hi⟩ -
    by_cases ho : other = channel
    · exact ⟨view.channels, (Table.get?_insert _ _ _ _).trans (if_pos ho), Nat.lt_succ_self _⟩
    · exact ⟨id, ((Table.get?_insert _ _ _ _).trans (if_neg ho)).trans hg, Nat.lt_succ_of_lt hi⟩
  · rintro other he
    cases he
    exact ⟨view.channels, (Table.get?_insert _ _ _ _).trans (if_pos rfl), Nat.lt_succ_self _⟩
  · intro _ id unread ho
    exact ⟨unread, ho, .done unread⟩

end Commands

section Receivers

variable (h : view.Plain config desk) {command : Command}

include h

-- A command about another receiver, or one that finds nothing to do.
theorem exists_follows_of_unmoved (hb : ∀ channel, command ≠ .broadcast channel)
    (hseat : ∀ channel, command = .listen channel name → ¬view.Names channel)
    (hear : command = .receive name → view.own = none)
    (hm : Moves config.channelCapacity.toNat name desk view command view none) :
    ∃ next turn, Follows config name desk view command next turn :=
  ⟨view, none, {
    moves := hm
    plain := ⟨desk, h⟩
    named := fun _ hn _ => hn
    opened := fun channel he => absurd he (hb channel)
    seated := fun channel he hn => absurd hn (hseat channel he)
    reads := fun _ _ unread ho => ⟨unread, ho, .done unread⟩
    answered := fun he ho => absurd (hear he) ho
    found := nofun
    unmoved := fun _ => ⟨rfl, rfl⟩ }⟩

theorem exists_follows_dropReceiver (receiver : String) :
    ∃ next turn, Follows config name desk view (.dropReceiver receiver) next turn := by
  have hrun : ∀ react session, (perform react 0 desk (.dropReceiver receiver)).run session =
      .ok (.flag (session.listeners.get? receiver).isSome, session.leave receiver) := by
    intro react session
    simp only [perform, StateT.run_map, run_dropListener]
    rfl
  have hlength := fun session : Session => length_leave session receiver
  by_cases hr : receiver = name
  · subst receiver
    refine ⟨{ view with own := none }, none, {
      moves := fun react session hs => ?_
      plain := ⟨desk, h.desks, h.config, h.roster, h.reactions⟩
      named := fun _ hn _ => hn
      opened := fun _ he => by cases he
      seated := fun _ he => by cases he
      reads := fun hspare => absurd rfl hspare.1
      answered := fun he => by cases he
      found := fun _ he => by cases he
      unmoved := fun ho => ?_ }⟩
    · refine ⟨_, _, hrun react session, ⟨hs.front, (hlength session).trans hs.length,
        hs.attended.leave name, fun _ => ?_, (by simp)⟩, rfl⟩
      rw [get?_listeners_leave, if_pos rfl]
    · simp [Command.minds, Command.receiver?] at ho
  · refine exists_follows_of_unmoved h (by simp) (by simp) (by simp)
      fun react session hs => ?_
    refine ⟨_, _, hrun react session, ⟨hs.front, (hlength session).trans hs.length,
      hs.attended.leave receiver, fun ho => ?_,
      fun id unread ho => (hs.present id unread ho).leave (Ne.symm hr)⟩, rfl⟩
    rw [get?_listeners_leave, if_neg (Ne.symm hr), hs.absent ho]

theorem exists_follows_listen (channel receiver : String) :
    ∃ next turn, Follows config name desk view (.listen channel receiver) next turn := by
  by_cases hnames : view.Names channel
  · obtain ⟨id, hg, hi⟩ := hnames
    have hrun : ∀ react session, Shows config.channelCapacity.toNat name view session →
        ∃ joined count, session.channels[id]? = some joined ∧
          (perform react 0 desk (.listen channel receiver)).run session =
            .ok (.count count, session.seat id joined receiver) := by
      intro react session hs
      have hlt : id < session.channels.length := hs.length ▸ hi
      have hg' : session.handles.get? channel = some id := by rw [hs.handles, hg]
      have hc := List.getElem?_eq_getElem hlt
      obtain ⟨count, hlisten⟩ := run_listen hc receiver
      refine ⟨_, count, hc, ?_⟩
      simp only [perform, StateT.run_bind, StateT.run_get, pure_bind, hg']
      exact hlisten
    by_cases hr : receiver = name
    · subst receiver
      refine ⟨{ view with own := some (id, []) }, none, {
        moves := fun react session hs => ?_
        plain := ⟨desk, h.desks, h.config, h.roster, h.reactions⟩
        named := fun _ hn _ => hn
        opened := fun _ he => by cases he
        seated := fun _ _ _ => ⟨id, rfl⟩
        reads := fun hspare => absurd rfl (hspare.2 channel)
        answered := fun he => by cases he
        found := fun _ he => by cases he
        unmoved := fun ho => ?_ }⟩
      · obtain ⟨joined, count, hc, hlisten⟩ := hrun react session hs
        refine ⟨_, _, hlisten, ⟨hs.front, (length_seat hc).trans hs.length,
          hs.attended.seat hc name, (by simp), fun _ _ ho => ?_⟩, rfl⟩
        cases ho
        exact hears_seat hs.attended hc
      · simp [Command.minds, Command.receiver?] at ho
    · refine exists_follows_of_unmoved h (by simp) (fun _ he => ?_) (by simp)
        fun react session hs => ?_
      · cases he
        exact absurd rfl hr
      · obtain ⟨joined, count, hc, hlisten⟩ := hrun react session hs
        refine ⟨_, _, hlisten, ⟨hs.front, (length_seat hc).trans hs.length,
          hs.attended.seat hc receiver, fun ho => ?_,
          fun _ _ ho => (hs.present _ _ ho).seat (Ne.symm hr) hc⟩, rfl⟩
        rw [get?_listeners_seat, if_neg (Ne.symm hr), hs.absent ho]
  · refine exists_follows_of_unmoved h (by simp) (fun _ he => ?_) (by simp)
      fun react session hs => ?_
    · cases he
      exact hnames
    · -- The name stands for no channel, so nothing happens.
      refine ⟨.nothing, session, ?_, hs, rfl⟩
      cases hg : session.handles.get? channel with
      | none =>
          simp only [perform, StateT.run_bind, StateT.run_get, pure_bind, hg]
          rfl
      | some id =>
          have hi : ¬id < session.channels.length := fun hi =>
            hnames ⟨id, by rw [← hs.handles, hg], hs.length ▸ hi⟩
          have hc := List.getElem?_eq_none (Nat.le_of_not_lt hi)
          simp only [perform, listen, StateT.run_bind, StateT.run_get, pure_bind, hg, hc]
          rfl

-- The reloader itself can still send to any of the channels.
theorem isOpen_of_shows (hs : Shows capacity name view session) {id : Nat}
    (hi : id < session.channels.length) : session.isOpen id = true := by
  have hm : id ∈ channelsOf desk.roster := by
    rw [h.roster, List.mem_range, ← hs.length]
    exact hi
  obtain ⟨subscription, hsub, hsink⟩ := List.mem_filterMap.mp hm
  have hchannel : subscription.sink = .channel id := by
    cases hk : subscription.sink with
    | observer name =>
        rw [hk] at hsink
        cases hsink
    | channel other =>
        rw [hk] at hsink
        cases hsink
        rfl
  have hany : session.desks.any
      (fun desk => desk.roster.subscriptions.any (·.sink = .channel id)) = true := by
    rw [hs.desks, h.desks, List.any_cons, List.any_nil, Bool.or_false]
    exact List.any_eq_true.mpr ⟨subscription, hsub, by simpa using hchannel⟩
  rw [isOpen, hany, Bool.or_true, Bool.true_or]

theorem exists_follows_receive (receiver : String) :
    ∃ next turn, Follows config name desk view (.receive receiver) next turn := by
  by_cases hr : receiver = name
  · subst receiver
    cases ho : view.own with
    | none =>
        refine exists_follows_of_unmoved h (by simp) (by simp) (fun _ => ho)
          fun react session hs => ?_
        refine ⟨.nothing, session, ?_, hs, rfl⟩
        simp only [perform, receive, StateT.run_bind, StateT.run_get, pure_bind, hs.absent ho]
        rfl
    | some own =>
        obtain ⟨id, unread⟩ := own
        let found := Channel.read (Channel.slots config.channelCapacity.toNat) unread
        refine ⟨{ view with own := some (id, found.2) }, some (.found found.1), {
          moves := ?_
          plain := ⟨desk, h.desks, h.config, h.roster, h.reactions⟩
          named := fun _ hn _ => hn
          opened := fun _ he => by cases he
          seated := fun _ he => by cases he
          reads := fun _ id' unread' ho' => ?_
          answered := fun _ _ => ⟨found.1, rfl⟩
          found := fun _ _ => rfl
          unmoved := fun ho' => ?_ }⟩
        · intro react session hs
          have hears := hs.present id unread ho
          have hlt : id < session.channels.length := by
            obtain ⟨channel, -, hc, -⟩ := hears
            exact (List.getElem?_eq_some_iff.mp hc).1
          obtain ⟨receiver, next, hg, hrun, hnext⟩ :=
            hears.receive hs.attended (isOpen_of_shows h hs hlt)
          refine ⟨_, _, hrun, ⟨hs.front, hs.length, hs.attended.advance hg next, (by simp),
            fun _ _ ho' => ?_⟩, if_pos rfl⟩
          cases ho'
          exact hnext
        · rw [ho] at ho'
          cases ho'
          exact ⟨found.2, rfl, .found (.done _)⟩
        · simp [Command.minds, Command.receiver?] at ho'
  · refine exists_follows_of_unmoved h (by simp) (by simp) (fun he => ?_)
      fun react session hs => ?_
    · cases he
      exact absurd rfl hr
    cases hg : session.listeners.get? receiver with
    | none =>
        refine ⟨.nothing, session, ?_, hs, rfl⟩
        simp only [perform, receive, StateT.run_bind, StateT.run_get, pure_bind, hg]
        rfl
    | some listener =>
        obtain ⟨id, position⟩ := listener
        have hlt := hs.attended.placed receiver _ hg
        have hc := List.getElem?_eq_getElem hlt
        have hrun := run_receive hg hc (isOpen_of_shows h hs hlt)
        refine ⟨_, _, hrun, ⟨hs.front, hs.length, hs.attended.advance hg _, fun ho => ?_,
          fun _ _ ho => (hs.present _ _ ho).advance (Ne.symm hr) _⟩, if_neg hr⟩
        rw [advance, Table.get?_insert, if_neg (Ne.symm hr), hs.absent ho]

end Receivers

-- Whatever else the session holds, the view after an ordinary command depends on the view alone.
theorem exists_follows (h : view.Plain config desk)
    (hp : Channel.Possible config.channelCapacity.toNat) {command : Command}
    (hc : command.Ordinary) (name : String) :
    ∃ next turn, Follows config name desk view command next turn := by
  cases command with
  | declare url declaration => exact exists_follows_declare h url declaration
  | begin url ticket => exact exists_follows_begin h url ticket
  | finish ticket declaration => exact exists_follows_finish h ticket declaration
  | fileEvent url kind => exact exists_follows_fileEvent h url kind
  | remove url => exact exists_follows_remove h url
  | verdict url =>
      refine exists_follows_of_reply h rfl (fun _ => nofun) fun react session hs =>
        ⟨verdictReply (session.graph.verdictAtLogged url).result, _, rfl, ?_⟩
      cases (session.graph.verdictAtLogged url).result <;> rfl
  | relative url =>
      exact exists_follows_of_reply h rfl (fun _ => nofun) fun react session hs => ⟨_, _, rfl, rfl⟩
  | config =>
      exact exists_follows_of_reply h rfl (fun _ => nofun) fun react session hs => ⟨_, _, rfl, rfl⟩
  | declareQuietly url declaration =>
      exact exists_follows_of_edit h (fun graph => graph.declare url declaration) rfl
        (fun _ => nofun) fun _ _ => rfl
  | removeQuietly url =>
      exact exists_follows_of_edit h (fun graph => graph.remove url) rfl (fun _ => nofun)
        fun _ _ => rfl
  | subscribe subscriber => exact exists_follows_subscribe h subscriber
  | broadcast channel => exact exists_follows_broadcast h hp channel
  | dropChannel channel => exact exists_follows_dropChannel h channel
  | listen channel receiver => exact exists_follows_listen h channel receiver
  | receiverCount channel => exact exists_follows_receiverCount h channel
  | dropReceiver receiver => exact exists_follows_dropReceiver h receiver
  | receive receiver => exact exists_follows_receive h receiver
  | _ => exact hc.elim

end LiveReload.Session
