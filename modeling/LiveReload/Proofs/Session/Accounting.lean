import LiveReload.Proofs.Session.View

namespace LiveReload.Session

open Reception (received lost)

variable {config : Config} {desk : Desk} {view next : View} {session : Session} {name : String}

def Exchange.turn? (name : String) (exchange : Exchange) : Option (Turn Message) :=
  Session.turn? name exchange.request.command exchange.answer.reply

-- The messages that the reloader returned.
def produced (exchanges : List Exchange) : List Message :=
  exchanges.filterMap fun exchange =>
    match exchange.answer.reply with
    | .message message => some message
    | _ => none

-- What the receiver `name` found.
def receptions (name : String) (exchanges : List Exchange) : List (Reception Message) :=
  exchanges.filterMap fun exchange =>
    match exchange.request.command, exchange.answer.reply with
    | .receive other, .reception reception => if other = name then some reception else none
    | _, _ => none

section Turns

variable (exchanges : List Exchange)

theorem allSent_filterMap_turn? :
    Turn.allSent (exchanges.filterMap (Exchange.turn? name)) = produced exchanges := by
  rw [Turn.allSent, List.filterMap_filterMap, produced]
  refine List.filterMap_congr fun ⟨⟨_, command⟩, ⟨reply, _, _⟩⟩ _ => ?_
  simp only [Exchange.turn?]
  cases reply with
  | message message => rfl
  | reception reception =>
      cases command with
      | receive other =>
          simp only [turn?]
          split <;> rfl
      | _ => rfl
  | _ => cases command <;> rfl

theorem allFound_filterMap_turn? :
    Turn.allFound (exchanges.filterMap (Exchange.turn? name)) = receptions name exchanges := by
  rw [Turn.allFound, List.filterMap_filterMap, receptions]
  refine List.filterMap_congr fun ⟨⟨_, command⟩, ⟨reply, _, _⟩⟩ _ => ?_
  simp only [Exchange.turn?]
  cases reply with
  | message message => cases command <;> rfl
  | reception reception =>
      cases command with
      | receive other =>
          simp only [turn?]
          split <;> rfl
      | _ => rfl
  | _ => cases command <;> rfl

theorem filterMap_turn?_found {exchange : Exchange} {reception : Reception Message}
    (hc : exchange.request.command = .receive name)
    (hr : exchange.answer.reply = .reception reception) (before after : List Exchange) :
    (before ++ exchange :: after).filterMap (Exchange.turn? name) =
      before.filterMap (Exchange.turn? name) ++
        .found reception :: after.filterMap (Exchange.turn? name) := by
  have hturn : exchange.turn? name = some (.found reception) := by
    rw [Exchange.turn?, hc, hr]
    exact if_pos rfl
  rw [List.filterMap_append, List.filterMap_cons, hturn]

theorem filterMap_turn?_singleton (exchange : Exchange) :
    [exchange].filterMap (Exchange.turn? name) = (exchange.turn? name).toList := by
  rw [List.filterMap_cons]
  cases exchange.turn? name <;> rfl

end Turns

section Steps

theorem Moves.step {command : Command} {turn : Option (Turn Message)} {capacity : Nat}
    (h : Moves capacity name desk view command next turn) (hd : view.front.desks = [desk])
    (hs : Shows capacity name view session) :
    ∃ answer later, session.step 0 command = .ok (answer, later) ∧
      Shows capacity name next later ∧ turn? name command answer.reply = turn := by
  have hdesk : session.desks[0]? = some desk := by rw [hs.desks, hd, List.getElem?_cons_zero]
  obtain ⟨react, -, hstep⟩ := exists_step_eq_perform hdesk command
  obtain ⟨reply, later, hrun, hl, ht⟩ :=
    h react { session with notes := [], log := [] } (hs.of_front hs.front rfl rfl)
  refine ⟨⟨reply, later.notes, later.log⟩, later, ?_, hl, ht⟩
  rw [hstep, hrun]
  rfl

end Steps

def Request.Ordinary (request : Request) : Prop := request.on = 0 ∧ request.command.Ordinary

-- From every session that the view shows, the requests lead to one that `next` shows, by way of
-- these turns of the receiver.
def Leads (config : Config) (name : String) (view : View) (requests : List Request) (next : View)
    (turns : List (Turn Message)) : Prop :=
  ∀ session, Shows config.channelCapacity.toNat name view session →
    ∃ exchanges last, session.replay requests = .ok (exchanges, last) ∧
      exchanges.map Exchange.request = requests ∧
      exchanges.filterMap (Exchange.turn? name) = turns ∧
      Shows config.channelCapacity.toNat name next last

section Leads

variable {middle : View} {requests more : List Request} {turns later : List (Turn Message)}

theorem Leads.nil : Leads config name view [] view [] :=
  fun session hs => ⟨[], session, rfl, rfl, rfl, hs⟩

theorem Leads.append (h : Leads config name view requests middle turns)
    (hm : Leads config name middle more next later) :
    Leads config name view (requests ++ more) next (turns ++ later) := by
  intro session hs
  obtain ⟨exchanges, between, hrun, hrequests, hturns, hb⟩ := h session hs
  obtain ⟨exchanges', last, hrun', hrequests', hturns', hl⟩ := hm between hb
  refine ⟨exchanges ++ exchanges', last, replay_append hrun hrun', ?_, ?_, hl⟩
  · rw [List.map_append, hrequests, hrequests']
  · rw [List.filterMap_append, hturns, hturns']

theorem Follows.leads {request : Request} {turn : Option (Turn Message)}
    (h : Follows config name desk view request.command next turn) (hd : view.front.desks = [desk])
    (ho : request.on = 0) : Leads config name view [request] next turn.toList := by
  intro session hs
  obtain ⟨answer, later, hstep, hl, ht⟩ := h.moves.step hd hs
  rw [← ho] at hstep
  refine ⟨[⟨request, answer⟩], later, ?_, rfl, ?_, hl⟩
  · rw [replay_cons_of_step hstep]
    rfl
  · rw [filterMap_turn?_singleton, Exchange.turn?, ht]

end Leads

def Command.receives (name : String) : Command → Bool
  | .receive other => other = name
  | _ => false

theorem Command.receives_iff {command : Command} :
    command.receives name = true ↔ command = .receive name := by
  cases command <;> simp [Command.receives]

-- Whether a request is about no receiver of another name.
def Request.minds (name : String) (request : Request) : Bool := request.command.minds name

-- What becomes of the view over a run of requests.
structure Course (config : Config) (name : String) (view : View) (requests : List Request)
    (next : View) (turns : List (Turn Message)) : Prop where
  plain : ∃ desk, next.Plain config desk
  leads : Leads config name view requests next turns
  -- The requests about other receivers may as well not be made.
  purged : Leads config name view (requests.filter (Request.minds name)) next turns
  named : ∀ channel, view.Names channel →
    (∀ request ∈ requests, request.command ≠ .dropChannel channel) → next.Names channel
  reads : (∀ request ∈ requests, request.command.Spares name) →
    ∀ id unread, view.own = some (id, unread) →
      ∃ rest, next.own = some (id, rest) ∧
        Channel.Reads (Channel.slots config.channelCapacity.toNat) unread turns rest ∧
        (Turn.allFound turns).length = requests.countP (·.command.receives name)

section Courses

variable {request : Request} {requests : List Request} {turn : Option (Turn Message)}
  {turns : List (Turn Message)}

theorem Course.nil (h : view.Plain config desk) : Course config name view [] view [] where
  plain := ⟨desk, h⟩
  leads := .nil
  purged := .nil
  named := fun _ hn _ => hn
  reads := fun _ _ unread ho => ⟨unread, ho, .done unread, rfl⟩

theorem Follows.countP_receives {command : Command}
    (h : Follows config name desk view command next turn) (hown : view.own ≠ none) :
    (Turn.allFound turn.toList).length = if command.receives name then 1 else 0 := by
  by_cases hc : command = .receive name
  · obtain ⟨reception, rfl⟩ := h.answered hc hown
    rw [if_pos (Command.receives_iff.mpr hc)]
    rfl
  · rw [if_neg (fun hr => hc (Command.receives_iff.mp hr))]
    cases turn with
    | none => rfl
    | some turn =>
        cases turn with
        | sent message => rfl
        | found reception => exact absurd (h.found reception rfl) hc

theorem Follows.course (h : Follows config name desk view request.command next turn)
    (hd : view.front.desks = [desk]) (ho : request.on = 0) :
    Course config name view [request] next turn.toList where
  plain := h.plain
  leads := h.leads hd ho
  purged := by
    cases hmind : request.minds name with
    | true =>
        rw [List.filter_cons_of_pos hmind]
        exact h.leads hd ho
    | false =>
        obtain ⟨rfl, rfl⟩ := h.unmoved hmind
        rw [List.filter_cons_of_neg (by rw [hmind]; exact Bool.false_ne_true)]
        exact .nil
  named := fun channel hn hkept => h.named channel hn (hkept request (List.mem_singleton_self _))
  reads := by
    intro hspare id unread hown
    have hfirst := hspare request (List.mem_singleton_self _)
    obtain ⟨rest, hnext, hread⟩ := h.reads hfirst id unread hown
    refine ⟨rest, hnext, hread, ?_⟩
    rw [h.countP_receives (by rw [hown]; exact Option.some_ne_none _), List.countP_singleton]

theorem Course.append {middle : View} {more : List Request} {later : List (Turn Message)}
    (h : Course config name view requests middle turns)
    (hm : Course config name middle more next later) :
    Course config name view (requests ++ more) next (turns ++ later) where
  plain := hm.plain
  leads := h.leads.append hm.leads
  purged := by
    rw [List.filter_append]
    exact h.purged.append hm.purged
  named := by
    intro channel hn hkept
    obtain ⟨hfirst, hrest⟩ := List.forall_mem_append.mp hkept
    exact hm.named channel (h.named channel hn hfirst) hrest
  reads := by
    intro hspare id unread hown
    obtain ⟨hfirst, hrest⟩ := List.forall_mem_append.mp hspare
    obtain ⟨between, hbetween, hread, hcount⟩ := h.reads hfirst id unread hown
    obtain ⟨rest, hnext, hreads, hcounts⟩ := hm.reads hrest id between hbetween
    refine ⟨rest, hnext, hread.append hreads, ?_⟩
    rw [Turn.allFound_append, List.length_append, hcount, hcounts, List.countP_append]

theorem exists_course (h : view.Plain config desk)
    (hp : Channel.Possible config.channelCapacity.toNat)
    (ho : ∀ request ∈ requests, request.Ordinary) (name : String) :
    ∃ next turns, Course config name view requests next turns := by
  induction requests generalizing view desk with
  | nil => exact ⟨view, [], .nil h⟩
  | cons request requests ih =>
      obtain ⟨hfirst, hrest⟩ := List.forall_mem_cons.mp ho
      obtain ⟨middle, turn, hfollows⟩ := exists_follows h hp hfirst.2 name
      obtain ⟨later, hplain⟩ := hfollows.plain
      obtain ⟨next, turns, hcourse⟩ := ih hplain hrest
      exact ⟨next, turn.toList ++ turns, (hfollows.course h.desks hfirst.1).append hcourse⟩

end Courses

section Accounts

-- The channel of the receiver `name`, and where the receiver stands.
def hearing? (session : Session) (name : String) : Option (Channel Message × Receiver) :=
  (session.listeners.get? name).bind fun listener =>
    session.channels[listener.channel]?.map (·, listener.receiver)

-- What the receiver's channel still keeps for it.
def buffered (session : Session) (name : String) : List Message :=
  (session.hearing? name).elim [] fun heard => heard.1.buffered heard.2

-- How many messages the receiver has lost that it was not told of yet.
def overdue (session : Session) (name : String) : Nat :=
  (session.hearing? name).elim 0 fun heard => heard.1.overdue heard.2

-- How many messages the receiver has yet to receive, be it only as a loss.
def unread (session : Session) (name : String) : Nat :=
  session.overdue name + (session.buffered name).length

-- What the receiver `name` found in `exchanges`, from its subscription on, against what the
-- reloader returned in them; `last` is the session after them.
structure Accounted (capacity : Nat) (name : String) (exchanges : List Exchange)
    (last : Session) : Prop where
  answered : (receptions name exchanges).length =
    exchanges.countP (·.request.command.receives name)
  tally : ∃ skipped, skipped.length = last.overdue name ∧
    Tally (receptions name exchanges) (produced exchanges) (skipped ++ last.buffered name)
  total : (received (receptions name exchanges)).length + lost (receptions name exchanges) +
    last.unread name = (produced exchanges).length
  ordered :
    (received (receptions name exchanges) ++ last.buffered name).Sublist (produced exchanges)
  -- Whoever has just looked knows of all that it lost.
  current : ∀ before exchange reception, exchanges = before ++ [exchange] →
    exchange.request.command = .receive name → exchange.answer.reply = .reception reception →
      last.overdue name = 0
  -- It finds nothing if and only if all that was returned has been received or told to be lost.
  idle : ∀ before exchange after reception, exchanges = before ++ exchange :: after →
    exchange.request.command = .receive name → exchange.answer.reply = .reception reception →
      (reception = .empty ↔ (received (receptions name before)).length +
        lost (receptions name before) = (produced before).length)
  -- Never more than `capacity` messages behind, it loses none.
  lossless : (∀ before after, exchanges = before ++ after →
      (produced before).length ≤ (received (receptions name before)).length +
        lost (receptions name before) + capacity) →
    lost (receptions name exchanges) = 0 ∧
      produced exchanges = received (receptions name exchanges) ++ last.buffered name

variable {size capacity id : Nat} {unread : List Message}

theorem Hears.hearing? (h : session.Hears name id unread) :
    ∃ channel receiver, session.channels[id]? = some channel ∧
      session.hearing? name = some (channel, receiver) ∧ channel.Awaits receiver unread := by
  obtain ⟨channel, receiver, hc, hg, hw⟩ := h
  refine ⟨channel, receiver, hc, ?_, hw⟩
  simp only [Session.hearing?, hg, Option.bind_some, hc, Option.map_some]

theorem Hears.overdue_eq (h : session.Hears name id unread) (ha : session.Attended size) :
    session.overdue name = unread.length - size := by
  obtain ⟨channel, receiver, hc, hh, hw⟩ := h.hearing?
  rw [overdue, hh, Option.elim_some, hw.overdue_eq, ha.sized channel (List.mem_of_getElem? hc)]

theorem Hears.eq_append_buffered (h : session.Hears name id unread) :
    ∃ skipped, skipped.length = session.overdue name ∧
      unread = skipped ++ session.buffered name := by
  obtain ⟨channel, receiver, -, hh, hw⟩ := h.hearing?
  rw [overdue, buffered, hh, Option.elim_some, Option.elim_some]
  exact hw.eq_append_buffered

theorem accounted_of_reads {exchanges : List Exchange} {rest : List Message}
    (h : session.Hears name id rest) (ha : session.Attended size) (hs : capacity ≤ size)
    (hr : Channel.Reads size [] (exchanges.filterMap (Exchange.turn? name)) rest)
    (hn : (receptions name exchanges).length =
      exchanges.countP (·.request.command.receives name)) :
    Accounted capacity name exchanges session := by
  have htally := hr.tally
  rw [allFound_filterMap_turn?, allSent_filterMap_turn?, List.nil_append] at htally
  have hoverdue := h.overdue_eq ha
  obtain ⟨skipped, hskipped, rfl⟩ := h.eq_append_buffered
  have hlength := htally.length_eq
  rw [List.length_append] at hlength hoverdue
  refine ⟨hn, ⟨skipped, hskipped, htally⟩, by unfold Session.unread; omega, ?_, ?_, ?_, ?_⟩
  · refine (List.Sublist.append_left ?_ _).trans htally.sublist
    exact List.sublist_append_right skipped _
  · rintro before exchange reception rfl hc hreply
    rw [filterMap_turn?_found hc hreply] at hr
    have := hr.length_rest_le
    rw [List.length_append] at this
    omega
  · rintro before exchange after reception rfl hc hreply
    rw [filterMap_turn?_found hc hreply] at hr
    rw [hr.eq_empty_iff, allFound_filterMap_turn?, allSent_filterMap_turn?, List.nil_append]
  · intro hbehind
    have hprefix : ∀ before after,
        exchanges.filterMap (Exchange.turn? name) = before ++ after →
          ([] : List Message).length + (Turn.allSent before).length ≤
            (received (Turn.allFound before)).length + lost (Turn.allFound before) + capacity := by
      intro before after he
      obtain ⟨first, second, hsplit, rfl, -⟩ := List.filterMap_eq_append_iff.mp he
      rw [allSent_filterMap_turn?, allFound_filterMap_turn?, List.length_nil, Nat.zero_add]
      exact hbehind first second hsplit
    have hlost := hr.lost_eq_zero hs hprefix
    rw [allFound_filterMap_turn?] at hlost
    have hnow := hbehind exchanges [] (List.append_nil _).symm
    have hnone : skipped = [] := List.length_eq_zero_iff.mp (by omega)
    have hsent := htally.eq_append_of_lost_eq_zero hlost
    rw [hnone, List.nil_append] at hsent
    exact ⟨hlost, hsent⟩

end Accounts

section Broadcasting

-- After these requests the name stands for a channel that the reloader made.
def Broadcasts (channel : String) (requests : List Request) : Prop :=
  ∃ opening between, requests = opening ++ ⟨0, .broadcast channel⟩ :: between ∧
    ∀ request ∈ between, request.command ≠ .dropChannel channel

theorem shows_start (h : start config = .ok session) (name : String) :
    ∃ view : View, view.Plain config (newDesk config) ∧
      Shows config.channelCapacity.toNat name view session := by
  unfold start at h
  split at h
  · cases h
  · cases h
    refine ⟨⟨{ desks := [newDesk config] }, 0, none⟩, ⟨rfl, rfl, rfl, rfl⟩, rfl, rfl, ?_,
      fun _ => rfl, nofun⟩
    exact ⟨nofun, nofun, nofun, nofun⟩

-- The course of a run after which the name stands for a channel.
theorem exists_course_of_broadcasts {channel : String} {requests : List Request}
    (h : view.Plain config desk) (hp : Channel.Possible config.channelCapacity.toNat)
    (ho : ∀ request ∈ requests, request.Ordinary) (hb : Broadcasts channel requests)
    (name : String) :
    ∃ next turns, Course config name view requests next turns ∧ next.Names channel := by
  obtain ⟨opening, between, rfl, hkept⟩ := hb
  obtain ⟨hopening, hrest⟩ := List.forall_mem_append.mp ho
  obtain ⟨hbroadcast, hbetween⟩ := List.forall_mem_cons.mp hrest
  obtain ⟨first, turns, hfirst⟩ := exists_course h hp hopening name
  obtain ⟨_, hplain⟩ := hfirst.plain
  obtain ⟨second, turn, hfollows⟩ := exists_follows hplain hp hbroadcast.2 name
  obtain ⟨_, hplain'⟩ := hfollows.plain
  obtain ⟨third, turns', hthird⟩ := exists_course hplain' hp hbetween name
  refine ⟨third, turns ++ (turn.toList ++ turns'), ?_,
    hthird.named channel (hfollows.opened channel rfl) hkept⟩
  exact hfirst.append ((hfollows.course hplain.desks rfl).append hthird)

-- `name` is any receiver of any channel that the reloader made, subscribed after `before`.
theorem broadcast_accounted {channel : Channel Message} (hstart : start config = .ok session)
    (hchannel : Channel.create config.channelCapacity.toNat = .ok channel)
    (before after : List Request) (broadcaster name : String)
    (hordinary : ∀ request ∈ before ++ after, request.Ordinary)
    (hbroadcasts : Broadcasts broadcaster before)
    (hspare : ∀ request ∈ after, request.command.Spares name) :
    ∃ past answer exchanges last,
      session.replay (before ++ ⟨0, .listen broadcaster name⟩ :: after) =
        .ok (past ++ ⟨⟨0, .listen broadcaster name⟩, answer⟩ :: exchanges, last) ∧
      exchanges.map Exchange.request = after ∧
      Accounted config.channelCapacity.toNat name exchanges last ∧
      ∃ others final,
        session.replay ((before ++ ⟨0, .listen broadcaster name⟩ :: after).filter
          (Request.minds name)) = .ok (others, final) ∧
        receptions name others =
          receptions name (past ++ ⟨⟨0, .listen broadcaster name⟩, answer⟩ :: exchanges) := by
  have hp := (Channel.create_eq_ok_iff.mp hchannel).1
  obtain ⟨hbefore, hafter⟩ := List.forall_mem_append.mp hordinary
  obtain ⟨view, hplain, hshows⟩ := shows_start hstart name
  obtain ⟨ready, turns, hready, hnames⟩ :=
    exists_course_of_broadcasts hplain hp hbefore hbroadcasts name
  obtain ⟨desk, hplain'⟩ := hready.plain
  have hlisten : (Command.listen broadcaster name).Ordinary := trivial
  obtain ⟨seated, turn, hfollows⟩ := exists_follows hplain' hp hlisten name
  obtain ⟨id, hown⟩ := hfollows.seated broadcaster rfl hnames
  obtain ⟨_, hplain''⟩ := hfollows.plain
  obtain ⟨next, later, hnext⟩ := exists_course hplain'' hp hafter name
  obtain ⟨past, middle, hpast, -, hpastTurns, hmiddle⟩ := hready.leads session hshows
  obtain ⟨answer, joined, hstep, hjoined, hturn⟩ := hfollows.moves.step hplain'.desks hmiddle
  obtain ⟨exchanges, last, hrun, hrequests, hturns, hlast⟩ := hnext.leads joined hjoined
  obtain ⟨rest, hrest, hreads, hcount⟩ := hnext.reads hspare id [] hown
  refine ⟨past, answer, exchanges, last, ?_, hrequests, ?_, ?_⟩
  · refine replay_append hpast ?_
    rw [replay_cons_of_step hstep, hrun]
    rfl
  · refine accounted_of_reads (hlast.present id rest hrest) hlast.attended (Channel.le_slots _)
      (hturns ▸ hreads) ?_
    rw [← allFound_filterMap_turn?, hturns, hcount, ← hrequests, List.countP_map]
    rfl
  · have hseat : Course config name ready [⟨0, .listen broadcaster name⟩] seated turn.toList :=
      hfollows.course hplain'.desks rfl
    have hcourse := hready.append (hseat.append hnext)
    obtain ⟨others, final, hothers, -, hothersTurns, -⟩ := hcourse.purged session hshows
    refine ⟨others, final, hothers, ?_⟩
    have hfirst : [(⟨⟨0, .listen broadcaster name⟩, answer⟩ : Exchange)].filterMap
        (Exchange.turn? name) = turn.toList := by
      rw [filterMap_turn?_singleton, Exchange.turn?, hturn]
    rw [← allFound_filterMap_turn?, ← allFound_filterMap_turn?, hothersTurns,
      List.append_cons, List.filterMap_append, List.filterMap_append, hpastTurns, hfirst, hturns,
      List.append_assoc]

theorem receptions_append (exchanges more : List Exchange) :
    receptions name (exchanges ++ more) = receptions name exchanges ++ receptions name more :=
  List.filterMap_append

-- Three messages are returned before the receiver looks.
def lateReading : List Request := [⟨0, .declare "a.js" {}⟩,
  ⟨0, .fileEvent "a.js" (.text "added")⟩, ⟨0, .fileEvent "a.js" (.text "modified")⟩,
  ⟨0, .fileEvent "a.js" (.text "removed")⟩, ⟨0, .receive "r"⟩, ⟨0, .receive "r"⟩,
  ⟨0, .receive "r"⟩, ⟨0, .receive "r"⟩]

-- With room for two messages, the receiver is told that it lost one, finds the other two, and then
-- nothing.
theorem broadcast_accounted_for_late_reader :
    ∃ past answer exchanges last,
      Session.replay { desks := [newDesk { channelCapacity := 2 }] }
        ([⟨0, .broadcast "b"⟩] ++ ⟨0, .listen "b" "r"⟩ :: lateReading) =
        .ok (past ++ ⟨⟨0, .listen "b" "r"⟩, answer⟩ :: exchanges, last) ∧
      Accounted 2 "r" exchanges last ∧
      receptions "r" exchanges = [.lagged 1,
        .message (.fullReload "a.js modified" "no importer" (some "a.js")),
        .message (.fullReload "a.js removed" "no importer" (some "a.js")), .empty] := by
  have hstart : start { channelCapacity := 2 } =
      .ok { desks := [newDesk { channelCapacity := 2 }] } := rfl
  have hpossible : Channel.Possible 2 := ⟨by decide, by decide⟩
  obtain ⟨past, answer, exchanges, last, hrun, hrequests, haccounted, -⟩ := broadcast_accounted
    hstart (Channel.create_of_possible hpossible) [⟨0, .broadcast "b"⟩] lateReading "b" "r"
    (by simp [lateReading, Request.Ordinary, Command.Ordinary]) ⟨[], [], rfl, nofun⟩
    (by simp [lateReading, Command.Spares])
  refine ⟨past, answer, exchanges, last, hrun, haccounted, ?_⟩
  have hall : (Session.replay { desks := [newDesk { channelCapacity := 2 }] }
        ([⟨0, .broadcast "b"⟩] ++ ⟨0, .listen "b" "r"⟩ :: lateReading)).toOption.map
          (receptions "r" ·.1) =
      some [.lagged 1, .message (.fullReload "a.js modified" "no importer" (some "a.js")),
        .message (.fullReload "a.js removed" "no importer" (some "a.js")), .empty] := by
    decide +kernel
  rw [hrun] at hall
  have hwhole := Option.some.inj hall
  dsimp only at hwhole
  rw [List.append_cons, receptions_append] at hwhole
  -- The receiver was answered four times after its subscription, so all of them are its own.
  have hfour : (receptions "r" exchanges).length = 4 := by
    have hcount := congrArg (List.countP (·.command.receives "r")) hrequests
    rw [List.countP_map] at hcount
    exact haccounted.answered.trans hcount
  exact (List.append_inj' (hwhole.trans (List.nil_append _).symm) hfour).2

end Broadcasting

end LiveReload.Session
