import LiveReload.Proofs.Reloader.Run
import LiveReload.Roster

namespace LiveReload

namespace Roster

variable {σ : Type}

def ids (roster : Roster σ) : List Nat := roster.subscriptions.map Subscription.id

theorem contains_iff_mem_ids {roster : Roster σ} {id : Nat} :
    roster.contains id = true ↔ id ∈ roster.ids := by
  simp [contains, ids]

-- Identities are handed out in increasing order, so none is ever used again.
structure Numbered (roster : Roster σ) : Prop where
  increasing : roster.ids.Pairwise (· < ·)
  lt_nextId : ∀ id ∈ roster.ids, id < roster.nextId

theorem Numbered.nodup {roster : Roster σ} (h : roster.Numbered) : roster.ids.Nodup :=
  h.increasing.imp Nat.ne_of_lt

-- The roster after all of `gone` were removed.
def without (roster : Roster σ) (gone : List Nat) : Roster σ :=
  { roster with subscriptions := roster.subscriptions.filter fun member => member.id ∉ gone }

@[simp] theorem without_nil (roster : Roster σ) : roster.without [] = roster := by
  simp [without]

theorem remove_eq_without (roster : Roster σ) (id : Nat) : roster.remove id = roster.without [id] := by
  simp [remove, without]

theorem without_without (roster : Roster σ) (gone more : List Nat) :
    (roster.without gone).without more = roster.without (gone ++ more) := by
  simp [without, List.filter_filter, Bool.and_comm]

theorem mem_ids_without {roster : Roster σ} {gone : List Nat} {id : Nat} :
    id ∈ (roster.without gone).ids ↔ id ∈ roster.ids ∧ id ∉ gone := by
  simp only [ids, without, List.mem_map, List.mem_filter, decide_eq_true_eq]
  constructor
  · rintro ⟨subscription, ⟨hs, hn⟩, rfl⟩
    exact ⟨⟨subscription, hs, rfl⟩, hn⟩
  · rintro ⟨⟨subscription, hs, rfl⟩, hn⟩
    exact ⟨subscription, ⟨hs, hn⟩, rfl⟩

theorem Numbered.without {roster : Roster σ} (h : roster.Numbered) (gone : List Nat) :
    (roster.without gone).Numbered where
  increasing := h.increasing.sublist (List.filter_sublist.map _)
  lt_nextId := fun id hi => h.lt_nextId id (mem_ids_without.mp hi).1

theorem Numbered.add {roster : Roster σ} (h : roster.Numbered) (sink : σ) :
    (roster.add sink).2.Numbered where
  increasing := by
    simp only [Roster.add, ids, List.map_append, List.map_singleton, List.pairwise_append,
      List.pairwise_singleton, List.mem_singleton, true_and]
    refine ⟨h.increasing, ?_⟩
    rintro id hi _ rfl
    exact h.lt_nextId id hi
  lt_nextId := by
    intro id hi
    simp only [Roster.add, ids, List.map_append, List.mem_append, List.map_singleton,
      List.mem_singleton] at hi
    rcases hi with hi | rfl
    · exact Nat.lt_succ_of_lt (h.lt_nextId id hi)
    · exact Nat.lt_succ_self _

end Roster

namespace Reloader

-- What a call leads to and returns; only some calls return a message.
def respond (reloader : Reloader) : Call → Response
  | .finish ticket declaration => (reloader.finish ticket declaration).result
  | .declare url declaration => (reloader.declare url declaration).result
  | .fileChanged event => (reloader.fileChanged event).result
  | call => ⟨reloader.call call, none⟩

theorem reloader_respond (reloader : Reloader) (next : Call) :
    (reloader.respond next).reloader = reloader.call next := by
  cases next <;> rfl

-- Stores the state that a call led to, then tells the roster that it finds what the call returns.
def Response.publish {m : Type → Type} [Monad m] {σ : Type} (response : Response)
    (store : Reloader → m Unit) (summon : m (Roster σ))
    (tell : Message → Subscription σ → m Unit) : m (Option Message) := do
  store response.reloader
  match response.message with
  | none => pure none
  | some message =>
    let roster ← summon
    roster.notify (tell message)
    pure (some message)

section Publish

variable {m : Type → Type} [Monad m] {σ : Type} {response : Response} {store : Reloader → m Unit}
  {summon : m (Roster σ)} {tell : Message → Subscription σ → m Unit}

theorem Response.publish_of_none (h : response.message = none) :
    response.publish store summon tell = (do store response.reloader; pure none) := by
  rw [publish, h]

theorem Response.publish_of_some {message : Message} (h : response.message = some message) :
    response.publish store summon tell = (do
      store response.reloader
      let roster ← summon
      roster.notify (tell message)
      pure (some message)) := by
  rw [publish, h]

end Publish

end Reloader

namespace Station

inductive Event (σ : Type) where
  | told (subscription : Subscription σ) (message : Message)
  -- Whether that subscriber was still there.
  | unsubscribed (id : Nat) (present : Bool)

def Event.telling? {σ : Type} : Event σ → Option (Subscription σ × Message)
  | told subscription message => some (subscription, message)
  | unsubscribed _ _ => none

def Event.dismissal? {σ : Type} : Event σ → Option Nat
  | told _ _ => none
  | unsubscribed id _ => some id

end Station

structure Station (σ : Type) where
  reloader : Reloader
  roster : Roster σ
  -- What the subscribers were told and did during the last call, in order.
  events : List (Station.Event σ)

namespace Station

variable {σ : Type}

def opened (reloader : Reloader) : Station σ := ⟨reloader, ∅, []⟩

inductive Call (σ : Type) where
  | subscribe (sink : σ)
  | unsubscribe (id : Nat)
  -- A subscriber that is told something unsubscribes whom `conduct` says, in this order: it may
  -- decide so afresh at each call.
  | reload (call : Reloader.Call) (conduct : Subscription σ → List Nat)

def note (event : Event σ) : StateM (Station σ) Unit :=
  modify fun station => { station with events := station.events ++ [event] }

def unsubscribe (id : Nat) : StateM (Station σ) Unit := do
  let station ← get
  note (.unsubscribed id (station.roster.contains id))
  modify fun station => { station with roster := station.roster.remove id }

def tell (conduct : Subscription σ → List Nat) (message : Message) (subscription : Subscription σ) :
    StateM (Station σ) Unit := do
  note (.told subscription message)
  (conduct subscription).forM unsubscribe

-- Carries out a call and returns what it returns.
def perform : Call σ → StateM (Station σ) (Option Message)
  | .subscribe sink => do
    modify fun station => { station with roster := (station.roster.add sink).2 }
    pure none
  | .unsubscribe id => do
    unsubscribe id
    pure none
  | .reload call conduct => do
    let station ← get
    (station.reloader.respond call).publish
      (fun reloader => modify fun station => { station with reloader := reloader })
      (Station.roster <$> get) (tell conduct)

structure Outcome (σ : Type) where
  message : Option Message
  events : List (Event σ)

def step (station : Station σ) (call : Call σ) : Option Message × Station σ :=
  (perform call).run { station with events := [] }

def call (station : Station σ) (call : Call σ) : Station σ := (station.step call).2

def outcome (station : Station σ) (call : Call σ) : Outcome σ :=
  ⟨(station.step call).1, (station.step call).2.events⟩

def tellings (events : List (Event σ)) : List (Subscription σ × Message) :=
  events.filterMap Event.telling?

def dismissals (events : List (Event σ)) : List Nat := events.filterMap Event.dismissal?

-- While `events` happened, the roster only lost those who were unsubscribed.
structure Continues (station later : Station σ) (events : List (Event σ)) : Prop where
  reloader_eq : later.reloader = station.reloader
  events_eq : later.events = station.events ++ events
  roster_eq : later.roster = station.roster.without (dismissals events)
  reported : ∀ before id present after, events = before ++ .unsubscribed id present :: after →
    (present = true ↔ id ∈ station.roster.ids ∧ id ∉ dismissals before)

section Continues

variable {station middle later : Station σ} {events more : List (Event σ)}

theorem dismissals_append (events more : List (Event σ)) :
    dismissals (events ++ more) = dismissals events ++ dismissals more := List.filterMap_append

theorem tellings_append (events more : List (Event σ)) :
    tellings (events ++ more) = tellings events ++ tellings more := List.filterMap_append

theorem Continues.refl (station : Station σ) : Continues station station [] where
  reloader_eq := rfl
  events_eq := (List.append_nil _).symm
  roster_eq := (Roster.without_nil _).symm
  reported := by simp

theorem Continues.mem_ids (h : Continues station later events) {id : Nat} :
    id ∈ later.roster.ids ↔ id ∈ station.roster.ids ∧ id ∉ dismissals events := by
  rw [h.roster_eq, Roster.mem_ids_without]

theorem Continues.trans (h : Continues station middle events) (hm : Continues middle later more) :
    Continues station later (events ++ more) where
  reloader_eq := hm.reloader_eq.trans h.reloader_eq
  events_eq := by rw [hm.events_eq, h.events_eq, List.append_assoc]
  roster_eq := by rw [hm.roster_eq, h.roster_eq, Roster.without_without, dismissals_append]
  reported := by
    intro before id present after he
    rcases List.append_eq_append_iff.mp he with ⟨rest, rfl, hr⟩ | ⟨rest, rfl, hr⟩
    · rw [hm.reported rest id present after hr, h.mem_ids, dismissals_append, List.mem_append]
      tauto
    · cases rest with
      | nil =>
          rw [hm.reported [] id present after hr.symm, h.mem_ids, List.append_nil]
          simp [dismissals]
      | cons event rest =>
          obtain ⟨rfl, -⟩ := List.cons.inj hr
          exact h.reported before id present rest rfl

theorem continues_note_told (station : Station σ) (subscription : Subscription σ)
    (message : Message) :
    Continues station ((note (.told subscription message)).run station).2
      [.told subscription message] where
  reloader_eq := rfl
  events_eq := rfl
  roster_eq := (Roster.without_nil _).symm
  reported := by
    intro before id present after he
    cases before <;> simp at he

theorem continues_unsubscribe (station : Station σ) (id : Nat) :
    Continues station ((unsubscribe id).run station).2
      [.unsubscribed id (station.roster.contains id)] where
  reloader_eq := rfl
  events_eq := rfl
  roster_eq := station.roster.remove_eq_without id
  reported := by
    intro before other present after he
    cases before with
    | nil =>
        cases he
        simp [Roster.contains_iff_mem_ids, dismissals]
    | cons event before => simp at he

-- An action that tells and unsubscribes these, and nothing else.
def Performs (act : StateM (Station σ) Unit) (told : List (Subscription σ × Message))
    (gone : List Nat) : Prop :=
  ∀ station, ∃ events, Continues station (act.run station).2 events ∧
    tellings events = told ∧ dismissals events = gone

theorem performs_forM {α : Type} {act : α → StateM (Station σ) Unit}
    {told : α → List (Subscription σ × Message)} {gone : α → List Nat}
    (h : ∀ a, Performs (act a) (told a) (gone a)) (l : List α) :
    Performs (l.forM act) (l.flatMap told) (l.flatMap gone) := by
  induction l with
  | nil => exact fun station => ⟨[], .refl station, rfl, rfl⟩
  | cons a l ih =>
      intro station
      obtain ⟨events, hc, ht, hd⟩ := h a station
      obtain ⟨more, hm, hmore, hgone⟩ := ih ((act a).run station).2
      refine ⟨events ++ more, hc.trans hm, ?_, ?_⟩
      · rw [tellings_append, ht, hmore, List.flatMap_cons]
      · rw [dismissals_append, hd, hgone, List.flatMap_cons]

theorem performs_unsubscribe (id : Nat) : Performs (σ := σ) (unsubscribe id) [] [id] :=
  fun station => ⟨_, continues_unsubscribe station id, rfl, rfl⟩

theorem performs_tell (conduct : Subscription σ → List Nat) (message : Message)
    (subscription : Subscription σ) :
    Performs (tell conduct message subscription) [(subscription, message)]
      (conduct subscription) := by
  intro station
  have hnote := continues_note_told station subscription message
  obtain ⟨events, hc, ht, hd⟩ := performs_forM performs_unsubscribe (conduct subscription)
    ((note (.told subscription message)).run station).2
  refine ⟨_, hnote.trans hc, ?_, ?_⟩
  · rw [tellings_append, ht, List.flatMap_eq_nil_iff.mpr fun _ _ => rfl, List.append_nil]
    rfl
  · rw [dismissals_append, hd, List.flatMap_singleton']
    rfl

theorem performs_notify (conduct : Subscription σ → List Nat) (message : Message)
    (roster : Roster σ) :
    Performs (roster.notify (tell conduct message)) (roster.subscriptions.map (·, message))
      (roster.subscriptions.flatMap conduct) := by
  rw [List.map_eq_flatMap]
  exact performs_forM (performs_tell conduct message) roster.subscriptions

end Continues

section Calls

variable (station : Station σ) (next : Call σ)

-- The station as a call leaves it before anyone is told of anything.
def before : Call σ → Station σ
  | .subscribe sink => ⟨station.reloader, (station.roster.add sink).2, []⟩
  | .unsubscribe _ => ⟨station.reloader, station.roster, []⟩
  | .reload call _ => ⟨station.reloader.call call, station.roster, []⟩

-- Who is on the roster after a call, and was not before it.
def joining : Call σ → List (Subscription σ)
  | .subscribe sink => [⟨(station.roster.add sink).1, sink⟩]
  | _ => []

-- Whom a call that returns `message` unsubscribes, whether still there or not.
def dismissed (message : Option Message) : List Nat :=
  match next, message with
  | .unsubscribe id, _ => [id]
  | .reload _ conduct, some _ => station.roster.subscriptions.flatMap conduct
  | _, _ => []

theorem subscriptions_before : (station.before next).roster.subscriptions =
    station.roster.subscriptions ++ station.joining next := by
  cases next with
  | subscribe sink => rfl
  | unsubscribe id => exact (List.append_nil _).symm
  | reload call conduct => exact (List.append_nil _).symm

variable {station next}

theorem step_reload (station : Station σ) (call : Reloader.Call)
    (conduct : Subscription σ → List Nat) :
    station.step (.reload call conduct) =
      ((station.reloader.respond call).publish
        (fun reloader => modify fun station => { station with reloader := reloader })
        (Station.roster <$> get) (tell conduct)).run { station with events := [] } := rfl

theorem step_reload_of_none {call : Reloader.Call} {conduct : Subscription σ → List Nat}
    (h : (station.reloader.respond call).message = none) :
    station.step (.reload call conduct) = (none, station.before (.reload call conduct)) := by
  rw [step_reload, Reloader.Response.publish_of_none h, before, ← Reloader.reloader_respond]
  rfl

theorem step_reload_of_some {call : Reloader.Call} {conduct : Subscription σ → List Nat}
    {message : Message} (h : (station.reloader.respond call).message = some message) :
    station.step (.reload call conduct) = (some message,
      ((station.roster.notify (tell conduct message)).run
        (station.before (.reload call conduct))).2) := by
  rw [step_reload, Reloader.Response.publish_of_some h, before, ← Reloader.reloader_respond]
  rfl

-- What a call returns is told to the roster that it finds; only who is told something acts on it.
theorem continues_call (station : Station σ) (next : Call σ) :
    Continues (station.before next) (station.call next) (station.outcome next).events ∧
      tellings (station.outcome next).events = (station.outcome next).message.toList.flatMap
        (fun message => station.roster.subscriptions.map (·, message)) ∧
      dismissals (station.outcome next).events =
        station.dismissed next (station.outcome next).message := by
  cases next with
  | subscribe sink => exact ⟨.refl _, rfl, rfl⟩
  | unsubscribe id => exact ⟨continues_unsubscribe _ id, rfl, rfl⟩
  | reload call conduct =>
      unfold Station.call outcome
      cases hm : (station.reloader.respond call).message with
      | none =>
          rw [step_reload_of_none hm]
          exact ⟨.refl _, rfl, rfl⟩
      | some message =>
          obtain ⟨events, hc, ht, hd⟩ := performs_notify conduct message station.roster
            (station.before (.reload call conduct))
          rw [step_reload_of_some hm]
          have he : _ = events := hc.events_eq
          rw [he]
          exact ⟨hc, by rw [ht]; simp, hd⟩

theorem message_outcome_reload (station : Station σ) (call : Reloader.Call)
    (conduct : Subscription σ → List Nat) :
    (station.outcome (.reload call conduct)).message = (station.reloader.respond call).message := by
  unfold outcome
  cases hm : (station.reloader.respond call).message with
  | none => rw [step_reload_of_none hm]
  | some message => rw [step_reload_of_some hm]

theorem mem_ids_call {id : Nat} : id ∈ (station.call next).roster.ids ↔
    id ∈ (station.before next).roster.ids ∧ id ∉ dismissals (station.outcome next).events :=
  (continues_call station next).1.mem_ids

theorem numbered_call (h : station.roster.Numbered) (next : Call σ) :
    (station.call next).roster.Numbered := by
  have hbefore : (station.before next).roster.Numbered := by
    cases next with
    | subscribe sink => exact h.add sink
    | unsubscribe id => exact h
    | reload call conduct => exact h
  rw [(continues_call station next).1.roster_eq]
  exact hbefore.without _

theorem nextId_le_call (station : Station σ) (next : Call σ) :
    station.roster.nextId ≤ (station.call next).roster.nextId := by
  rw [(continues_call station next).1.roster_eq, Roster.without]
  cases next with
  | subscribe sink => exact Nat.le_succ _
  | unsubscribe id => exact Nat.le_refl _
  | reload call conduct => exact Nat.le_refl _

end Calls

end Station

end LiveReload
