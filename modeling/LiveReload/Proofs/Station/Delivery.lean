import LiveReload.Proofs.Station

namespace LiveReload.Station

variable {σ : Type}

-- What the subscribers of `station` have of a call.
structure Delivers (station : Station σ) (next : Call σ) : Prop where
  -- Each of them stands on the roster once, in the order of registration.
  increasing : station.roster.ids.Pairwise (· < ·)
  returned : ∀ call conduct, next = .reload call conduct →
    (station.outcome next).message = (station.reloader.respond call).message
  told : ∀ message, (station.outcome next).message = some message →
    tellings (station.outcome next).events = station.roster.subscriptions.map (·, message)
  silent : (station.outcome next).message = none → tellings (station.outcome next).events = []
  dismissed : dismissals (station.outcome next).events =
    station.dismissed next (station.outcome next).message
  remaining : (station.call next).roster.subscriptions =
    (station.roster.without (dismissals (station.outcome next).events)).subscriptions ++
      station.joining next
  reported : ∀ before id present after,
    (station.outcome next).events = before ++ .unsubscribed id present :: after →
      (present = true ↔ id ∈ station.roster.ids ∧ id ∉ dismissals before)

def run (station : Station σ) (calls : List (Call σ)) : Station σ := calls.foldl call station

def outcomes (station : Station σ) : List (Call σ) → List (Outcome σ)
  | [] => []
  | next :: calls => station.outcome next :: (station.call next).outcomes calls

namespace Outcome

-- What the subscriber `id` is told.
def heard (id : Nat) (outcome : Outcome σ) : List Message :=
  (tellings outcome.events).filterMap fun telling =>
    if telling.1.id = id then some telling.2 else none

-- Whether somebody unsubscribes `id` who is still there.
def removes (id : Nat) (outcome : Outcome σ) : Bool :=
  outcome.events.any fun
    | .unsubscribed other present => other = id && present
    | .told _ _ => false

end Outcome

-- The calls through which the subscriber `id` lasts, up to the one that removes it.
def lifetime (id : Nat) : List (Outcome σ) → List (Outcome σ)
  | [] => []
  | outcome :: rest => if outcome.removes id then [outcome] else outcome :: lifetime id rest

variable {station : Station σ} {next : Call σ} {id : Nat}

theorem delivers (h : station.roster.Numbered) (next : Call σ) : station.Delivers next := by
  obtain ⟨hc, ht, hd⟩ := continues_call station next
  refine ⟨h.increasing, ?_, ?_, ?_, hd, ?_, ?_⟩
  · rintro call conduct rfl
    exact message_outcome_reload station call conduct
  · intro message hm
    rw [ht, hm, Option.toList_some, List.flatMap_singleton]
  · intro hm
    rw [ht, hm, Option.toList_none, List.flatMap_nil]
  · rw [hc.roster_eq, Roster.without, Roster.without, subscriptions_before, List.filter_append]
    cases next with
    | subscribe sink => rfl
    | unsubscribe id => rfl
    | reload call conduct => rfl
  · intro before id present after he
    cases next with
    | subscribe sink =>
        have hnone : [] = before ++ .unsubscribed id present :: after := he
        simp at hnone
    | unsubscribe id => exact hc.reported before _ present after he
    | reload call conduct => exact hc.reported before id present after he

section Runs

theorem outcomes_append (station : Station σ) (calls more : List (Call σ)) :
    station.outcomes (calls ++ more) = station.outcomes calls ++ (station.run calls).outcomes more := by
  induction calls generalizing station with
  | nil => rfl
  | cons next calls ih => exact congrArg (station.outcome next :: ·) (ih _)

theorem numbered_run (h : station.roster.Numbered) (calls : List (Call σ)) :
    (station.run calls).roster.Numbered := by
  induction calls generalizing station with
  | nil => exact h
  | cons next calls ih => exact ih (numbered_call h next)

theorem nextId_le_run (station : Station σ) (calls : List (Call σ)) :
    station.roster.nextId ≤ (station.run calls).roster.nextId := by
  induction calls generalizing station with
  | nil => exact Nat.le_refl _
  | cons next calls ih => exact Nat.le_trans (nextId_le_call station next) (ih _)

end Runs

section Heard

private theorem filterMap_of_nodup {subscriptions : List (Subscription σ)}
    (h : (subscriptions.map Subscription.id).Nodup) (id : Nat) (message : Message) :
    subscriptions.filterMap (fun subscription =>
        if subscription.id = id then some message else none) =
      if id ∈ subscriptions.map Subscription.id then [message] else [] := by
  induction subscriptions with
  | nil => rfl
  | cons first rest ih =>
      obtain ⟨hn, hrest⟩ := List.nodup_cons.mp h
      rw [List.filterMap_cons, ih hrest, List.map_cons]
      by_cases he : first.id = id
      · subst he
        simp [hn]
      · simp [he, Ne.symm he]

-- Identities are unique, so one telling of the roster is one message to each of its members.
theorem heard_outcome (h : station.roster.Numbered) (next : Call σ) (id : Nat) :
    (station.outcome next).heard id =
      if id ∈ station.roster.ids then (station.outcome next).message.toList else [] := by
  rw [Outcome.heard, (continues_call station next).2.1]
  cases (station.outcome next).message with
  | none => simp
  | some message =>
      rw [Option.toList_some, List.flatMap_singleton, List.filterMap_map]
      exact filterMap_of_nodup h.nodup id message

theorem Outcome.mem_dismissals_of_removes {outcome : Outcome σ} (h : outcome.removes id = true) :
    id ∈ dismissals outcome.events := by
  obtain ⟨event, he, hr⟩ := List.any_eq_true.mp h
  refine List.mem_filterMap.mpr ⟨event, he, ?_⟩
  cases event with
  | told subscription message => cases hr
  | unsubscribed other present =>
      rw [Bool.and_eq_true, decide_eq_true_eq] at hr
      exact congrArg some hr.1

-- Whoever is still there is removed by the first that unsubscribes it.
theorem removes_outcome_iff (h : station.roster.Numbered) (hm : id ∈ station.roster.ids)
    (next : Call σ) : (station.outcome next).removes id = true ↔
      id ∈ dismissals (station.outcome next).events := by
  refine ⟨Outcome.mem_dismissals_of_removes, fun hd => ?_⟩
  obtain ⟨earlier, later, he, hn⟩ := List.eq_append_cons_of_mem hd
  obtain ⟨before, rest, hevents, rfl, hrest⟩ := List.filterMap_eq_append_iff.mp he
  obtain ⟨skipped, event, after, rfl, hskipped, hevent, -⟩ := List.filterMap_eq_cons_iff.mp hrest
  cases event with
  | told subscription message => cases hevent
  | unsubscribed other present =>
      cases hevent
      have hfirst : id ∉ dismissals (before ++ skipped) := by
        rw [dismissals_append, List.mem_append, not_or]
        refine ⟨hn, ?_⟩
        simp [dismissals, List.filterMap_eq_nil_iff.mpr hskipped]
      have hpresent : present = true :=
        ((delivers h next).reported (before ++ skipped) id present after
          (by rw [hevents, List.append_assoc])).mpr ⟨hm, hfirst⟩
      rw [Outcome.removes, hevents, hpresent]
      simp

variable {calls : List (Call σ)}

-- A new subscriber takes an identity that nobody had.
theorem mem_ids_before_iff (h : id < station.roster.nextId) (next : Call σ) :
    id ∈ (station.before next).roster.ids ↔ id ∈ station.roster.ids := by
  cases next with
  | unsubscribe other => exact Iff.rfl
  | reload call conduct => exact Iff.rfl
  | subscribe sink =>
      simp only [before, Roster.add, Roster.ids, List.map_append, List.map_singleton,
        List.mem_append, List.mem_singleton]
      exact or_iff_left (Nat.ne_of_lt h)

theorem not_mem_ids_call (hm : id ∉ station.roster.ids) (hlt : id < station.roster.nextId)
    (next : Call σ) : id ∉ (station.call next).roster.ids := by
  rw [mem_ids_call, mem_ids_before_iff hlt]
  exact fun hc => hm hc.1

theorem not_mem_ids_run (hm : id ∉ station.roster.ids) (hlt : id < station.roster.nextId)
    (calls : List (Call σ)) : id ∉ (station.run calls).roster.ids := by
  induction calls generalizing station with
  | nil => exact hm
  | cons next calls ih =>
      have hlater := Nat.lt_of_lt_of_le hlt (nextId_le_call station next)
      exact ih (not_mem_ids_call hm hlt next) hlater

theorem heard_outcomes_of_not_mem (h : station.roster.Numbered) (hm : id ∉ station.roster.ids)
    (hlt : id < station.roster.nextId) (calls : List (Call σ)) :
    (station.outcomes calls).flatMap (Outcome.heard id) = [] := by
  induction calls generalizing station with
  | nil => rfl
  | cons next calls ih =>
      have hgone := not_mem_ids_call hm hlt next
      have hlater := Nat.lt_of_lt_of_le hlt (nextId_le_call station next)
      rw [outcomes, List.flatMap_cons, heard_outcome h, if_neg hm,
        ih (numbered_call h next) hgone hlater]
      rfl

theorem heard_outcomes_of_nextId_le (h : station.roster.Numbered) (calls : List (Call σ))
    (hle : (station.run calls).roster.nextId ≤ id) :
    (station.outcomes calls).flatMap (Outcome.heard id) = [] := by
  induction calls generalizing station with
  | nil => rfl
  | cons next calls ih =>
      have hm : id ∉ station.roster.ids := fun hm =>
        absurd (h.lt_nextId id hm)
          (Nat.not_lt.mpr (Nat.le_trans (nextId_le_run station (next :: calls)) hle))
      rw [outcomes, List.flatMap_cons, heard_outcome h, if_neg hm, ih (numbered_call h next) hle]
      rfl

-- The induction carries that the subscriber is on the roster, until a call removes it.
theorem heard_outcomes_of_mem (h : station.roster.Numbered) (hm : id ∈ station.roster.ids)
    (calls : List (Call σ)) : (station.outcomes calls).flatMap (Outcome.heard id) =
      (lifetime id (station.outcomes calls)).filterMap Outcome.message := by
  induction calls generalizing station with
  | nil => rfl
  | cons next calls ih =>
      have hlt := h.lt_nextId id hm
      have hlater := Nat.lt_of_lt_of_le hlt (nextId_le_call station next)
      have hstays : id ∈ (station.call next).roster.ids ↔
          ¬(station.outcome next).removes id = true := by
        rw [mem_ids_call, mem_ids_before_iff hlt, removes_outcome_iff h hm]
        exact and_iff_right hm
      rw [outcomes, List.flatMap_cons, heard_outcome h, if_pos hm, lifetime]
      by_cases hr : (station.outcome next).removes id = true
      · rw [if_pos hr, heard_outcomes_of_not_mem (numbered_call h next)
          (fun hi => hstays.mp hi hr) hlater]
        cases hmessage : (station.outcome next).message <;> simp [hmessage]
      · rw [if_neg hr, ih (numbered_call h next) (hstays.mpr hr)]
        cases hmessage : (station.outcome next).message <;> simp [hmessage]

-- Whoever is there at the end was there all along.
theorem lifetime_outcomes_of_mem (h : station.roster.Numbered) (hlt : id < station.roster.nextId)
    {calls : List (Call σ)} (hm : id ∈ (station.run calls).roster.ids) :
    lifetime id (station.outcomes calls) = station.outcomes calls := by
  induction calls generalizing station with
  | nil => rfl
  | cons next calls ih =>
      have hlater := Nat.lt_of_lt_of_le hlt (nextId_le_call station next)
      have hstays : ¬(station.outcome next).removes id = true := fun hr =>
        not_mem_ids_run (fun hi => (mem_ids_call.mp hi).2 (Outcome.mem_dismissals_of_removes hr))
          hlater calls hm
      rw [outcomes, lifetime, if_neg hstays, ih (numbered_call h next) hlater hm]

theorem exists_eq_lifetime_append (id : Nat) (outcomes : List (Outcome σ)) :
    ∃ rest, outcomes = lifetime id outcomes ++ rest := by
  induction outcomes with
  | nil => exact ⟨[], rfl⟩
  | cons outcome outcomes ih =>
      obtain ⟨rest, hr⟩ := ih
      unfold lifetime
      split
      · exact ⟨outcomes, rfl⟩
      · exact ⟨rest, congrArg (outcome :: ·) hr⟩

end Heard

-- A subscriber hears nothing before it subscribes.
theorem heard_outcomes_subscribe (h : station.roster.Numbered) (calls later : List (Call σ))
    (sink : σ) :
    (station.outcomes (calls ++ .subscribe sink :: later)).flatMap
        (Outcome.heard (station.run calls).roster.nextId) =
      (lifetime (station.run calls).roster.nextId
        (((station.run calls).call (.subscribe sink)).outcomes later)).filterMap
          Outcome.message := by
  let id := (station.run calls).roster.nextId
  have hrun := numbered_run h calls
  have hm : id ∈ ((station.run calls).call (.subscribe sink)).roster.ids :=
    List.mem_map.mpr ⟨⟨id, sink⟩, List.mem_append_right _ (List.mem_singleton_self _), rfl⟩
  have hbefore : (station.outcomes calls).flatMap (Outcome.heard id) = [] :=
    heard_outcomes_of_nextId_le h calls (Nat.le_refl _)
  rw [outcomes_append, List.flatMap_append, hbefore, outcomes, List.flatMap_cons,
    heard_outcomes_of_mem (numbered_call hrun _) hm]
  rfl

section Sole

variable {sink : σ} {calls : List (Call σ)}

-- Nobody but the subscriber `id` is told by way of `sink`.
def Sole (sink : σ) (id : Nat) (station : Station σ) : Prop :=
  ∀ subscription ∈ station.roster.subscriptions, subscription.sink = sink ↔ subscription.id = id

-- The subscriber is there already, or will only come later.
theorem Sole.call (hs : station.Sole sink id) (h : station.roster.Numbered)
    (hne : next ≠ .subscribe sink)
    (hid : id < station.roster.nextId ∨ (station.call next).roster.nextId ≤ id) :
    (station.call next).Sole sink id := by
  intro subscription hm
  rw [(delivers h next).remaining] at hm
  rcases List.mem_append.mp hm with hm | hm
  · exact hs subscription (List.mem_filter.mp hm).1
  · cases next with
    | subscribe other =>
        obtain rfl := List.mem_singleton.mp hm
        have hother : other ≠ sink := fun he => hne (congrArg Call.subscribe he)
        have hnext : (station.call (.subscribe other)).roster.nextId = station.roster.nextId + 1 :=
          rfl
        refine iff_of_false hother fun he => ?_
        have : station.roster.nextId = id := he
        omega
    | unsubscribe other => cases hm
    | reload call conduct => cases hm

theorem Sole.subscribe (hs : station.Sole sink station.roster.nextId) :
    (station.call (.subscribe sink)).Sole sink station.roster.nextId := by
  intro subscription hm
  rcases List.mem_append.mp hm with hm | hm
  · exact hs subscription hm
  · obtain rfl := List.mem_singleton.mp hm
    exact iff_of_true rfl rfl

variable [DecidableEq σ]

-- What is told by way of `sink`.
def Outcome.heardBy (sink : σ) (outcome : Outcome σ) : List Message :=
  (tellings outcome.events).filterMap fun telling =>
    if telling.1.sink = sink then some telling.2 else none

theorem Sole.heardBy_outcome (hs : station.Sole sink id) (next : Call σ) :
    (station.outcome next).heardBy sink = (station.outcome next).heard id := by
  rw [Outcome.heardBy, Outcome.heard]
  refine List.filterMap_congr fun telling hm => ?_
  rw [(continues_call station next).2.1] at hm
  obtain ⟨message, -, ht⟩ := List.mem_flatMap.mp hm
  obtain ⟨subscription, hsub, rfl⟩ := List.mem_map.mp ht
  exact if_congr (hs subscription hsub) rfl rfl

theorem Sole.run (hs : station.Sole sink id) (h : station.roster.Numbered)
    (hne : .subscribe sink ∉ calls)
    (hid : id < station.roster.nextId ∨ (station.run calls).roster.nextId ≤ id) :
    (station.run calls).Sole sink id ∧
      (station.outcomes calls).flatMap (Outcome.heardBy sink) =
        (station.outcomes calls).flatMap (Outcome.heard id) := by
  induction calls generalizing station with
  | nil => exact ⟨hs, rfl⟩
  | cons next calls ih =>
      obtain ⟨hfirst, hrest⟩ := not_or.mp (mt List.mem_cons.mpr hne)
      have hcall := nextId_le_call station next
      have hrun := nextId_le_run (station.call next) calls
      have hlast : (station.run (next :: calls)).roster.nextId =
          ((station.call next).run calls).roster.nextId := rfl
      have hsole := hs.call h (Ne.symm hfirst) (by omega)
      obtain ⟨hlater, hheard⟩ := ih hsole (numbered_call h next) hrest (by omega)
      refine ⟨hlater, ?_⟩
      rw [outcomes, List.flatMap_cons, List.flatMap_cons, hs.heardBy_outcome, hheard]

-- A sink that subscribes only once hears what its subscriber does.
theorem heardBy_outcomes_subscribe (h : station.roster.Numbered)
    (habsent : ∀ subscription ∈ station.roster.subscriptions, subscription.sink ≠ sink)
    {later : List (Call σ)} (hc : .subscribe sink ∉ calls) (hl : .subscribe sink ∉ later) :
    let id := (station.run calls).roster.nextId
    let joined := (station.run calls).call (.subscribe sink)
    (station.outcomes (calls ++ .subscribe sink :: later)).flatMap (Outcome.heardBy sink) =
        (lifetime id (joined.outcomes later)).filterMap Outcome.message ∧
      (joined.run later).Sole sink id := by
  intro id joined
  have hrun := numbered_run h calls
  have hstart : station.Sole sink id := fun subscription hm => by
    have hlt := h.lt_nextId subscription.id (List.mem_map_of_mem hm)
    have hle := nextId_le_run station calls
    exact iff_of_false (habsent subscription hm) (by omega)
  obtain ⟨hsole, hbefore⟩ := hstart.run h hc (.inr (Nat.le_refl _))
  obtain ⟨hlast, hafter⟩ :=
    hsole.subscribe.run (numbered_call hrun _) hl (.inl (Nat.lt_succ_self _))
  refine ⟨?_, hlast⟩
  rw [← heard_outcomes_subscribe h calls later sink, outcomes_append, outcomes]
  simp only [List.flatMap_append, List.flatMap_cons]
  rw [hbefore, hafter, hsole.heardBy_outcome]

end Sole

-- Each subscriber is told what calls returned from its registration until it was unsubscribed, each
-- message once and in order.
theorem delivered_while_registered (reloader : Reloader) (calls : List (Call σ)) :
    let start : Station σ := opened reloader
    (∀ next, (start.run calls).Delivers next) ∧
      ∀ sink later,
        let id := ((start.run calls).roster.add sink).1
        (start.outcomes (calls ++ .subscribe sink :: later)).flatMap (Outcome.heard id) =
          (lifetime id (((start.run calls).call (.subscribe sink)).outcomes later)).filterMap
            Outcome.message := by
  intro start
  have hstart : start.roster.Numbered := ⟨List.Pairwise.nil, fun _ hi => nomatch hi⟩
  refine ⟨delivers (numbered_run hstart calls), fun sink later => ?_⟩
  exact heard_outcomes_subscribe hstart calls later sink

-- Told of the first change, the second of three subscribers unsubscribes itself and the third, who
-- hears of it all the same; only the first subscriber hears of the second change.
theorem told_while_being_dismissed :
    let reloader := Reloader.ofGraph {} (Graph.ofEdits [.register "a.js", .register "b.js"])
    let start : Station Unit := opened reloader
    let full := start.run [.subscribe (), .subscribe (), .subscribe ()]
    let change (url : Url) : (Subscription Unit → List Nat) → Call Unit :=
      .reload (.fileChanged ⟨url, .modified⟩)
    let first := change "a.js" fun subscription => if subscription.id = 1 then [1, 2] else []
    let second := change "b.js" fun _ => []
    let message := Message.fullReload "a.js modified" "no importer" (some "a.js")
    let other := Message.fullReload "b.js modified" "no importer" (some "b.js")
    tellings (full.outcome first).events =
        [(⟨0, ()⟩, message), (⟨1, ()⟩, message), (⟨2, ()⟩, message)] ∧
      (full.call first).roster.ids = [0] ∧
      (start.outcomes ([.subscribe (), .subscribe ()] ++ .subscribe () :: [first, second])).flatMap
        (Outcome.heard 2) = [message] ∧
      (start.outcomes ([] ++ .subscribe () :: [.subscribe (), .subscribe (), first, second])).flatMap
        (Outcome.heard 0) = [message, other] := by
  intro reloader start full change first second message other
  have hdelivers := (delivered_while_registered (σ := Unit) reloader
    [.subscribe (), .subscribe (), .subscribe ()]).1 first
  have hthird := (delivered_while_registered (σ := Unit) reloader
    [.subscribe (), .subscribe ()]).2 () [first, second]
  have hfirst := (delivered_while_registered (σ := Unit) reloader []).2 ()
    [.subscribe (), .subscribe (), first, second]
  refine ⟨?_, ?_, hthird.trans ?_, hfirst.trans ?_⟩
  · exact hdelivers.told message (by decide +kernel)
  · decide +kernel
  · decide +kernel
  · decide +kernel

end LiveReload.Station
