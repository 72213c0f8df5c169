import LiveReload.Proofs.Graph.WellFormed
import LiveReload.Reloader

namespace LiveReload.Reloader

inductive Call where
  -- The graph is shared, so it may be edited past the reloader.
  | edit (edit : Graph.Edit)
  | begin (url : Url)
  | finish (ticket : Ticket) (declaration : Declaration)
  | declare (url : Url) (declaration : Declaration)
  | fileChanged (event : FileEvent)
  | remove (url : Url)

def call (reloader : Reloader) : Call → Reloader
  | .edit edit => { reloader with graph := reloader.graph.edit edit }
  | .begin url => (reloader.begin url).2
  | .finish ticket declaration => (reloader.finish ticket declaration).result.reloader
  | .declare url declaration => (reloader.declare url declaration).result.reloader
  | .fileChanged event => (reloader.fileChanged event).result.reloader
  | .remove url => (reloader.remove url).result.2

-- A new reloader for a graph that is there already.
def ofGraph (config : Config) (graph : Graph) : Reloader := ⟨config, graph, ∅⟩

def run (reloader : Reloader) (calls : List Call) : Reloader := calls.foldl call reloader

@[simp] theorem run_nil (reloader : Reloader) : reloader.run [] = reloader := rfl

theorem run_append (reloader : Reloader) (calls more : List Call) :
    reloader.run (calls ++ more) = (reloader.run calls).run more := List.foldl_append

theorem run_concat (reloader : Reloader) (calls : List Call) (next : Call) :
    reloader.run (calls ++ [next]) = (reloader.run calls).call next := by
  rw [run_append]
  rfl

section Responses

variable {reloader : Reloader}

@[simp] theorem result_silent : reloader.silent.result = ⟨reloader, none⟩ := rfl

@[simp] theorem result_sayAny (message : Option Message) :
    (reloader.sayAny message).result = ⟨reloader, message⟩ := by
  cases message <;> rfl

-- A stale ticket costs nothing but its record.
theorem result_finish_of_stale {ticket : Ticket} {declaration : Declaration}
    (h : reloader.turnstile.isStale ticket = true) :
    (reloader.finish ticket declaration).result =
      ⟨{ reloader with turnstile := (reloader.turnstile.pass ticket).result.2 }, none⟩ := by
  have hp : (reloader.turnstile.pass ticket).result.1 = false := by
    simp [Turnstile.pass, h]
  simp only [finish, Logged.result_bind, hp]
  rfl

theorem reloader_finish_of_fresh {ticket : Ticket} {declaration : Declaration}
    (h : reloader.turnstile.isStale ticket = false) :
    (reloader.finish ticket declaration).result.reloader =
      { reloader with
        graph := (reloader.graph.declare ticket.url declaration).result.graph
        turnstile := (reloader.turnstile.pass ticket).result.2 } := by
  have hp : (reloader.turnstile.pass ticket).result.1 = true := by
    simp [Turnstile.pass, h]
  simp only [finish, Logged.result_bind, hp, if_true]
  split
  · simp only [Logged.result_bind]
    split <;> simp
  · rfl

theorem turnstile_finish (ticket : Ticket) (declaration : Declaration) :
    (reloader.finish ticket declaration).result.reloader.turnstile =
      (reloader.turnstile.pass ticket).result.2 := by
  cases h : reloader.turnstile.isStale ticket with
  | true => rw [result_finish_of_stale h]
  | false => rw [reloader_finish_of_fresh h]

theorem graph_finish (ticket : Ticket) (declaration : Declaration) :
    (reloader.finish ticket declaration).result.reloader.graph =
      if reloader.turnstile.isStale ticket then reloader.graph
      else (reloader.graph.declare ticket.url declaration).result.graph := by
  cases h : reloader.turnstile.isStale ticket with
  | true => rw [result_finish_of_stale h, if_pos rfl]
  | false => rw [reloader_finish_of_fresh h, if_neg Bool.false_ne_true]

theorem config_finish (ticket : Ticket) (declaration : Declaration) :
    (reloader.finish ticket declaration).result.reloader.config = reloader.config := by
  cases h : reloader.turnstile.isStale ticket with
  | true => rw [result_finish_of_stale h]
  | false => rw [reloader_finish_of_fresh h]

theorem reloader_fileRemoved (event : FileEvent) :
    (reloader.fileRemoved event).result.reloader =
      if reloader.graph.contains event.url then
        { reloader with
          graph := (reloader.graph.declare event.url { dependencies := some [] }).result.graph }
      else reloader := by
  unfold fileRemoved
  split
  · simp only [Logged.result_bind]
    split <;> simp
  · simp

theorem result_fileChanged_of_ne {event : FileEvent} (hk : event.kind ≠ .removed) :
    (reloader.fileChanged event).result = ⟨reloader, (reloader.announce event).result⟩ := by
  unfold fileChanged
  cases hkind : event.kind with
  | removed => exact absurd hkind hk
  | added => simp only [Logged.result_bind, result_sayAny]
  | modified => simp only [Logged.result_bind, result_sayAny]

theorem reloader_fileChanged (event : FileEvent) :
    (reloader.fileChanged event).result.reloader =
      if event.kind = .removed then (reloader.fileRemoved event).result.reloader
      else reloader := by
  unfold fileChanged
  cases event.kind <;> simp

end Responses

-- The edit that a call makes, if it makes one.
def Call.edit? : Call → Option Graph.Edit
  | .edit next => some next
  | .begin _ => none
  | .finish ticket declaration => some (.declare ticket.url declaration)
  | .declare url declaration => some (.declare url declaration)
  | .fileChanged event =>
    if event.kind = .removed then some (.declare event.url { dependencies := some [] }) else none
  | .remove url => some (.remove url)

-- Every call edits the graph at most once, and as `Graph.edit` does.
theorem graph_call (reloader : Reloader) (next : Call) :
    (reloader.call next).graph = reloader.graph ∨
      ∃ edit ∈ next.edit?, (reloader.call next).graph = reloader.graph.edit edit := by
  cases next with
  | edit edit => exact .inr ⟨edit, rfl, rfl⟩
  | begin url => exact .inl rfl
  | finish ticket declaration =>
      rw [call, graph_finish]
      split
      · exact .inl rfl
      · exact .inr ⟨.declare ticket.url declaration, rfl, rfl⟩
  | declare url declaration =>
      rw [call, declare, graph_finish]
      split
      · exact .inl rfl
      · exact .inr ⟨.declare url declaration, rfl, rfl⟩
  | fileChanged event =>
      rw [call, reloader_fileChanged, reloader_fileRemoved, Call.edit?]
      split_ifs
      · exact .inr ⟨.declare event.url { dependencies := some [] }, rfl, rfl⟩
      · exact .inl rfl
      · exact .inl rfl
  | remove url => exact .inr ⟨.remove url, rfl, rfl⟩

theorem config_call (reloader : Reloader) (next : Call) :
    (reloader.call next).config = reloader.config := by
  cases next with
  | edit edit => rfl
  | begin url => rfl
  | finish ticket declaration => exact config_finish ticket declaration
  | declare url declaration => exact config_finish _ declaration
  | fileChanged event =>
      rw [call, reloader_fileChanged, reloader_fileRemoved]
      split_ifs <;> rfl
  | remove url => rfl

theorem config_run (reloader : Reloader) (calls : List Call) :
    (reloader.run calls).config = reloader.config := by
  induction calls generalizing reloader with
  | nil => rfl
  | cons next calls ih => exact (ih _).trans (config_call reloader next)

theorem exists_edits_run (reloader : Reloader) (calls : List Call) :
    ∃ edits : List Graph.Edit,
      (reloader.run calls).graph = edits.foldl Graph.edit reloader.graph := by
  induction calls generalizing reloader with
  | nil => exact ⟨[], rfl⟩
  | cons next calls ih =>
      obtain ⟨rest, hr⟩ := ih (reloader.call next)
      rcases reloader.graph_call next with he | ⟨first, -, he⟩
      · refine ⟨rest, hr.trans ?_⟩
        rw [he]
      · refine ⟨first :: rest, hr.trans ?_⟩
        rw [he]
        rfl

theorem wellFormed_run {reloader : Reloader} (h : reloader.graph.WellFormed) (calls : List Call) :
    (reloader.run calls).graph.WellFormed := by
  obtain ⟨edits, he⟩ := exists_edits_run reloader calls
  rw [he]
  exact h.foldl_edit edits

end LiveReload.Reloader
