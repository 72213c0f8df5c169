import LiveReload.Proofs.Reloader.Pruning

namespace LiveReload

def Verdict.boundaries : Verdict → List Boundary
  | accepted boundaries => boundaries
  | declined _ _ => []

namespace Message

-- Each for its own cause, the messages say the same, but that the first has `leading` in front.
inductive AgreesUpTo (leading : List Instruction) : Message → Message → Prop
  | fullReload {cause other reason : String} {declinedBy : Option String} :
      AgreesUpTo leading (.fullReload cause reason declinedBy) (.fullReload other reason declinedBy)
  | hotReload {cause other : String} {updates : List Instruction} :
      AgreesUpTo leading (.hotReload cause (leading ++ updates)) (.hotReload other updates)

-- Whether an orphan declines does not depend on what stands in front of it.
theorem agreesUpTo_addOrphans (root : Url) (graph : Graph) (url : Url) (orphans : List Url)
    (cause other : String) (leading : List Boundary → List Instruction) (verdict : Verdict) :
    AgreesUpTo (leading verdict.boundaries)
      (addOrphans root graph url orphans (base root cause leading verdict))
      (addOrphans root graph url orphans (base root other (fun _ => []) verdict)) := by
  cases verdict with
  | declined reason who => exact .fullReload
  | accepted boundaries =>
      rw [base, base, addOrphans_hotReload, addOrphans_hotReload]
      cases orphans.find? graph.declinesAt with
      | none => exact .hotReload
      | some declining => exact .fullReload

end Message

namespace Reloader

variable {reloader : Reloader} {url : Url}

theorem graph_fileRemoved (hc : reloader.graph.contains url = true) :
    (reloader.fileChanged ⟨url, .removed⟩).result.reloader.graph =
      (reloader.graph.declare url { dependencies := some [] }).result.graph := by
  rw [reloader_fileChanged, if_pos rfl, reloader_fileRemoved, if_pos hc]

theorem graph_declare {declaration : Declaration}
    (hf : ((reloader.begin url).2.turnstile.pass (reloader.begin url).1).result.1 = true) :
    (reloader.declare url declaration).result.reloader.graph =
      (reloader.graph.declare url declaration).result.graph := by
  rw [declare, graph_finish, pass_fst_eq_true_iff.mp hf]
  rfl

theorem removed_file_like_empty_parse (config : Config) (hp : config.pruneNotifications = true)
    (calls : List Call) (url : Url) :
    let reloader := (empty config).run calls
    let removed := (reloader.fileChanged ⟨url, .removed⟩).result
    let parsed := (reloader.declare url { dependencies := some [] }).result
    reloader.graph.contains url = true →
      ((reloader.begin url).2.turnstile.pass (reloader.begin url).1).result.1 = true →
      (∃ other, (∃ source, source ∈ reloader.graph.dependentsOf other) ∧
        ∀ source, source ∉ removed.reloader.graph.dependentsOf other) →
      removed.reloader.graph = parsed.reloader.graph ∧
        ∃ verdict message other, removed.reloader.graph.verdictAt url = .ok verdict ∧
          removed.message = some message ∧ parsed.message = some other ∧
          message.AgreesUpTo (verdict.boundaries.map
            (Boundary.instruction config.rootUrl removed.reloader.graph)) other := by
  intro reloader removed parsed hc hf horphan
  have hw : reloader.graph.WellFormed := wellFormed_run Graph.WellFormed.empty calls
  have hconfig : reloader.config = config := config_run (empty config) calls
  rw [← hconfig] at hp ⊢
  have hremoved : removed.reloader.graph = _ := graph_fileRemoved hc
  have hparsed : parsed.reloader.graph = _ := graph_declare hf
  have hne :
      (reloader.graph.declare url { dependencies := some [] }).result.orphaned ≠ [] := by
    obtain ⟨other, ho⟩ := horphan
    rw [hremoved, ← hw.mem_orphans_declare, ← hw.orphaned_declare] at ho
    exact List.ne_nil_of_mem ho
  obtain ⟨verdict, hv⟩ :=
    reloader.graph.exists_verdictAt_declare url { dependencies := some [] }
  have hm : removed.message = some _ :=
    @message_fileRemoved_of_orphaned reloader ⟨url, .removed⟩ hc hp verdict hne hv
  have ho : parsed.message = some _ :=
    @message_finish_of_orphaned (reloader.begin url).2 (reloader.begin url).1
      { dependencies := some [] } (pass_fst_eq_true_iff.mp hf) hp verdict hne hv
  refine ⟨hremoved.trans hparsed.symm, verdict, _, _, hremoved ▸ hv, hm, ho, ?_⟩
  rw [hremoved]
  exact Message.agreesUpTo_addOrphans ..

-- `theme.css` is left behind. When the file went, `main.css` is re-applied first.
theorem stylesheet_removed_like_empty_parse :
    let calls : List Call :=
      [.declare "http://localhost/main.css"
        { kind := some "css"
          dependencies := some ["http://localhost/theme.css"]
          selfAccepts := some true }]
    let reloader := (empty {}).run calls
    let removed := (reloader.fileChanged ⟨"http://localhost/main.css", .removed⟩).result
    let parsed :=
      (reloader.declare "http://localhost/main.css" { dependencies := some [] }).result
    reloader.graph.contains "http://localhost/main.css" = true ∧
      removed.reloader.graph = parsed.reloader.graph ∧
      removed.message = some (.hotReload "main.css removed"
        [⟨"css", "main.css", "main.css"⟩, ⟨"prune", "theme.css", "main.css"⟩]) ∧
      parsed.message = some (.hotReload "following files are no longer referenced: theme.css"
        [⟨"prune", "theme.css", "main.css"⟩]) ∧
      ∃ message other, removed.message = some message ∧ parsed.message = some other ∧
        message.AgreesUpTo [⟨"css", "main.css", "main.css"⟩] other := by
  intro calls reloader removed parsed
  have hc : reloader.graph.contains "http://localhost/main.css" = true := by decide +kernel
  have horphan : ∃ other, (∃ source, source ∈ reloader.graph.dependentsOf other) ∧
      ∀ source, source ∉ removed.reloader.graph.dependentsOf other := by
    refine ⟨"http://localhost/theme.css", ⟨"http://localhost/main.css", by decide +kernel⟩, ?_⟩
    exact Graph.isEmpty_dependentsOf_iff.mp (by decide +kernel)
  obtain ⟨hgraph, verdict, message, other, hv, hm, ho, hagrees⟩ :=
    removed_file_like_empty_parse {} rfl calls "http://localhost/main.css" hc
      (by decide +kernel) horphan
  have hverdict : removed.reloader.graph.verdictAt "http://localhost/main.css" =
      .ok (.accepted [⟨"http://localhost/main.css", "http://localhost/main.css"⟩]) := by
    decide +kernel
  obtain rfl := Except.ok.inj (hverdict.symm.trans hv)
  refine ⟨hc, hgraph, by decide +kernel, by decide +kernel, message, other, hm, ho, ?_⟩
  have hleading : ([⟨"http://localhost/main.css", "http://localhost/main.css"⟩] : List Boundary).map
      (Boundary.instruction "http://localhost/" removed.reloader.graph) =
        [⟨"css", "main.css", "main.css"⟩] := by
    decide +kernel
  exact hleading ▸ hagrees

end Reloader

end LiveReload
