import LiveReload.Proofs.Graph.History
import LiveReload.Proofs.Graph.Undoing
import LiveReload.Proofs.Reloader.Run

namespace LiveReload

namespace Graph

def identityAt (graph : Graph) (url : Url) : Option Nat := (graph.get? url).map Resource.id

-- Identities are counted, so the next one differs from all that are in use.
structure Identified (graph : Graph) : Prop where
  lt_nextId : ∀ url id, graph.identityAt url = some id → id < graph.nextId
  injective : ∀ url other id, graph.identityAt url = some id → graph.identityAt other = some id →
    url = other

-- From `graph` to `after` only resources in `gone` are lost, and what comes is new.
structure Evolves (gone : Url → Bool) (graph after : Graph) : Prop where
  nextId_le : graph.nextId ≤ after.nextId
  kept : ∀ url id, gone url = false → graph.identityAt url = some id →
    after.identityAt url = some id
  new : ∀ url id, after.identityAt url = some id →
    graph.identityAt url = some id ∨ graph.nextId ≤ id
  identified : graph.Identified → after.Identified

variable {graph middle after : Graph} {url : Url} {gone : Url → Bool}

theorem Identified.empty : (∅ : Graph).Identified := ⟨nofun, nofun⟩

theorem identityAt_eq_none_iff : graph.identityAt url = none ↔ graph.contains url = false := by
  rw [identityAt, Option.map_eq_none_iff, contains_eq_isSome, Option.isSome_eq_false_iff,
    Option.isNone_iff_eq_none]

theorem identityAt_mapResources {f : Url → Resource → Resource}
    (hf : ∀ key resource, (f key resource).id = resource.id) (url : Url) :
    (graph.mapResources f).identityAt url = graph.identityAt url := by
  simp only [identityAt, get?_mapResources, Option.map_map]
  congr 1
  funext resource
  exact hf url resource

theorem identityAt_register (h : graph.contains url = false) (other : Url) :
    (graph.register url).identityAt other =
      if other = url then some graph.nextId else graph.identityAt other := by
  have hnone : graph.get? url = none := Option.map_eq_none_iff.mp (identityAt_eq_none_iff.mpr h)
  rw [identityAt, get?_register, hnone, Option.getD_none]
  split <;> rfl

theorem identityAt_drop (graph : Graph) (url other : Url) :
    (graph.drop url).identityAt other = if other = url then none else graph.identityAt other := by
  rw [identityAt, get?_drop]
  split <;> rfl

theorem Identified.register (h : graph.Identified) (hc : graph.contains url = false) :
    (graph.register url).Identified := by
  have hnext : (graph.register url).nextId = graph.nextId + 1 :=
    congrArg nextId (register_of_not_contains hc)
  refine ⟨fun other id hid => ?_, fun one other id hone hother => ?_⟩
  · rw [identityAt_register hc] at hid
    rw [hnext]
    split at hid
    · cases hid
      exact Nat.lt_succ_self _
    · exact Nat.lt_succ_of_lt (h.lt_nextId other id hid)
  · rw [identityAt_register hc] at hone hother
    split at hone <;> split at hother
    · exact ‹one = url›.trans ‹other = url›.symm
    · cases hone
      exact absurd (h.lt_nextId _ _ hother) (Nat.lt_irrefl _)
    · cases hother
      exact absurd (h.lt_nextId _ _ hone) (Nat.lt_irrefl _)
    · exact h.injective one other id hone hother

namespace Evolves

theorem refl (gone : Url → Bool) (graph : Graph) : Evolves gone graph graph :=
  ⟨Nat.le_refl _, fun _ _ _ h => h, fun _ _ h => .inl h, id⟩

theorem trans (h : Evolves gone graph middle) (hnext : Evolves gone middle after) :
    Evolves gone graph after where
  nextId_le := h.nextId_le.trans hnext.nextId_le
  kept url id hg hid := hnext.kept url id hg (h.kept url id hg hid)
  new url id hid := by
    rcases hnext.new url id hid with hold | hnew
    · exact h.new url id hold
    · exact .inr (h.nextId_le.trans hnew)
  identified := hnext.identified ∘ h.identified

theorem register (gone : Url → Bool) (graph : Graph) (url : Url) :
    Evolves gone graph (graph.register url) := by
  cases hc : graph.contains url with
  | true =>
      rw [register_of_contains hc]
      exact refl gone graph
  | false =>
      have hnone := identityAt_eq_none_iff.mpr hc
      refine ⟨?_, fun other id _ hid => ?_, fun other id hid => ?_, fun h => h.register hc⟩
      · rw [register_of_not_contains hc]
        exact Nat.le_succ _
      · have hne : other ≠ url := by
          rintro rfl
          cases hnone.symm.trans hid
        rw [identityAt_register hc, if_neg hne, hid]
      · rw [identityAt_register hc] at hid
        split at hid
        · exact .inr (Option.some.inj hid).le
        · exact .inl hid

theorem foldl_register (gone : Url → Bool) (urls : List Url) (graph : Graph) :
    Evolves gone graph (urls.foldl Graph.register graph) := by
  induction urls generalizing graph with
  | nil => exact refl gone graph
  | cons url urls ih => exact (register gone graph url).trans (ih _)

theorem mapResources {f : Url → Resource → Resource}
    (hf : ∀ key resource, (f key resource).id = resource.id) (gone : Url → Bool) (graph : Graph) :
    Evolves gone graph (graph.mapResources f) := by
  have hsame : (graph.mapResources f).identityAt = graph.identityAt :=
    funext (identityAt_mapResources hf)
  refine ⟨Nat.le_refl _, fun url id _ hid => hsame ▸ hid, fun url id hid => .inl (hsame ▸ hid),
    fun h => ⟨?_, ?_⟩⟩
  · rw [hsame]
    exact h.lt_nextId
  · rw [hsame]
    exact h.injective

theorem modify {f : Resource → Resource} (hf : ∀ resource, (f resource).id = resource.id)
    (gone : Url → Bool) (graph : Graph) (url : Url) : Evolves gone graph (graph.modify url f) :=
  mapResources (fun key resource => by split_ifs; exacts [hf resource, rfl]) gone graph

theorem drop (graph : Graph) (hgone : gone url = true) : Evolves gone graph (graph.drop url) := by
  have hfound : ∀ other id, (graph.drop url).identityAt other = some id →
      graph.identityAt other = some id := by
    intro other id hid
    rw [identityAt_drop] at hid
    split at hid
    · cases hid
    · exact hid
  refine ⟨Nat.le_refl _, fun other id hg hid => ?_, fun other id hid => .inl (hfound other id hid),
    fun h => ⟨fun other id hid => h.lt_nextId other id (hfound other id hid),
      fun one other id hone hother =>
        h.injective one other id (hfound one id hone) (hfound other id hother)⟩⟩
  have hne : other ≠ url := by
    rintro rfl
    cases hgone.symm.trans hg
  rw [identityAt_drop, if_neg hne, hid]

theorem redirect (gone : Url → Bool) (graph : Graph) (url : Url) (next : UrlSet) :
    Evolves gone graph (graph.redirect url next).result.graph := by
  have hrelisted : Evolves gone graph (graph.relisted url next) :=
    (modify (f := fun resource => { resource with dependencies := next }) (fun _ => rfl) gone
      graph url).trans (foldl_register gone _ _)
  rw [graph_redirect]
  refine hrelisted.trans (mapResources (fun key resource => ?_) gone _)
  split_ifs <;> rfl

theorem declare (gone : Url → Bool) (graph : Graph) (url : Url) (declaration : Declaration) :
    Evolves gone graph (graph.declare url declaration).result.graph := by
  have hdeclared : Evolves gone graph ((graph.register url).modify url (·.declare declaration)) :=
    (register gone graph url).trans (modify (f := (·.declare declaration)) (fun _ => rfl) gone _ url)
  cases hd : declaration.dependencies with
  | none =>
      rw [graph_declare_of_none hd]
      exact hdeclared
  | some urls =>
      rw [result_declare_of_some hd]
      exact hdeclared.trans (redirect gone _ url (.ofList urls))

theorem remove (graph : Graph) (hgone : gone url = true) :
    Evolves gone graph (graph.remove url).result.graph := by
  cases hr : graph.get? url with
  | none =>
      rw [remove_of_none hr]
      exact refl gone graph
  | some resource =>
      rw [graph_remove hr]
      refine (drop graph hgone).trans (mapResources (fun key other => ?_) gone _)
      unfold sever
      split_ifs <;> rfl

end Evolves

theorem evolves_edit (graph : Graph) (next : Edit) :
    Evolves (next.removes ·) graph (graph.edit next) := by
  cases next with
  | register url => exact .register _ graph url
  | declare url declaration => exact .declare _ graph url declaration
  | remove url => exact .remove graph (decide_eq_true rfl)

end Graph

namespace Reloader

def Call.unregisters (next : Call) (url : Url) : Bool := next.edit?.any (·.removes url)

variable {reloader : Reloader}

theorem evolves_call (reloader : Reloader) (next : Call) :
    Graph.Evolves next.unregisters reloader.graph (reloader.call next).graph := by
  rcases reloader.graph_call next with he | ⟨edit, hm, he⟩
  · rw [he]
    exact .refl _ _
  · have hremoves : next.unregisters = (edit.removes ·) := by
      funext url
      rw [Call.unregisters, Option.mem_def.mp hm, Option.any_some]
    rw [he, hremoves]
    exact Graph.evolves_edit ..

theorem identified_run (h : reloader.graph.Identified) (calls : List Call) :
    (reloader.run calls).graph.Identified := by
  induction calls generalizing reloader with
  | nil => exact h
  | cons next calls ih => exact ih ((evolves_call reloader next).identified h)

theorem nextId_le_run (reloader : Reloader) (calls : List Call) :
    reloader.graph.nextId ≤ (reloader.run calls).graph.nextId := by
  induction calls generalizing reloader with
  | nil => exact Nat.le_refl _
  | cons next calls ih => exact (evolves_call reloader next).nextId_le.trans (ih _)

theorem identities_of_run (config : Config) (calls : List Call) :
    let graph := ((empty config).run calls).graph
    (∀ url other id, graph.identityAt url = some id → graph.identityAt other = some id →
        url = other) ∧
      ∀ next url,
        let after := ((empty config).run (calls ++ [next])).graph
        (graph.contains url = true → next.unregisters url = false →
            ∃ id, graph.identityAt url = some id ∧ after.identityAt url = some id) ∧
          (graph.contains url = false → ∀ id, after.identityAt url = some id →
            ∀ earlier, earlier <+: calls →
              ∀ other, ((empty config).run earlier).graph.identityAt other ≠ some id) := by
  intro graph
  have hempty : (empty config).graph.Identified := Graph.Identified.empty
  have hidentified := identified_run hempty
  refine ⟨(hidentified calls).injective, ?_⟩
  intro next url after
  have hevolves : Graph.Evolves next.unregisters graph after := by
    simp only [after, run_concat]
    exact evolves_call _ next
  refine ⟨fun hc hkept => ?_, fun hc id hid earlier hprefix other hother => ?_⟩
  · obtain ⟨resource, hr⟩ := Option.isSome_iff_exists.mp hc
    have hid : graph.identityAt url = some resource.id := congrArg (Option.map Resource.id) hr
    exact ⟨resource.id, hid, hevolves.kept url resource.id hkept hid⟩
  · have hnew : graph.nextId ≤ id := by
      rcases hevolves.new url id hid with hold | hnew
      · cases (Graph.identityAt_eq_none_iff.mpr hc).symm.trans hold
      · exact hnew
    obtain ⟨later, rfl⟩ := hprefix
    have hlt := (hidentified earlier).lt_nextId other id hother
    have hle := ((empty config).run earlier).nextId_le_run later
    rw [← run_append] at hle
    exact absurd (hlt.trans_le (hle.trans hnew)) (Nat.lt_irrefl _)

-- `a.js` is registered as a target, removed while `b.js` references it, and registered again.
theorem identities_around_removal :
    let calls : List Call := [.edit (.declare "b.js" { dependencies := some ["a.js", "c.js"] }),
      .fileChanged (.modified "a.js"), .remove "a.js"]
    let graph := ((empty {}).run calls).graph
    let after := ((empty {}).run (calls ++ [.edit (.register "a.js")])).graph
    graph.contains "b.js" = true ∧ graph.contains "a.js" = false ∧
      (∃ id, graph.identityAt "b.js" = some id ∧ after.identityAt "b.js" = some id) ∧
      ((empty {}).run (calls.take 2)).graph.identityAt "a.js" = some 1 ∧
      after.identityAt "a.js" = some 3 ∧
      ∀ earlier, earlier <+: calls →
        ∀ other, ((empty {}).run earlier).graph.identityAt other ≠ some 3 := by
  intro calls graph after
  have hb : graph.contains "b.js" = true := by decide +kernel
  have ha : graph.contains "a.js" = false := by decide +kernel
  have hid : after.identityAt "a.js" = some 3 := by decide +kernel
  have hsteps := (identities_of_run {} calls).2 (.edit (.register "a.js"))
  exact ⟨hb, ha, (hsteps "b.js").1 hb rfl, by decide +kernel, hid, (hsteps "a.js").2 ha 3 hid⟩

end Reloader

end LiveReload
