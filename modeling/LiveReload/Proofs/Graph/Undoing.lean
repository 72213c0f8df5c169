import LiveReload.Proofs.Graph.Clearing

namespace LiveReload.Graph

-- A fresh resource for each of `urls`, with identities from `first` on.
def freshEntries (first : Nat) (urls : List Url) : List (Url × Resource) :=
  (urls.zipIdx first).map fun (url, id) => (url, .fresh id url)

variable {graph : Graph} {url other : Url} {declaration : Declaration}

section Register

theorem register_of_not_contains (h : graph.contains url = false) :
    graph.register url =
      ⟨graph.resources.insert url (.fresh graph.nextId url), graph.nextId + 1⟩ := by
  simp [register, h, detached]

theorem not_mem_keys (h : graph.contains url = false) : url ∉ graph.resources.keys := by
  rw [← Table.contains_iff_mem_keys, Bool.not_eq_true]
  exact h

theorem filter_not_contains_register {urls : List Url} (hu : url ∉ urls) :
    urls.filter (!(graph.register url).contains ·) = urls.filter (!graph.contains ·) := by
  apply List.filter_congr
  intro other ho
  have hne : other ≠ url := fun he => hu (he ▸ ho)
  have hcontains : (graph.register url).contains other = graph.contains other := by
    rw [Bool.eq_iff_iff, contains_register, or_iff_left hne]
  rw [hcontains]

theorem entries_foldl_register {urls : List Url} (hn : urls.Nodup) (graph : Graph) :
    (urls.foldl register graph).resources.entries = graph.resources.entries ++
      freshEntries graph.nextId (urls.filter (!graph.contains ·)) := by
  induction urls generalizing graph with
  | nil => simp [freshEntries]
  | cons url urls ih =>
      obtain ⟨hurl, hurls⟩ := List.nodup_cons.mp hn
      rw [List.foldl_cons, ih hurls, filter_not_contains_register hurl]
      cases hc : graph.contains url with
      | true => rw [register_of_contains hc, List.filter_cons_of_neg (by simp [hc])]
      | false =>
          rw [register_of_not_contains hc, List.filter_cons_of_pos (by simp [hc]),
            Table.entries_insert_of_not_mem (not_mem_keys hc), List.append_assoc]
          rfl

theorem nextId_foldl_register {urls : List Url} (hn : urls.Nodup) (graph : Graph) :
    (urls.foldl register graph).nextId =
      graph.nextId + (urls.filter (!graph.contains ·)).length := by
  induction urls generalizing graph with
  | nil => rfl
  | cons url urls ih =>
      obtain ⟨hurl, hurls⟩ := List.nodup_cons.mp hn
      rw [List.foldl_cons, ih hurls, filter_not_contains_register hurl]
      cases hc : graph.contains url with
      | true => rw [register_of_contains hc, List.filter_cons_of_neg (by simp [hc])]
      | false =>
          rw [register_of_not_contains hc, List.filter_cons_of_pos (by simp [hc]),
            List.length_cons, Nat.add_right_comm, Nat.add_assoc]

theorem drop_register_of_not_contains (h : graph.contains url = false) :
    (graph.register url).drop url = { graph with nextId := graph.nextId + 1 } := by
  rw [register_of_not_contains h, drop, Table.erase_insert_of_not_mem (not_mem_keys h)]

theorem contains_drop_of_ne (graph : Graph) (hne : other ≠ url) :
    (graph.drop url).contains other = graph.contains other := by
  rw [contains_eq_isSome, get?_drop, if_neg hne, contains_eq_isSome]

theorem drop_register_of_ne (hne : other ≠ url) :
    (graph.register other).drop url = (graph.drop url).register other := by
  have hdrop := graph.contains_drop_of_ne hne
  cases hc : graph.contains other with
  | true => rw [register_of_contains hc, register_of_contains (hdrop.trans hc)]
  | false =>
      rw [register_of_not_contains hc, register_of_not_contains (hdrop.trans hc), drop,
        Table.erase_insert_of_ne hne]
      rfl

theorem drop_foldl_register {urls : List Url} (hc : graph.contains url = true) :
    (urls.foldl register graph).drop url =
      (urls.filter (· ≠ url)).foldl register (graph.drop url) := by
  induction urls generalizing graph with
  | nil => rfl
  | cons other urls ih =>
      rw [List.foldl_cons, ih (contains_register.mpr (.inl hc))]
      by_cases hne : other = url
      · subst other
        rw [register_of_contains hc, List.filter_cons_of_neg (by simp)]
      · rw [List.filter_cons_of_pos (by simpa using hne), List.foldl_cons, drop_register_of_ne hne]

theorem drop_modify (graph : Graph) (url : Url) (f : Resource → Resource) :
    (graph.modify url f).drop url = graph.drop url := by
  rw [modify_eq_mapResources, drop_mapResources]
  apply mapResources_eq_self
  intro key resource hr
  exact if_neg (get?_drop_eq_some.mp hr).1

end Register

section Undo

theorem dependenciesOf_of_not_contains (h : graph.contains url = false) :
    graph.dependenciesOf url = ∅ := by
  rw [contains_eq_isSome, Option.isSome_eq_false_iff, Option.isNone_iff_eq_none] at h
  rw [dependenciesOf, h]
  rfl

-- Nobody references what is not registered.
theorem WellFormed.not_mem_dependenciesOf (h : graph.WellFormed) (hc : graph.contains url = false) :
    url ∉ graph.dependenciesOf other := by
  intro hm
  rw [h.contains_of_mem_dependenciesOf hm] at hc
  cases hc

theorem WellFormed.not_mem_dependentsOf (h : graph.WellFormed) (hc : graph.contains url = false) :
    url ∉ graph.dependentsOf other := by
  rw [← h.mirrored, dependenciesOf_of_not_contains hc]
  exact List.not_mem_nil

theorem dependenciesOf_declare_of_not_contains (h : graph.contains url = false)
    (declaration : Declaration) :
    (graph.declare url declaration).result.graph.dependenciesOf url =
      .ofList (declaration.dependencies.getD []) := by
  rw [dependenciesOf_declare, if_pos rfl, dependenciesOf_of_not_contains h]
  cases declaration.dependencies <;> rfl

theorem WellFormed.not_mem_dependentsOf_declare (h : graph.WellFormed)
    (hc : graph.contains url = false) (declaration : Declaration) (hne : other ≠ url) :
    other ∉ (graph.declare url declaration).result.graph.dependentsOf url := by
  rw [← (h.declare url declaration).mirrored, dependenciesOf_declare, if_neg hne]
  exact h.not_mem_dependenciesOf hc

-- A source that referenced nothing before only gets new edges.
theorem graph_redirect_of_empty (h : graph.dependenciesOf url = ∅) (next : UrlSet) :
    (graph.redirect url next).result.graph =
      (next.toList.foldl register
        (graph.modify url fun resource => { resource with dependencies := next })).mapResources
          fun key resource => if key ∈ next then resource.addDependent url else resource := by
  have hdropped : (∅ : UrlSet).without next = [] := rfl
  have hadded : next.without ∅ = next.toList :=
    List.filter_eq_self.mpr fun other _ => by simp [UrlSet.mem_def]
  rw [graph_redirect, relisted, h, hdropped, hadded]
  simp only [List.not_mem_nil, if_false, UrlSet.mem_def]

-- The removal of `url` takes back the edge that `url` brought.
theorem sever_addDependent {gone resource : Resource} {key : Url} (hk : key ∉ gone.dependents)
    (hr : url ∉ resource.dependents) :
    sever gone url key
      (if key ∈ gone.dependencies then resource.addDependent url else resource) = resource := by
  rw [sever, if_neg hk]
  split_ifs
  · rw [Resource.removeDependent, Resource.addDependent, UrlSet.erase_insert_of_not_mem hr]
  · rfl

-- What `f` did is taken back, but at `url` itself, which goes anyway.
theorem graph_remove_mapResources {f : Url → Resource → Resource} {gone : Resource}
    (hg : (graph.mapResources f).get? url = some gone)
    (h : ∀ key resource, key ≠ url → graph.get? key = some resource →
      sever gone url key (f key resource) = resource) :
    ((graph.mapResources f).remove url).result.graph = graph.drop url := by
  rw [graph_remove hg, drop_mapResources, mapResources_mapResources]
  apply mapResources_eq_self
  intro key resource hr
  obtain ⟨hne, hr⟩ := get?_drop_eq_some.mp hr
  exact h key resource hne hr

theorem WellFormed.graph_remove_declare (h : graph.WellFormed) (hc : graph.contains url = false)
    (declaration : Declaration) :
    ((graph.declare url declaration).result.graph.remove url).result.graph =
      ((declaration.dependencies.getD []).eraseDups.filter (· ≠ url)).foldl Graph.register
        { graph with nextId := graph.nextId + 1 } := by
  obtain ⟨gone, hg⟩ : ∃ gone,
      (graph.declare url declaration).result.graph.get? url = some gone := ⟨_, get?_declare_self⟩
  have hnone : graph.dependenciesOf url = ∅ := dependenciesOf_of_not_contains hc
  have hdependencies : gone.dependencies = .ofList (declaration.dependencies.getD []) := by
    rw [← dependenciesOf_of_get? hg, dependenciesOf_declare_of_not_contains hc]
  have hdependents : ∀ key, key ≠ url → key ∉ gone.dependents := by
    intro key hne
    rw [← dependentsOf_of_get? hg]
    exact h.not_mem_dependentsOf_declare hc declaration hne
  cases hd : declaration.dependencies with
  | none =>
      rw [hd] at hdependencies
      rw [graph_declare_of_none hd, modify_eq_mapResources] at hg ⊢
      rw [graph_remove_mapResources hg, drop_register_of_not_contains hc]
      · rfl
      · intro key resource hne _
        have hkey : key ∉ gone.dependencies := hdependencies ▸ List.not_mem_nil
        rw [if_neg hne, sever, if_neg hkey, if_neg (hdependents key hne)]
  | some urls =>
      rw [hd, Option.getD_some] at hdependencies
      rw [result_declare_of_some hd, ← hdependencies,
        graph_redirect_of_empty ((dependenciesOf_declared url).trans hnone)] at hg ⊢
      rw [graph_remove_mapResources hg, drop_foldl_register (by simp), drop_modify, drop_modify,
        drop_register_of_not_contains hc, hdependencies, UrlSet.toList_ofList, Option.getD_some]
      intro key resource hne hr
      apply sever_addDependent (hdependents key hne)
      rw [← dependentsOf_of_get? hr, dependentsOf_foldl_register, dependentsOf_modify,
        dependentsOf_declared]
      · exact h.not_mem_dependentsOf hc
      · exact fun _ => rfl

theorem WellFormed.orphaned_remove_declare (h : graph.WellFormed)
    (hc : graph.contains url = false) (declaration : Declaration) :
    ((graph.declare url declaration).result.graph.remove url).result.orphaned =
      ((declaration.dependencies.getD []).eraseDups.filter (· ≠ url)).filter
        fun other => !graph.contains other || graph.isUnused other := by
  have hlisted : ((graph.declare url declaration).result.graph.dependenciesOf url).toList =
      (declaration.dependencies.getD []).eraseDups := by
    rw [dependenciesOf_declare_of_not_contains hc, UrlSet.toList_ofList]
  rw [orphaned_remove, hlisted, h.graph_remove_declare hc, List.filter_filter]
  apply List.filter_congr
  intro other ho
  have hcontains : ({ graph with nextId := graph.nextId + 1 } : Graph).contains other =
      graph.contains other := rfl
  have hdependents : ({ graph with nextId := graph.nextId + 1 } : Graph).dependentsOf other =
      graph.dependentsOf other := rfl
  rw [Bool.eq_iff_iff, Bool.and_eq_true, Bool.or_eq_true, Bool.not_eq_true', decide_eq_true_iff,
    isUnused_iff, isUnused_iff, contains_foldl_register, dependentsOf_foldl_register, hcontains,
    hdependents, List.mem_filter, decide_eq_true_iff]
  by_cases hne : other = url
  · subst other
    simp [hc]
  · cases hother : graph.contains other with
    | true => simp [hne]
    | false =>
        have hnobody : (graph.dependentsOf other).isEmpty = true := by
          rw [isEmpty_dependentsOf_iff]
          intro source hs
          rw [h.contains_of_mem_dependentsOf hs] at hother
          cases hother
        simp [hne, ho, hnobody]

end Undo

-- The identities that the two edits spent are not given out again.
theorem remove_after_first_declare (edits : List Edit) {url : Url} (declaration : Declaration)
    (hc : (ofEdits edits).contains url = false) :
    let graph := ofEdits edits
    let listed := (declaration.dependencies.getD []).eraseDups.filter (· ≠ url)
    let unknown := listed.filter (!graph.contains ·)
    let undone := ((graph.declare url declaration).result.graph.remove url).result
    undone.graph.resources.entries =
        graph.resources.entries ++ freshEntries (graph.nextId + 1) unknown ∧
      undone.graph.nextId = graph.nextId + 1 + unknown.length ∧
      undone.orphaned =
        listed.filter fun other => !graph.contains other || graph.isUnused other := by
  intro graph listed unknown undone
  have h : graph.WellFormed := wellFormed_ofEdits edits
  have hgraph : undone.graph = listed.foldl register { graph with nextId := graph.nextId + 1 } :=
    h.graph_remove_declare hc declaration
  have hnodup : listed.Nodup := by
    apply List.Nodup.filter
    rw [← UrlSet.toList_ofList]
    exact (UrlSet.ofList _).nodup
  refine ⟨?_, ?_, h.orphaned_remove_declare hc declaration⟩
  · rw [hgraph]
    exact entries_foldl_register hnodup _
  · rw [hgraph]
    exact nextId_foldl_register hnodup _

-- `a.js` references itself and, around a cycle, `b.js`; nothing references `r.js`, and `c.js` is
-- referenced twice already.
theorem removed_after_listing_itself :
    let graph := ofEdits [
      .declare "a.js" { dependencies := some ["b.js", "a.js", "c.js"] },
      .declare "b.js" { dependencies := some ["c.js", "a.js"], accepted := some ["u.js"] },
      .register "r.js"]
    let declaration : Declaration := {
      dependencies := some ["x.js", "a.js", "u.js", "r.js", "x.js", "c.js", "y.js", "b.js"],
      selfAccepts := some true }
    let undone := ((graph.declare "u.js" declaration).result.graph.remove "u.js").result
    graph.contains "u.js" = false ∧
      undone.graph.resources.entries = graph.resources.entries ++
        [("x.js", .fresh 5 "x.js"), ("y.js", .fresh 6 "y.js")] ∧
      undone.graph.nextId = 7 ∧ undone.orphaned = ["x.js", "r.js", "y.js"] := by
  intro graph declaration undone
  have hc : graph.contains "u.js" = false := by decide +kernel
  obtain ⟨hentries, hnext, horphaned⟩ := remove_after_first_declare _ declaration hc
  refine ⟨hc, ?_, ?_, ?_⟩
  · rw [hentries]
    decide +kernel
  · rw [hnext]
    decide +kernel
  · rw [horphaned]
    decide +kernel

end LiveReload.Graph
