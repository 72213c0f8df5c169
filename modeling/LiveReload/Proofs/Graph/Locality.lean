import LiveReload.Proofs.Graph.Upward

namespace LiveReload

-- Nothing that a search in `inside` asks of a resource tells them apart.
structure Resource.AgreesWithin (inside : Url → Prop) (resource counterpart : Resource) : Prop where
  dependents : resource.dependents = counterpart.dependents
  declines : resource.declines = counterpart.declines
  selfAccepts : resource.selfAccepts = counterpart.selfAccepts
  accepts : ∀ dependency ∈ resource.dependencies.toList, inside dependency →
    resource.accepts dependency = counterpart.accepts dependency

instance (inside : Url → Prop) [DecidablePred inside] :
    DecidableRel (Resource.AgreesWithin inside) := fun resource counterpart =>
  decidable_of_iff
    (resource.dependents = counterpart.dependents ∧ resource.declines = counterpart.declines ∧
      resource.selfAccepts = counterpart.selfAccepts ∧
      ∀ dependency ∈ resource.dependencies.toList, inside dependency →
        resource.accepts dependency = counterpart.accepts dependency)
    ⟨fun ⟨ho, hd, hs, ha⟩ => ⟨ho, hd, hs, ha⟩,
      fun h => ⟨h.dependents, h.declines, h.selfAccepts, h.accepts⟩⟩

theorem Resource.AgreesWithin.refl (inside : Url → Prop) (resource : Resource) :
    resource.AgreesWithin inside resource := ⟨rfl, rfl, rfl, fun _ _ _ => rfl⟩

theorem Resource.AgreesWithin.mono {inside wider : Url → Prop} {resource counterpart : Resource}
    (h : resource.AgreesWithin wider counterpart) (hi : ∀ url, inside url → wider url) :
    resource.AgreesWithin inside counterpart where
  dependents := h.dependents
  declines := h.declines
  selfAccepts := h.selfAccepts
  accepts := fun dependency hd hin => h.accepts dependency hd (hi dependency hin)

theorem Search.each_congr {visit other : Url → Search} {urls : List Url}
    (h : ∀ url ∈ urls, visit url = other url) : each visit urls = each other urls := by
  induction urls with
  | nil => rfl
  | cons url urls ih =>
      have hrest := ih fun rest hr => h rest (List.mem_cons_of_mem url hr)
      rw [each, each, h url List.mem_cons_self, hrest]

namespace Graph

def AgreesWithin (inside : Url → Prop) (graph other : Graph) : Prop :=
  ∀ url, inside url → ∀ resource ∈ graph.get? url, ∀ counterpart ∈ other.get? url,
    resource.AgreesWithin inside counterpart

variable {graph other : Graph} {inside : Url → Prop} {url : Url} {path : List Url}
  {resource counterpart : Resource}

theorem AgreesWithin.mono {wider : Url → Prop} (h : graph.AgreesWithin wider other)
    (hi : ∀ url, inside url → wider url) : graph.AgreesWithin inside other :=
  fun url hin resource hr counterpart hc => (h url (hi url hin) resource hr counterpart hc).mono hi

theorem WellFormed.exists_get?_of_mem_dependents (h : graph.WellFormed)
    (hr : graph.get? url = some resource) {dependent : Url}
    (hd : dependent ∈ resource.dependents.toList) :
    ∃ next, graph.get? dependent = some next ∧ url ∈ next.dependencies := by
  apply mem_dependenciesOf.mp
  rw [h.mirrored]
  exact mem_dependentsOf_of_get? hr hd

-- Wherever the search gets to, both graphs have a resource, and all that it asks has one answer.
theorem explore_eq_of_agreesWithin (hw : graph.WellFormed) (ho : other.WellFormed)
    (hup : graph.IsUpward inside) (h : graph.AgreesWithin inside other) (hin : inside url)
    (hr : graph.get? url = some resource) (hc : other.get? url = some counterpart) :
    graph.explore path resource = other.explore path counterpart := by
  induction path, resource using explore.induct graph generalizing url counterpart with
  | case1 path resource hs =>
      have hagree := h url hin resource hr counterpart hc
      have hurl : resource.url = counterpart.url :=
        (hw.keyed url resource hr).trans (ho.keyed url counterpart hc).symm
      rw [explore_of_selfAccepts hs, explore_of_selfAccepts (hagree.selfAccepts ▸ hs), hurl]
  | case2 path resource hs ih =>
      have hagree := h url hin resource hr counterpart hc
      have hurl := hw.keyed url resource hr
      have hcurl := ho.keyed url counterpart hc
      rw [explore_of_not_selfAccepts hs, explore_of_not_selfAccepts (hagree.selfAccepts ▸ hs),
        ← hagree.dependents]
      apply Search.each_congr
      intro dependent hd
      obtain ⟨next, hn, hdependency⟩ := hw.exists_get?_of_mem_dependents hr hd
      obtain ⟨found, hm, -⟩ := ho.exists_get?_of_mem_dependents hc (hagree.dependents ▸ hd)
      have hdin : inside dependent := hup url dependent hin (mem_dependentsOf_of_get? hr hd)
      have hnext := h dependent hdin next hn found hm
      have hnurl : next.url = found.url :=
        (hw.keyed dependent next hn).trans (ho.keyed dependent found hm).symm
      have haccepts : next.accepts url = found.accepts url := hnext.accepts url hdependency hin
      unfold visit
      rw [hn, hm]
      dsimp only
      rw [hurl, hcurl, ← hnext.declines, ← haccepts, ← hnurl]
      split_ifs with _ _ hp
      · rfl
      · rfl
      · rfl
      · exact ih dependent next hn hp hdin hn hm

theorem verdictAt_eq_of_agreesWithin (hw : graph.WellFormed) (ho : other.WellFormed)
    (hup : graph.IsUpward inside) (h : graph.AgreesWithin inside other) (hin : inside url)
    (hr : graph.contains url = true) (hc : other.contains url = true) :
    other.verdictAt url = graph.verdictAt url := by
  obtain ⟨resource, hr⟩ := Option.isSome_iff_exists.mp hr
  obtain ⟨counterpart, hc⟩ := Option.isSome_iff_exists.mp hc
  have hagree := h url hin resource hr counterpart hc
  have hurl : resource.url = counterpart.url :=
    (hw.keyed url resource hr).trans (ho.keyed url counterpart hc).symm
  rw [verdictAt_of_get? hr, verdictAt_of_get? hc, Except.ok.injEq]
  cases hd : resource.declines with
  | true => rw [verdictOf_of_declines hd, verdictOf_of_declines (hagree.declines ▸ hd), hurl]
  | false =>
      have hunused : resource.isUnused = counterpart.isUnused :=
        congrArg UrlSet.isEmpty hagree.dependents
      rw [verdictOf_of_willing hd, verdictOf_of_willing (hagree.declines ▸ hd), ← hurl,
        ← explore_eq_of_agreesWithin hw ho hup h hin hr hc, Search.verdict, Search.verdict, hurl,
        hunused]

section Edits

-- An edit that changes nothing in `inside` that a search could ask for.
inductive Edit.Spares (graph : Graph) (inside : Url → Prop) : Edit → Prop
  | register (added : Url) : Spares graph inside (.register added)
  | remove {removed : Url} : ¬inside removed → Spares graph inside (.remove removed)
  -- Neither the resource nor what it is said to reference is inside.
  | outside {source : Url} {declaration : Declaration} : ¬inside source →
      (∀ target ∈ declaration.dependencies.getD [], ¬inside target) →
      Spares graph inside (.declare source declaration)
  -- The same dependencies, in whatever order, and the same of them accepted.
  | idle {source : Url} {declaration : Declaration} : declaration.declines = none →
      declaration.selfAccepts = none →
      (∀ urls ∈ declaration.dependencies, ∀ target,
        target ∈ urls ↔ target ∈ graph.dependenciesOf source) →
      (∀ urls ∈ declaration.accepted, ∀ resource ∈ graph.get? source,
        ∀ target ∈ resource.dependencies.toList, target ∈ urls ↔ target ∈ resource.accepted) →
      Spares graph inside (.declare source declaration)

variable {next : Edit} {declaration : Declaration} {source : Url}

theorem agreesWithin_sever {gone : Resource} (removed : Url) {key : Url}
    (hk : key ∉ gone.dependencies) :
    resource.AgreesWithin inside (sever gone removed key resource) := by
  unfold sever
  rw [if_neg hk]
  split_ifs <;> exact ⟨rfl, rfl, rfl, fun _ _ _ => rfl⟩

theorem dependentsOf_declare_of_same
    (h : ∀ urls ∈ declaration.dependencies, ∀ target,
      target ∈ urls ↔ target ∈ graph.dependenciesOf source) (target : Url) :
    (graph.declare source declaration).result.graph.dependentsOf target =
      graph.dependentsOf target := by
  cases hd : declaration.dependencies with
  | none => exact dependentsOf_declare_of_none hd target
  | some urls =>
      have hsame := h urls hd target
      rw [dependentsOf_declare_of_some hd]
      simp only [UrlSet.mem_without, UrlSet.mem_ofList, hsame, and_not_self_iff, if_false]

theorem dependentsOf_declare_of_outside (hw : graph.WellFormed) (hup : graph.IsUpward inside)
    (hs : ¬inside source) (ht : ∀ target ∈ declaration.dependencies.getD [], ¬inside target)
    (hin : inside url) :
    (graph.declare source declaration).result.graph.dependentsOf url = graph.dependentsOf url := by
  have hold : url ∉ graph.dependenciesOf source := fun hd =>
    hs (hup url source hin ((hw.mirrored source url).mp hd))
  cases hd : declaration.dependencies with
  | none => exact dependentsOf_declare_of_none hd url
  | some urls =>
      have hnew : url ∉ urls := fun hu => ht url (by rw [hd]; exact hu) hin
      rw [dependentsOf_declare_of_some hd]
      simp only [UrlSet.mem_without, UrlSet.mem_ofList, hold, hnew, false_and, if_false]

theorem Edit.Spares.exists_agreesWithin (h : next.Spares graph inside) (hw : graph.WellFormed)
    (hup : graph.IsUpward inside) (hin : inside url) (hr : graph.get? url = some resource) :
    ∃ counterpart, (graph.edit next).get? url = some counterpart ∧
      resource.AgreesWithin inside counterpart := by
  cases h with
  | register added =>
      refine ⟨resource, ?_, .refl inside resource⟩
      rw [edit, get?_register]
      split
      · subst added
        rw [hr, Option.getD_some]
      · exact hr
  | @remove removed hnot =>
      have hne : url ≠ removed := fun he => hnot (he ▸ hin)
      cases hg : graph.get? removed with
      | none =>
          refine ⟨resource, ?_, .refl inside resource⟩
          rw [edit, remove_of_none hg]
          exact hr
      | some gone =>
          have hdependency : url ∉ gone.dependencies := fun hd =>
            hnot (hup url removed hin ((hw.mirrored removed url).mp
              (mem_dependenciesOf.mpr ⟨gone, hg, hd⟩)))
          refine ⟨_, ?_, agreesWithin_sever removed hdependency⟩
          rw [edit, get?_remove hg, if_neg hne, hr, Option.map_some]
  | @outside source declaration hs ht =>
      have hne : url ≠ source := fun he => hs (he ▸ hin)
      refine ⟨_, get?_declare_of_ne hne hr, ?_, rfl, rfl, fun _ _ _ => rfl⟩
      rw [dependentsOf_declare_of_outside hw hup hs ht hin, dependentsOf_of_get? hr]
  | @idle source declaration hd hs hsame ha =>
      have hdependents := dependentsOf_declare_of_same hsame url
      rw [dependentsOf_of_get? hr] at hdependents
      by_cases hne : url = source
      · subst hne
        refine ⟨_, get?_declare_self, hdependents.symm, ?_, ?_, ?_⟩
        · rw [hr, Option.getD_some, Resource.declare, hd, Option.getD_none]
        · rw [hr, Option.getD_some, Resource.declare, hs, Option.getD_none]
        · intro dependency hdependency _
          rw [hr, Option.getD_some, Resource.accepts, Resource.accepts, Resource.declare]
          cases hurls : declaration.accepted with
          | none => rfl
          | some urls =>
              have hiff := ha urls hurls resource hr dependency hdependency
              simp only [Option.map_some, Option.getD_some, UrlSet.mem_ofList, hiff]
      · exact ⟨_, get?_declare_of_ne hne hr, hdependents.symm, rfl, rfl, fun _ _ _ => rfl⟩

end Edits

theorem verdictAt_local (edits : List Edit) {url : Url}
    (hu : (ofEdits edits).contains url = true) :
    ∃ verdict, (ofEdits edits).verdictAt url = .ok verdict ∧
      (∀ others, (ofEdits others).contains url = true →
        (ofEdits edits).AgreesWithin ((ofEdits edits).Above url) (ofEdits others) →
          (ofEdits others).verdictAt url = .ok verdict) ∧
      ∀ next : Edit, next.Spares (ofEdits edits) ((ofEdits edits).Above url) →
        (ofEdits (edits ++ [next])).verdictAt url = .ok verdict := by
  have hw := wellFormed_ofEdits edits
  have hup := isUpward_above (ofEdits edits) url
  have hself : (ofEdits edits).Above url url := .refl
  obtain ⟨verdict, hv⟩ := exists_verdictAt hu
  refine ⟨verdict, hv, fun others hc h => ?_, fun next h => ?_⟩
  · exact (verdictAt_eq_of_agreesWithin hw (wellFormed_ofEdits others) hup h hself hu hc).trans hv
  · have hagree : (ofEdits edits).AgreesWithin ((ofEdits edits).Above url)
        ((ofEdits edits).edit next) := by
      intro other hin resource hr counterpart hc
      obtain ⟨found, hf, ha⟩ := h.exists_agreesWithin hw hup hin hr
      cases hf.symm.trans hc
      exact ha
    obtain ⟨resource, hr⟩ := Option.isSome_iff_exists.mp hu
    obtain ⟨counterpart, hc, -⟩ := h.exists_agreesWithin hw hup hself hr
    have hcontains : ((ofEdits edits).edit next).contains url = true := Option.isSome_of_eq_some hc
    rw [ofEdits_concat]
    exact (verdictAt_eq_of_agreesWithin hw (hw.edit next) hup hagree hself hu hcontains).trans hv

-- In the other graph `a.js` is of another kind and references a resource that declines, `b.js`
-- lists its dependencies in another order and accepts more; then `b.js` is parsed again, to the
-- same effect.
theorem verdictAt_unmoved_by_others :
    let edits : List Edit :=
      [.declare "b.js" { dependencies := some ["c.js", "a.js"], accepted := some ["a.js"] },
        .declare "d.js" { dependencies := some ["a.js"], selfAccepts := some true }]
    let others : List Edit :=
      [.declare "a.js" { kind := some "module", dependencies := some ["e.js"] },
        .declare "e.js" { declines := some true },
        .declare "b.js"
          { dependencies := some ["a.js", "c.js"], accepted := some ["e.js", "a.js"] },
        .declare "d.js" { dependencies := some ["a.js"], selfAccepts := some true }]
    let next : Edit := .declare "b.js"
      { dependencies := some ["a.js", "c.js", "a.js"], accepted := some ["a.js", "e.js"] }
    let graph := ofEdits edits
    graph.contains "a.js" = true ∧ (ofEdits others).contains "a.js" = true ∧
      graph.AgreesWithin (graph.Above "a.js") (ofEdits others) ∧
      next.Spares graph (graph.Above "a.js") ∧
      (ofEdits others).verdictAt "a.js" =
        .ok (.accepted [⟨"b.js", "a.js"⟩, ⟨"d.js", "d.js"⟩]) ∧
      (ofEdits (edits ++ [next])).verdictAt "a.js" =
        .ok (.accepted [⟨"b.js", "a.js"⟩, ⟨"d.js", "d.js"⟩]) := by
  intro edits others next graph
  let above : List Url := ["a.js", "b.js", "d.js"]
  have hup : graph.IsUpward (· ∈ above) := by
    have hclosed : ∀ url ∈ above, ∀ dependent ∈ (graph.dependentsOf url).toList,
        dependent ∈ above := by decide +kernel
    exact fun url dependent hu hd => hclosed url hu dependent hd
  have habove : ∀ url, graph.Above "a.js" url → url ∈ above := fun _ =>
    hup.of_above (by decide)
  have hlisted : ∀ url ∈ above, ∀ resource ∈ graph.get? url,
      ∀ counterpart ∈ (ofEdits others).get? url,
        resource.AgreesWithin (· ∈ above) counterpart := by decide +kernel
  have hagree : graph.AgreesWithin (graph.Above "a.js") (ofEdits others) :=
    AgreesWithin.mono hlisted habove
  have hdependencies : graph.dependenciesOf "b.js" = .ofList ["c.js", "a.js"] := by decide +kernel
  have hspares : next.Spares graph (graph.Above "a.js") := by
    refine .idle rfl rfl ?_ ?_
    · rintro urls ⟨⟩ target
      rw [hdependencies, UrlSet.mem_ofList]
      simp only [List.mem_cons, List.not_mem_nil, or_false]
      tauto
    · rintro urls ⟨⟩
      decide +kernel
  have hu : graph.contains "a.js" = true := by decide +kernel
  have ho : (ofEdits others).contains "a.js" = true := by decide +kernel
  obtain ⟨verdict, hv, hothers, hnext⟩ := verdictAt_local edits hu
  have hexpected : graph.verdictAt "a.js" =
      .ok (.accepted [⟨"b.js", "a.js"⟩, ⟨"d.js", "d.js"⟩]) := by decide +kernel
  cases hv.symm.trans hexpected
  exact ⟨hu, ho, hagree, hspares, hothers others ho hagree, hnext next hspares⟩

end Graph

end LiveReload
