import LiveReload.Proofs.Graph.Registration

namespace LiveReload.Graph

-- A part of a resource that declarations set and edges do not touch.
structure Trait (α : Type) where
  read : Resource → α
  supplied : Declaration → Option α
  initial : α
  read_fresh : ∀ id url, read (.fresh id url) = initial
  read_declare : ∀ resource declaration,
    read (resource.declare declaration) = (supplied declaration).getD (read resource)
  read_edges : ∀ resource dependencies dependents,
    read { resource with dependencies := dependencies, dependents := dependents } = read resource

namespace Trait

def kind : Trait String where
  read := Resource.kind
  supplied := Declaration.kind
  initial := ""
  read_fresh _ _ := rfl
  read_declare _ _ := rfl
  read_edges _ _ _ := rfl

def declines : Trait Bool where
  read := Resource.declines
  supplied := Declaration.declines
  initial := false
  read_fresh _ _ := rfl
  read_declare _ _ := rfl
  read_edges _ _ _ := rfl

def selfAccepts : Trait Bool where
  read := Resource.selfAccepts
  supplied := Declaration.selfAccepts
  initial := false
  read_fresh _ _ := rfl
  read_declare _ _ := rfl
  read_edges _ _ _ := rfl

def accepted : Trait UrlSet where
  read := Resource.accepted
  supplied declaration := declaration.accepted.map UrlSet.ofList
  initial := ∅
  read_fresh _ _ := rfl
  read_declare _ _ := rfl
  read_edges _ _ _ := rfl

variable {α : Type} (trait : Trait α) {graph : Graph} {url other : Url}

-- A URL that no resource is registered under has what a fresh resource would have.
def valueAt (graph : Graph) (url : Url) : α := ((graph.get? url).map trait.read).getD trait.initial

theorem valueAt_of_get? {resource : Resource} (h : graph.get? url = some resource) :
    trait.valueAt graph url = trait.read resource := by
  rw [valueAt, h]
  rfl

@[simp] theorem valueAt_register (graph : Graph) (url other : Url) :
    trait.valueAt (graph.register url) other = trait.valueAt graph other := by
  simp only [valueAt, get?_register]
  split
  · subst other
    cases graph.get? url with
    | none => exact trait.read_fresh graph.nextId url
    | some resource => rfl
  · rfl

@[simp] theorem valueAt_foldl_register (urls : List Url) (graph : Graph) (other : Url) :
    trait.valueAt (urls.foldl register graph) other = trait.valueAt graph other := by
  induction urls generalizing graph with
  | nil => rfl
  | cons url urls ih => rw [List.foldl_cons, ih, valueAt_register]

theorem valueAt_mapResources {f : Url → Resource → Resource}
    (hf : ∀ key resource, trait.read (f key resource) = trait.read resource) (url : Url) :
    trait.valueAt (graph.mapResources f) url = trait.valueAt graph url := by
  simp only [valueAt, get?_mapResources, Option.map_map]
  congr 2
  funext resource
  exact hf url resource

theorem valueAt_modify {f : Resource → Resource}
    (hf : ∀ resource, trait.read (f resource) = trait.read resource) (url other : Url) :
    trait.valueAt (graph.modify url f) other = trait.valueAt graph other :=
  trait.valueAt_mapResources (fun key resource => by split_ifs; exacts [hf resource, rfl]) other

@[simp] theorem valueAt_redirect (graph : Graph) (url : Url) (next : UrlSet) (other : Url) :
    trait.valueAt (graph.redirect url next).result.graph other = trait.valueAt graph other := by
  rw [graph_redirect, valueAt_mapResources, relisted, valueAt_foldl_register, valueAt_modify]
  · exact fun resource => trait.read_edges resource next resource.dependents
  · intro key resource
    split_ifs
    · exact trait.read_edges resource resource.dependencies _
    · exact trait.read_edges resource resource.dependencies _
    · rfl

theorem valueAt_declare (graph : Graph) (url : Url) (declaration : Declaration) (other : Url) :
    trait.valueAt (graph.declare url declaration).result.graph other =
      if other = url then (trait.supplied declaration).getD (trait.valueAt graph url)
      else trait.valueAt graph other := by
  have hdeclared : trait.valueAt ((graph.register url).modify url (·.declare declaration)) other =
      if other = url then (trait.supplied declaration).getD (trait.valueAt graph url)
      else trait.valueAt graph other := by
    rw [← trait.valueAt_register graph url url, ← trait.valueAt_register graph url other]
    simp only [valueAt, get?_modify]
    split
    · subst other
      rw [get?_register, if_pos rfl]
      exact trait.read_declare ..
    · rfl
  cases hd : declaration.dependencies with
  | none => rw [graph_declare_of_none hd, hdeclared]
  | some urls => rw [result_declare_of_some hd, valueAt_redirect, hdeclared]

theorem valueAt_remove (graph : Graph) (url other : Url) :
    trait.valueAt (graph.remove url).result.graph other =
      if other = url then trait.initial else trait.valueAt graph other := by
  cases h : graph.get? url with
  | none =>
      rw [remove_of_none h]
      split
      · subst other
        rw [valueAt, h]
        rfl
      · rfl
  | some gone =>
      simp only [valueAt, get?_remove h]
      split
      · rfl
      · rw [Option.map_map]
        congr 2
        funext resource
        have hsever : sever gone url other resource = { resource with
            dependencies := (sever gone url other resource).dependencies
            dependents := (sever gone url other resource).dependents } := by
          unfold sever
          split_ifs <;> rfl
        rw [Function.comp_apply, hsever]
        exact trait.read_edges ..

theorem valueAt_edit (graph : Graph) (next : Edit) (url : Url) :
    trait.valueAt (graph.edit next) url =
      if next.removes url then trait.initial
      else (next.supplies? url trait.supplied).getD (trait.valueAt graph url) := by
  cases next with
  | register other => exact trait.valueAt_register graph other url
  | declare other declaration =>
      rw [edit, valueAt_declare, Edit.supplies?]
      by_cases h : url = other
      · subst other
        rw [if_pos rfl, if_pos rfl]
        rfl
      · rw [if_neg h, if_neg (Ne.symm h)]
        rfl
  | remove other =>
      rw [edit, valueAt_remove]
      by_cases h : url = other
      · simp [h, Edit.removes]
      · simp [h, Ne.symm h, Edit.removes, Edit.supplies?]

theorem valueAt_ofEdits (edits : List Edit) (url : Url) :
    trait.valueAt (ofEdits edits) url =
      (lastSupplied url trait.supplied edits).getD trait.initial := by
  induction edits using List.reverseRecOn with
  | nil => rfl
  | append_singleton edits next ih =>
      rw [ofEdits_concat, valueAt_edit, lastSupplied_concat, ih]
      split
      · rfl
      · cases next.supplies? url trait.supplied <;> rfl

theorem read_ofEdits {edits : List Edit} {resource : Resource}
    (h : (ofEdits edits).get? url = some resource) :
    trait.read resource = (lastSupplied url trait.supplied edits).getD trait.initial :=
  (trait.valueAt_of_get? h).symm.trans (trait.valueAt_ofEdits edits url)

end Trait

section Edges

variable {graph : Graph} {source target : Url} {edits : List Edit}

theorem toList_dependenciesOf_edit (h : graph.WellFormed) (next : Edit) (source : Url) :
    ((graph.edit next).dependenciesOf source).toList =
      if next.removes source then []
      else ((next.supplies? source Declaration.dependencies).map List.eraseDups).getD
        ((graph.dependenciesOf source).toList.filter (!next.removes ·)) := by
  cases next with
  | register url => simp [edit, Edit.removes, Edit.supplies?]
  | declare url declaration =>
      rw [edit, dependenciesOf_declare]
      by_cases hs : source = url
      · subst source
        cases hd : declaration.dependencies with
        | none => simp [Edit.removes, Edit.supplies?, hd]
        | some urls => simp [Edit.removes, Edit.supplies?, hd, UrlSet.toList_ofList]
      · simp [hs, Ne.symm hs, Edit.removes, Edit.supplies?]
  | remove url =>
      rw [edit, dependenciesOf_remove]
      by_cases hs : source = url
      · simp [hs, Edit.removes]
      · -- without the back-edge there is nothing to erase
        have herase : (if source ∈ graph.dependentsOf url then
            (graph.dependenciesOf source).erase url else graph.dependenciesOf source) =
              (graph.dependenciesOf source).erase url := by
          split_ifs with hm
          · rfl
          · exact (UrlSet.erase_of_not_mem (mt (h.mirrored source url).mp hm)).symm
        rw [if_neg hs, herase, UrlSet.toList_erase]
        simp [Ne.symm hs, Edit.removes, Edit.supplies?, eq_comm (a := url)]

-- What a source that references nothing yet comes to reference.
theorem toList_dependenciesOf_foldl_edit (h : graph.WellFormed)
    (hs : graph.dependenciesOf source = ∅) (edits : List Edit) :
    ((edits.foldl edit graph).dependenciesOf source).toList = references source edits := by
  induction edits using List.reverseRecOn with
  | nil => rw [List.foldl_nil, hs]; rfl
  | append_singleton edits next ih =>
      rw [List.foldl_append, List.foldl_cons, List.foldl_nil,
        toList_dependenciesOf_edit (h.foldl_edit edits), references_concat, ih]

theorem toList_dependenciesOf_ofEdits (edits : List Edit) (source : Url) :
    ((ofEdits edits).dependenciesOf source).toList = references source edits :=
  toList_dependenciesOf_foldl_edit .empty rfl edits

theorem mem_dependentsOf_ofEdits : source ∈ (ofEdits edits).dependentsOf target ↔
    target ∈ references source edits := by
  rw [← (wellFormed_ofEdits edits).mirrored, UrlSet.mem_def, toList_dependenciesOf_ofEdits]

-- Some dependents go, or one comes, to the end of the list.
theorem dependentsOf_edit (graph : Graph) (next : Edit) (target : Url) :
    (∃ p : Url → Bool, ((graph.edit next).dependentsOf target).toList =
      (graph.dependentsOf target).toList.filter p) ∨
    ∃ source ∉ graph.dependentsOf target, ((graph.edit next).dependentsOf target).toList =
      (graph.dependentsOf target).toList ++ [source] := by
  have hsame : ∃ p : Url → Bool, (graph.dependentsOf target).toList =
      (graph.dependentsOf target).toList.filter p := ⟨fun _ => true, (List.filter_true _).symm⟩
  cases next with
  | register url =>
      rw [edit, dependentsOf_register]
      exact Or.inl hsame
  | declare url declaration =>
      cases hd : declaration.dependencies with
      | none =>
          rw [edit, dependentsOf_declare_of_none hd]
          exact Or.inl hsame
      | some urls =>
          rw [edit, dependentsOf_declare_of_some hd]
          split_ifs
          · exact Or.inl ⟨_, UrlSet.toList_erase ..⟩
          · rw [UrlSet.toList_insert]
            split_ifs with hm
            · exact Or.inl hsame
            · exact Or.inr ⟨url, hm, rfl⟩
          · exact Or.inl hsame
  | remove url =>
      rw [edit, dependentsOf_remove]
      split_ifs
      · exact Or.inl ⟨fun _ => false, (List.filter_false _).symm⟩
      · exact Or.inl ⟨_, UrlSet.toList_erase ..⟩
      · exact Or.inl hsame

-- An edge that goes and comes back counts from when it came back.
theorem pairwise_dependentsOf_ofEdits (edits : List Edit) (target : Url) :
    ((ofEdits edits).dependentsOf target).toList.Pairwise (ReferencedSooner target edits) := by
  induction edits using List.reverseRecOn with
  | nil => exact List.Pairwise.nil
  | append_singleton edits next ih =>
      have hafter : ∀ source ∈ (((ofEdits edits).edit next).dependentsOf target).toList,
          target ∈ references source (edits ++ [next]) := by
        rw [← ofEdits_concat]
        exact fun _ => mem_dependentsOf_ofEdits.mp
      rw [ofEdits_concat]
      rcases dependentsOf_edit (ofEdits edits) next target with ⟨p, hp⟩ | ⟨source, hnew, hs⟩
      · rw [hp] at hafter ⊢
        exact (ih.filter p).imp_of_mem fun hone hother h =>
          h.concat (hafter _ hone) (hafter _ hother)
      · rw [hs] at hafter ⊢
        have hold : ∀ one ∈ ((ofEdits edits).dependentsOf target).toList,
            target ∈ references one (edits ++ [next]) :=
          fun one hm => hafter one (List.mem_append_left _ hm)
        have hlast : target ∈ references source (edits ++ [next]) :=
          hafter source (List.mem_append_right _ (List.mem_singleton_self source))
        refine List.pairwise_append.mpr ⟨?_, List.pairwise_singleton _ _, ?_⟩
        · exact ih.imp_of_mem fun hone hother h => h.concat (hold _ hone) (hold _ hother)
        · rintro one hone other hother
          rw [List.mem_singleton.mp hother]
          exact .of_new (mem_dependentsOf_ofEdits.mp hone) (hold one hone)
            (mt mem_dependentsOf_ofEdits.mpr hnew) hlast

end Edges

-- What the edits say of the resource registered under `url`.
structure Recounts (edits : List Edit) (url : Url) (graph : Graph) (resource : Resource) : Prop
    where
  keyed : resource.url = url
  kind : resource.kind = (lastSupplied url Declaration.kind edits).getD ""
  declines : resource.declines = (lastSupplied url Declaration.declines edits).getD false
  selfAccepts : resource.selfAccepts = (lastSupplied url Declaration.selfAccepts edits).getD false
  accepted : resource.accepted.toList =
    ((lastSupplied url Declaration.accepted edits).getD []).eraseDups
  dependencies : resource.dependencies.toList = references url edits
  dependents : ∀ source, source ∈ resource.dependents ↔ url ∈ graph.dependenciesOf source
  ordered : resource.dependents.toList.Pairwise (ReferencedSooner url edits)

structure RecountedBy (graph : Graph) (edits : List Edit) : Prop where
  registered : ∀ url, graph.contains url = true ↔ url ∈ mentioned (since url edits)
  nodes : ∀ resource, resource ∈ graph.nodes ↔ graph.get? resource.url = some resource
  listed : (graph.nodes.map Resource.url).Pairwise fun one other =>
    firstMention one edits < firstMention other edits
  resources : ∀ url resource, graph.get? url = some resource → Recounts edits url graph resource

theorem recounts_ofEdits {edits : List Edit} {url : Url} {resource : Resource}
    (h : (ofEdits edits).get? url = some resource) :
    Recounts edits url (ofEdits edits) resource where
  keyed := (wellFormed_ofEdits edits).keyed url resource h
  kind := Trait.kind.read_ofEdits h
  declines := Trait.declines.read_ofEdits h
  selfAccepts := Trait.selfAccepts.read_ofEdits h
  accepted := by
    have hset : resource.accepted =
        ((lastSupplied url Declaration.accepted edits).map UrlSet.ofList).getD ∅ := by
      rw [← lastSupplied_map]
      exact Trait.accepted.read_ofEdits h
    rw [hset]
    cases lastSupplied url Declaration.accepted edits with
    | none => rfl
    | some urls => exact UrlSet.toList_ofList urls
  dependencies := by rw [← dependenciesOf_of_get? h, toList_dependenciesOf_ofEdits]
  dependents source := by
    rw [(wellFormed_ofEdits edits).mirrored, dependentsOf_of_get? h]
  ordered := by
    rw [← dependentsOf_of_get? h]
    exact pairwise_dependentsOf_ofEdits edits url

theorem recountedBy_ofEdits (edits : List Edit) : (ofEdits edits).RecountedBy edits where
  registered url := by rw [← mem_urls, (lists_ofEdits edits).mem_iff]
  nodes _ := (wellFormed_ofEdits edits).keyed.mem_nodes
  listed := by
    rw [(wellFormed_ofEdits edits).nodes_map_url]
    exact (lists_ofEdits edits).ordered
  resources _ _ := recounts_ofEdits

-- Dropped and taken up again, an edge comes after those that stayed.
example : ((ofEdits [.declare "a.js" { dependencies := some ["c.js"] },
    .declare "b.js" { dependencies := some ["c.js"] }, .declare "a.js" { dependencies := some [] },
    .declare "a.js" { dependencies := some ["c.js"] }]).dependentsOf "c.js").toList =
      ["b.js", "a.js"] := by
  decide

end LiveReload.Graph
