import LiveReload.Proofs.UrlSet
import LiveReload.Proofs.Graph.History

namespace LiveReload.Graph

variable {graph : Graph} {url : Url} {next : Edit}

def urls (graph : Graph) : UrlSet := ⟨graph.resources.keys, graph.resources.nodup⟩

theorem mem_urls : url ∈ graph.urls ↔ graph.contains url = true :=
  Table.contains_iff_mem_keys.symm

theorem urls_register (graph : Graph) (url : Url) :
    (graph.register url).urls = graph.urls.insert url := by
  unfold register
  split
  · rename_i h
    exact (UrlSet.insert_of_mem (mem_urls.mpr h)).symm
  · apply UrlSet.ext
    rw [UrlSet.toList_insert]
    exact Table.keys_insert ..

theorem urls_foldl_register (added : List Url) (graph : Graph) :
    (added.foldl register graph).urls = added.foldl UrlSet.insert graph.urls := by
  induction added generalizing graph with
  | nil => rfl
  | cons url added ih => rw [List.foldl_cons, ih, urls_register, List.foldl_cons]

theorem urls_mapResources (f : Url → Resource → Resource) :
    (graph.mapResources f).urls = graph.urls :=
  UrlSet.ext (Table.keys_mapWithKey ..)

theorem urls_modify (url : Url) (f : Resource → Resource) :
    (graph.modify url f).urls = graph.urls :=
  UrlSet.ext (Table.keys_modify ..)

-- Only the targets that are new to the source are registered; the others are there already.
theorem WellFormed.urls_declare (h : graph.WellFormed) (url : Url) (declaration : Declaration) :
    (graph.declare url declaration).result.graph.urls =
      (url :: declaration.dependencies.getD []).foldl UrlSet.insert graph.urls := by
  rw [List.foldl_cons, ← urls_register]
  cases hd : declaration.dependencies with
  | none => rw [graph_declare_of_none hd, urls_modify]; rfl
  | some targets =>
      rw [result_declare_of_some hd, graph_redirect, urls_mapResources, relisted,
        urls_foldl_register, urls_modify, urls_modify, UrlSet.without, UrlSet.foldl_insert_filter,
        UrlSet.foldl_insert_ofList, Option.getD_some]
      intro target _ hold
      rw [decide_eq_false_iff_not, not_not, dependenciesOf_declared] at hold
      rw [mem_urls, contains_register]
      exact Or.inl (h.contains_of_mem_dependenciesOf hold)

theorem urls_remove (graph : Graph) (url : Url) :
    (graph.remove url).result.graph.urls = graph.urls.erase url := by
  cases h : graph.get? url with
  | none =>
      rw [remove_of_none h, UrlSet.erase_of_not_mem]
      rw [mem_urls, contains_eq_isSome, h]
      exact Bool.false_ne_true
  | some resource =>
      rw [remove, h]
      exact (urls_mapResources _).trans (UrlSet.ext (Table.keys_erase ..))

theorem WellFormed.nodes_map_url (h : graph.WellFormed) :
    graph.nodes.map Resource.url = graph.urls.toList :=
  Table.values_eq_of_keyed h.keyed

-- `urls` are those that the edits mentioned since their last removal, by their first mention.
structure Lists (edits : List Edit) (urls : UrlSet) : Prop where
  mem_iff : ∀ url, url ∈ urls ↔ url ∈ mentioned (since url edits)
  ordered : urls.toList.Pairwise fun one other => firstMention one edits < firstMention other edits

namespace Lists

variable {edits : List Edit} {set : UrlSet}

-- The members that there were keep their places; after them comes what `next` mentions first.
theorem foldl_insert (h : Lists edits set) (hr : ∀ url, next.removes url = false) :
    Lists (edits ++ [next]) (next.mentions.foldl UrlSet.insert set) where
  mem_iff url := by
    rw [UrlSet.mem_foldl_insert, mem_mentioned_since_concat, h.mem_iff, hr]
    simp
  ordered := by
    refine UrlSet.pairwise_foldl_insert (mentioned edits).length ?_ ?_ ?_
    · refine h.ordered.imp_of_mem fun {one other} hone hother hlt => ?_
      rwa [firstMention_concat_of_mem (hr one) ((h.mem_iff one).mp hone),
        firstMention_concat_of_mem (hr other) ((h.mem_iff other).mp hother)]
    · intro url hu
      rw [firstMention_concat_of_mem (hr url) ((h.mem_iff url).mp hu)]
      exact firstMention_lt ((h.mem_iff url).mp hu)
    · intro url _ hm
      exact firstMention_concat_of_not_mem (hr url) (mt (h.mem_iff url).mpr hm)

theorem erase (h : Lists edits set) (url : Url) :
    Lists (edits ++ [.remove url]) (set.erase url) where
  mem_iff other := by
    rw [UrlSet.mem_erase, mem_mentioned_since_concat, h.mem_iff]
    simp [Edit.removes, Edit.mentions, and_comm, eq_comm]
  ordered := by
    refine (h.ordered.filter _).imp_of_mem fun {one other} hone hother hlt => ?_
    have hkept : ∀ kept ∈ set.toList.filter (· ≠ url),
        firstMention kept (edits ++ [.remove url]) = firstMention kept edits := by
      intro kept hm
      obtain ⟨hset, hne⟩ := List.mem_filter.mp hm
      have hr : (Edit.remove url).removes kept = false :=
        decide_eq_false (Ne.symm (of_decide_eq_true hne))
      exact firstMention_concat_of_mem hr ((h.mem_iff kept).mp hset)
    rwa [hkept one hone, hkept other hother]

end Lists

theorem lists_ofEdits (edits : List Edit) : Lists edits (ofEdits edits).urls := by
  induction edits using List.reverseRecOn with
  | nil => exact ⟨fun _ => Iff.rfl, List.Pairwise.nil⟩
  | append_singleton edits next ih =>
      rw [ofEdits_concat]
      cases next with
      | register url =>
          rw [edit, urls_register]
          exact ih.foldl_insert fun _ => rfl
      | declare url declaration =>
          rw [edit, (wellFormed_ofEdits edits).urls_declare]
          exact ih.foldl_insert fun _ => rfl
      | remove url =>
          rw [edit, urls_remove]
          exact ih.erase url

end LiveReload.Graph
