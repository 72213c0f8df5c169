import LiveReload.Proofs.Graph.LivePath

namespace LiveReload.Graph

-- Where the two ways part, the first one takes the dependent that was recorded earlier.
inductive Before : List Resource → List Resource → Prop
  | here {resource earlier later} {rest others : List Resource} :
      [earlier.url, later.url].Sublist resource.dependents.toList →
      Before (resource :: earlier :: rest) (resource :: later :: others)
  | there {resource} {walk other : List Resource} : Before walk other →
      Before (resource :: walk) (resource :: other)

theorem Before.ne {walk other : List Resource} (h : Before walk other) : walk ≠ other := by
  intro he
  subst he
  induction walk with
  | nil => cases h
  | cons resource walk ih =>
      cases h with
      | here hs =>
          have hn := hs.nodup resource.dependents.nodup
          simp at hn
      | there h => exact ih h

private theorem not_sublist_swap {l : List Url} (h : l.Nodup) {a b : Url}
    (hab : [a, b].Sublist l) : ¬[b, a].Sublist l := by
  intro hba
  induction l with
  | nil => simp at hab
  | cons c l ih =>
      obtain ⟨hc, hl⟩ := List.nodup_cons.mp h
      cases hab with
      | cons _ hab =>
          cases hba with
          | cons _ hba => exact ih hl hab hba
          | cons_cons _ ha => exact hc (hab.subset (by simp))
      | cons_cons _ hb =>
          cases hba with
          | cons _ hba => exact hc (hba.subset (by simp))
          | cons_cons _ ha => exact hc (hb.subset (by simp))

theorem Before.append {walk other : List Resource} (h : Before walk other)
    (more : List Resource) : Before walk (other ++ more) := by
  induction h with
  | here hs => exact .here hs
  | there _ ih => exact .there ih

theorem Before.head_eq {first second : Resource} {rest others : List Resource}
    (h : Before (first :: rest) (second :: others)) : first = second := by
  cases h <;> rfl

theorem Before.asymm {walk other : List Resource} (h : Before walk other) :
    ¬Before other walk := by
  induction h with
  | @here resource earlier later rest others hs =>
      have hn : earlier.url ≠ later.url := by simpa using hs.nodup resource.dependents.nodup
      intro hb
      cases hb with
      | here hs' => exact not_sublist_swap resource.dependents.nodup hs hs'
      | there hb => exact hn (congrArg Resource.url hb.head_eq.symm)
  | @there resource walk other hb ih =>
      intro hb'
      cases hb' with
      | here hs =>
          have hn := hs.nodup resource.dependents.nodup
          simp [hb.head_eq] at hn
      | there hb' => exact ih hb'

variable {graph : Graph} {path : List Url} {resource : Resource} {url : Url}

theorem exists_of_mem_survey {entry : List Resource × Finding}
    (h : entry ∈ graph.survey path resource) : ∃ rest, entry.1 = resource :: rest := by
  obtain ⟨walk, finding⟩ := entry
  rcases mem_survey_iff.mp h with hm | ⟨_, rest, -, -, rfl, -⟩
  · cases hm <;> exact ⟨_, rfl⟩
  · exact ⟨rest, rfl⟩

theorem exists_of_mem_sighting (hk : graph.Keyed) {entry : List Resource × Finding}
    (h : entry ∈ graph.sighting path resource url) :
    ∃ dependent rest, dependent.url = url ∧ entry.1 = resource :: dependent :: rest := by
  unfold sighting at h
  cases hg : graph.get? url with
  | none => simp [hg] at h
  | some dependent =>
      refine ⟨dependent, ?_⟩
      have hu := hk url dependent hg
      rw [hg] at h
      dsimp only at h
      split_ifs at h
      · exact ⟨[], hu, by rw [List.mem_singleton.mp h]⟩
      · exact ⟨[], hu, by rw [List.mem_singleton.mp h]⟩
      · exact ⟨[], hu, by rw [List.mem_singleton.mp h]⟩
      · obtain ⟨found, hf, rfl⟩ := List.mem_map.mp h
        obtain ⟨rest, hr⟩ := exists_of_mem_survey hf
        exact ⟨rest, hu, congrArg (resource :: ·) hr⟩

theorem pairwise_sighting
    (h : ∀ dependent, graph.get? url = some dependent → dependent.url ∉ path →
      (graph.survey (dependent.url :: path) dependent).Pairwise fun a b => Before a.1 b.1) :
    (graph.sighting path resource url).Pairwise fun a b => Before a.1 b.1 := by
  unfold sighting
  cases hg : graph.get? url with
  | none => exact List.Pairwise.nil
  | some dependent =>
      dsimp only
      split_ifs with _ _ hp
      · exact List.pairwise_singleton _ _
      · exact List.pairwise_singleton _ _
      · exact List.pairwise_singleton _ _
      · exact List.pairwise_map.mpr ((h dependent hg hp).imp Before.there)

theorem pairwise_survey (hk : graph.Keyed) (path : List Url) (resource : Resource) :
    (graph.survey path resource).Pairwise fun a b => Before a.1 b.1 := by
  induction path, resource using explore.induct graph with
  | case1 path resource hs =>
      rw [survey_of_selfAccepts hs]
      exact List.pairwise_singleton _ _
  | case2 path resource hs ih =>
      rw [survey_of_not_selfAccepts hs, List.pairwise_flatMap]
      refine ⟨fun url _ => pairwise_sighting fun dependent => ih url dependent, ?_⟩
      rw [List.pairwise_iff_forall_sublist]
      intro earlier later horder first hf second hs
      obtain ⟨one, rest, rfl, hone⟩ := exists_of_mem_sighting hk hf
      obtain ⟨other, others, rfl, hother⟩ := exists_of_mem_sighting hk hs
      rw [hone, hother]
      exact .here horder

end LiveReload.Graph
