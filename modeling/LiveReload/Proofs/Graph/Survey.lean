import LiveReload.Proofs.Graph.Exploration

namespace LiveReload

inductive Finding where
  | boundary (boundary : Boundary)
  | obstacle (obstacle : Obstacle)
deriving DecidableEq

namespace Finding

def boundary? : Finding → Option Boundary
  | .boundary reached => some reached
  | .obstacle _ => none

theorem boundary?_eq_some_iff {finding : Finding} {reached : Boundary} :
    finding.boundary? = some reached ↔ finding = .boundary reached := by
  cases finding <;> simp [boundary?]

-- The boundaries, if nothing among the findings ends the search.
def collect : List Finding → Except Obstacle (List Boundary)
  | [] => .ok []
  | .boundary reached :: rest => (collect rest).map (reached :: ·)
  | .obstacle met :: _ => .error met

theorem collect_append (first rest : List Finding) : collect (first ++ rest) =
    (collect first).bind fun boundaries => (collect rest).map (boundaries ++ ·) := by
  induction first with
  | nil => cases h : collect rest <;> simp [collect, h, Except.bind, Except.map]
  | cons finding first ih =>
      cases finding with
      | obstacle met => rfl
      | boundary reached =>
          rw [List.cons_append, collect, ih, collect]
          cases collect first <;> cases collect rest <;> rfl

theorem collect_eq_error_iff {findings : List Finding} {met : Obstacle} :
    collect findings = .error met ↔ ∃ before after, findings = before ++ .obstacle met :: after ∧
      ∀ other, .obstacle other ∉ before := by
  induction findings with
  | nil => simp [collect]
  | cons finding findings ih =>
      cases finding with
      | obstacle other =>
          rw [collect, Except.error.injEq]
          constructor
          · rintro rfl
            exact ⟨[], findings, rfl, fun _ => List.not_mem_nil⟩
          · rintro ⟨before, after, he, hn⟩
            cases before with
            | nil => simpa using (List.cons.inj he).1
            | cons first before =>
                obtain ⟨rfl, -⟩ := List.cons.inj he
                exact absurd List.mem_cons_self (hn other)
      | boundary reached =>
          have hrest : collect (.boundary reached :: findings) = .error met ↔
              collect findings = .error met := by
            rw [collect]
            cases collect findings <;> simp [Except.map]
          rw [hrest, ih]
          constructor
          · rintro ⟨before, after, rfl, hn⟩
            exact ⟨.boundary reached :: before, after, rfl, by simpa using hn⟩
          · rintro ⟨before, after, he, hn⟩
            cases before with
            | nil => simp at he
            | cons first before =>
                obtain ⟨rfl, rfl⟩ := List.cons.inj he
                exact ⟨before, after, rfl, by simpa using hn⟩

theorem collect_eq_ok_iff {findings : List Finding} {boundaries : List Boundary} :
    collect findings = .ok boundaries ↔
      (∀ met, .obstacle met ∉ findings) ∧ boundaries = findings.filterMap boundary? := by
  induction findings generalizing boundaries with
  | nil => simp [collect, eq_comm]
  | cons finding findings ih =>
      cases finding with
      | obstacle met =>
          constructor
          · nofun
          · rintro ⟨h, -⟩
            exact absurd List.mem_cons_self (h met)
      | boundary reached =>
          have hrest : collect findings = .ok (findings.filterMap boundary?) ↔
              ∀ met, .obstacle met ∉ findings := by simp [ih]
          simp only [List.mem_cons, reduceCtorEq, false_or, List.filterMap_cons, boundary?,
            ← hrest]
          rw [collect]
          cases hc : collect findings with
          | error met => simp [Except.map]
          | ok rest =>
              have hr := (ih.mp hc).2
              simp [Except.map, hr, eq_comm]

end Finding

theorem Search.found_each {visit : Url → Search} {findings : Url → List Finding} {urls : List Url}
    (h : ∀ url, (visit url).found = Finding.collect (findings url)) :
    (each visit urls).found = Finding.collect (urls.flatMap findings) := by
  induction urls with
  | nil => rfl
  | cons url urls ih =>
      rw [each, found_andThen, h, ih, List.flatMap_cons, Finding.collect_append]

namespace Graph

-- Each finding comes with the resources on the way to it, from the one searched first to the one
-- that accepts or blocks.
def survey (graph : Graph) (path : List Url) (resource : Resource) :
    List (List Resource × Finding) :=
  if resource.selfAccepts then [([resource], .boundary ⟨resource.url, resource.url⟩)]
  else
    resource.dependents.toList.flatMap fun url =>
      match _h : graph.get? url with
      | none => []
      | some dependent =>
        if dependent.declines then
          [([resource, dependent], .obstacle (.declining dependent.url))]
        else if dependent.accepts resource.url then
          [([resource, dependent], .boundary ⟨dependent.url, resource.url⟩)]
        else if _h : dependent.url ∈ path then
          [([resource, dependent], .obstacle (.cycle dependent.url))]
        else
          (graph.survey (dependent.url :: path) dependent).map (Prod.map (resource :: ·) id)
termination_by graph.offPath path
decreasing_by exact offPath_cons_lt (Table.mem_values_of_get? ‹_›) ‹_›

-- The part of the survey that one of the URLs depending on `resource` contributes.
def sighting (graph : Graph) (path : List Url) (resource : Resource) (url : Url) :
    List (List Resource × Finding) :=
  match graph.get? url with
  | none => []
  | some dependent =>
    if dependent.declines then
      [([resource, dependent], .obstacle (.declining dependent.url))]
    else if dependent.accepts resource.url then
      [([resource, dependent], .boundary ⟨dependent.url, resource.url⟩)]
    else if dependent.url ∈ path then
      [([resource, dependent], .obstacle (.cycle dependent.url))]
    else (graph.survey (dependent.url :: path) dependent).map (Prod.map (resource :: ·) id)

variable {graph : Graph} {path : List Url} {resource : Resource}

theorem survey_of_selfAccepts (h : resource.selfAccepts = true) :
    graph.survey path resource = [([resource], .boundary ⟨resource.url, resource.url⟩)] := by
  rw [survey, if_pos h]

theorem survey_of_not_selfAccepts (h : ¬resource.selfAccepts = true) :
    graph.survey path resource =
      resource.dependents.toList.flatMap (graph.sighting path resource) := by
  rw [survey, if_neg h]
  congr 1
  funext url
  unfold sighting
  split
  · rename_i hg
    rw [hg]
  · rename_i dependent hg
    rw [hg]
    rfl

theorem found_visit (h : ∀ url dependent, graph.get? url = some dependent → dependent.url ∉ path →
      (graph.explore (dependent.url :: path) dependent).found =
        Finding.collect ((graph.survey (dependent.url :: path) dependent).map Prod.snd))
    (url : Url) : (graph.visit path resource url).found =
      Finding.collect ((graph.sighting path resource url).map Prod.snd) := by
  unfold visit sighting
  cases hg : graph.get? url with
  | none => rfl
  | some dependent =>
      dsimp only
      split_ifs with _ _ hp
      · rfl
      · rfl
      · rfl
      · rw [h url dependent hg hp, List.map_map]
        rfl

theorem found_explore (graph : Graph) (path : List Url) (resource : Resource) :
    (graph.explore path resource).found =
      Finding.collect ((graph.survey path resource).map Prod.snd) := by
  induction path, resource using explore.induct graph with
  | case1 path resource hs =>
      rw [explore_of_selfAccepts hs, survey_of_selfAccepts hs]
      rfl
  | case2 path resource hs ih =>
      rw [explore_of_not_selfAccepts hs, survey_of_not_selfAccepts hs, List.map_flatMap]
      exact Search.found_each (found_visit ih)

end Graph

end LiveReload
