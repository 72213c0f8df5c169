import LiveReload.Proofs.Graph.SurveyOrder

namespace LiveReload

theorem Search.verdict_eq_accepted_iff {root : Resource} {search : Search}
    {boundaries : List Boundary} : search.verdict root = .accepted boundaries ↔
      search.found = .ok boundaries ∧ boundaries ≠ [] := by
  unfold verdict
  cases search.found with
  | error obstacle => simp
  | ok found => cases found <;> cases boundaries <;> simp

namespace Graph

-- A live path that ends where the update is accepted: by its last resource itself or by a
-- dependent of it, which then ends the walk.
inductive Arrives (graph : Graph) (root : Resource) : List Resource → Boundary → Prop
  | self {before last} : graph.LivePath root (before ++ [last]) → last.selfAccepts = true →
      Arrives graph root (before ++ [last]) ⟨last.url, last.url⟩
  | dependent {before last dependent} : graph.LivePath root (before ++ [last]) →
      last.selfAccepts = false → graph.IsDependent last dependent →
      dependent.accepts last.url = true →
      Arrives graph root (before ++ [last, dependent]) ⟨dependent.url, last.url⟩

-- No live path comes back to a URL, and none gets to a dependent that declines.
structure Clear (graph : Graph) (root : Resource) : Prop where
  simple : ∀ path, graph.LivePath root path → (path.map Resource.url).Nodup
  willing : ∀ before last dependent, graph.LivePath root (before ++ [last]) →
    last.selfAccepts = false → graph.IsDependent last dependent → dependent.declines = false

variable {graph : Graph} {root : Resource} {walk : List Resource} {reached : Boundary}

theorem LivePath.concat {before : List Resource} {last dependent : Resource}
    (h : graph.LivePath root (before ++ [last])) (hp : graph.Passes last dependent) :
    graph.LivePath root (before ++ [last, dependent]) := by
  refine ⟨?_, List.isChain_append_cons_cons.mpr ⟨h.2, hp, .singleton dependent⟩⟩
  rw [← h.1]
  cases before <;> rfl

theorem LivePath.of_concat {before : List Resource} {last dependent : Resource}
    (h : graph.LivePath root (before ++ [last, dependent])) :
    graph.LivePath root (before ++ [last]) ∧ graph.Passes last dependent := by
  obtain ⟨hc, hp, -⟩ := List.isChain_append_cons_cons.mp h.2
  refine ⟨⟨?_, hc⟩, hp⟩
  rw [← h.1]
  cases before <;> rfl

-- The first repetition on a live path is a cycle, which the search meets.
theorem LivePath.nodup_or_leads {path : List Resource} (hl : graph.LivePath root path) :
    (path.map Resource.url).Nodup ∨
      ∃ walk url, walk <+: path ∧ graph.Leads [] root walk (.obstacle (.cycle url)) := by
  induction path using List.reverseRecOn with
  | nil => exact .inl List.nodup_nil
  | append_singleton path dependent ih =>
      rcases List.eq_nil_or_concat path with rfl | ⟨before, last, rfl⟩
      · exact .inl (List.nodup_singleton _)
      · rw [List.concat_eq_append, List.append_assoc] at hl
        obtain ⟨hlast, hp⟩ := hl.of_concat
        rw [List.concat_eq_append] at ih ⊢
        rcases ih hlast with hn | ⟨walk, url, hw, hleads⟩
        · by_cases hm : dependent.url ∈ (before ++ [last]).map Resource.url
          · -- up to `last` nothing repeats, so the search gets there and tries `dependent`
            refine .inr ⟨before ++ [last, dependent], dependent.url, by simp, ?_⟩
            exact ⟨before, last, _, rfl, hlast, by simpa using hn, .cycle hp (by simpa using hm)⟩
          · rw [List.map_append, List.nodup_append]
            refine .inl ⟨hn, List.nodup_singleton _, ?_⟩
            intro url hu other ho he
            obtain rfl : other = dependent.url := List.mem_singleton.mp ho
            exact hm (he ▸ hu)
        · exact .inr ⟨walk, url, hw.trans (List.prefix_append _ _), hleads⟩

theorem LivePath.nodup_of_no_obstacle
    (h : ∀ walk obstacle, ¬graph.Leads [] root walk (.obstacle obstacle)) {path : List Resource}
    (hl : graph.LivePath root path) : (path.map Resource.url).Nodup := by
  rcases hl.nodup_or_leads with hn | ⟨walk, url, -, hleads⟩
  · exact hn
  · exact absurd hleads (h walk _)

theorem clear_iff : graph.Clear root ↔
    ∀ walk obstacle, ¬graph.Leads [] root walk (.obstacle obstacle) := by
  constructor
  · rintro hc walk obstacle ⟨before, last, rest, rfl, hl, hn, hm⟩
    cases hm with
    | declining hs hd hdeclines =>
        exact absurd hdeclines (Bool.eq_false_iff.mp (hc.willing before last _ hl hs hd))
    | @cycle dependent hp hpath =>
        have hrepeat := hc.simple _ (hl.concat hp)
        rw [List.append_cons, List.map_append, List.nodup_append] at hrepeat
        rw [List.append_nil] at hpath
        exact hrepeat.2.2 _ hpath _ (List.mem_singleton.mpr rfl) rfl
  · intro h
    refine ⟨fun path hl => hl.nodup_of_no_obstacle h, ?_⟩
    intro before last dependent hl hs hd
    rw [← Bool.not_eq_true]
    intro hdeclines
    have hn := hl.nodup_of_no_obstacle h
    exact h _ _ ⟨before, last, _, rfl, hl, by rwa [List.append_nil], .declining hs hd hdeclines⟩

theorem Clear.leads_boundary_iff (h : graph.Clear root) :
    graph.Leads [] root walk (.boundary reached) ↔ graph.Arrives root walk reached := by
  constructor
  · rintro ⟨before, last, rest, rfl, hl, -, hm⟩
    cases hm with
    | self hs => exact .self hl hs
    | accepting hs hd _ haccepts => exact .dependent hl hs hd haccepts
  · intro ha
    cases ha with
    | @self before last hl hs =>
        have hn := h.simple _ hl
        exact ⟨before, last, [last], rfl, hl, by rwa [List.append_nil], .self hs⟩
    | @dependent before last dependent hl hs hd haccepts =>
        have hn := h.simple _ hl
        exact ⟨before, last, [last, dependent], rfl, hl, by rwa [List.append_nil],
          .accepting hs hd (h.willing before last dependent hl hs hd) haccepts⟩

-- The arrivals at boundaries, in the order of the survey.
def arrivals (graph : Graph) (root : Resource) : List (List Resource × Boundary) :=
  (graph.survey [root.url] root).filterMap fun entry => entry.2.boundary?.map (entry.1, ·)

theorem mem_arrivals_iff : (walk, reached) ∈ graph.arrivals root ↔
    graph.Leads [] root walk (.boundary reached) := by
  rw [← mem_survey_iff_leads (List.nodup_singleton _), arrivals, List.mem_filterMap]
  constructor
  · rintro ⟨⟨other, finding⟩, he, hf⟩
    obtain ⟨boundary, hb, he'⟩ := Option.map_eq_some_iff.mp hf
    cases he'
    obtain rfl := Finding.boundary?_eq_some_iff.mp hb
    exact he
  · intro h
    exact ⟨_, h, rfl⟩

theorem pairwise_arrivals (hk : graph.Keyed) (root : Resource) :
    (graph.arrivals root).Pairwise fun a b => Before a.1 b.1 := by
  refine (pairwise_survey hk [root.url] root).filterMap _ ?_
  intro a b h c hc d hd
  obtain ⟨_, -, rfl⟩ := Option.map_eq_some_iff.mp hc
  obtain ⟨_, -, rfl⟩ := Option.map_eq_some_iff.mp hd
  exact h

theorem map_snd_arrivals (graph : Graph) (root : Resource) :
    (graph.arrivals root).map Prod.snd =
      ((graph.survey [root.url] root).map Prod.snd).filterMap Finding.boundary? := by
  rw [arrivals, List.map_filterMap, List.filterMap_map]
  congr 1
  funext entry
  cases h : entry.2.boundary? <;> simp [h]

theorem found_explore_eq_ok_iff {boundaries : List Boundary} :
    (graph.explore [root.url] root).found = .ok boundaries ↔
      graph.Clear root ∧ boundaries = (graph.arrivals root).map Prod.snd := by
  rw [found_explore, Finding.collect_eq_ok_iff, ← map_snd_arrivals, clear_iff]
  apply and_congr_left
  intro _
  simp only [← mem_survey_iff_leads (List.nodup_singleton root.url), List.mem_map, Prod.exists,
    exists_eq_right, not_exists]
  exact forall_comm

theorem verdictOf_eq_accepted_iff {boundaries : List Boundary} (hd : root.declines = false) :
    graph.verdictOf root = .accepted boundaries ↔
      graph.Clear root ∧ boundaries = (graph.arrivals root).map Prod.snd ∧ boundaries ≠ [] := by
  rw [← and_assoc, ← found_explore_eq_ok_iff, ← Search.verdict_eq_accepted_iff, verdictOf,
    verdictOfLogged, hd, if_neg Bool.false_ne_true]

theorem Clear.mem_arrivals_iff (h : graph.Clear root) :
    (walk, reached) ∈ graph.arrivals root ↔ graph.Arrives root walk reached :=
  Graph.mem_arrivals_iff.trans h.leads_boundary_iff

theorem isAccepted_verdictOf_iff (hd : root.declines = false) :
    (graph.verdictOf root).isAccepted = true ↔
      graph.Clear root ∧ ∃ walk reached, graph.Arrives root walk reached := by
  constructor
  · intro ha
    cases hv : graph.verdictOf root with
    | declined reason declinedBy => simp [hv, Verdict.isAccepted] at ha
    | accepted boundaries =>
        obtain ⟨hc, rfl, hn⟩ := (verdictOf_eq_accepted_iff hd).mp hv
        obtain ⟨⟨walk, reached⟩, hm⟩ := List.exists_mem_of_ne_nil _ (mt (congrArg _) hn)
        exact ⟨hc, walk, reached, hc.mem_arrivals_iff.mp hm⟩
  · rintro ⟨hc, walk, reached, ha⟩
    have hm := hc.mem_arrivals_iff.mpr ha
    have hn : (graph.arrivals root).map Prod.snd ≠ [] :=
      mt List.map_eq_nil_iff.mp (List.ne_nil_of_mem hm)
    rw [(verdictOf_eq_accepted_iff hd).mpr ⟨hc, rfl, hn⟩]
    rfl

-- An update is accepted if nothing on any live path ends the search and some live path arrives at a
-- boundary; each arrival counts once.
theorem accepted_along_live_paths (edits : List Edit) {root : Resource}
    (hd : root.declines = false) :
    let graph := ofEdits edits
    ((graph.verdictOf root).isAccepted = true ↔
        graph.Clear root ∧ ∃ walk reached, graph.Arrives root walk reached) ∧
      ∀ boundaries, graph.verdictOf root = .accepted boundaries →
        ∃ arrivals : List (List Resource × Boundary), boundaries = arrivals.map Prod.snd ∧
          (∀ walk reached, (walk, reached) ∈ arrivals ↔ graph.Arrives root walk reached) ∧
          arrivals.Pairwise (fun a b => Before a.1 b.1) ∧ (arrivals.map Prod.fst).Nodup := by
  intro graph
  refine ⟨isAccepted_verdictOf_iff hd, fun boundaries hv => ?_⟩
  obtain ⟨hc, he, -⟩ := (verdictOf_eq_accepted_iff hd).mp hv
  have hbefore := pairwise_arrivals (wellFormed_ofEdits edits).keyed root
  refine ⟨graph.arrivals root, he, fun _ _ => hc.mem_arrivals_iff, hbefore, ?_⟩
  rw [List.Nodup, List.pairwise_map]
  exact hbefore.imp Before.ne

-- Two ways lead to the same boundary, which is listed twice.
theorem accepted_twice_over_two_paths :
    let edits : List Edit :=
      [.declare "b.js" { dependencies := some ["a.js"] },
        .declare "c.js" { dependencies := some ["a.js"] },
        .declare "main.js" { dependencies := some ["b.js", "c.js"], selfAccepts := some true }]
    let graph := ofEdits edits
    ∃ root, graph.get? "a.js" = some root ∧ root.declines = false ∧
      graph.verdictOf root = .accepted [⟨"main.js", "main.js"⟩, ⟨"main.js", "main.js"⟩] ∧
      graph.Clear root ∧
      ∃ arrivals : List (List Resource × Boundary), arrivals.length = 2 ∧
        (∀ walk reached, (walk, reached) ∈ arrivals ↔ graph.Arrives root walk reached) ∧
        (arrivals.map Prod.fst).Nodup := by
  intro edits graph
  let root : Resource := ⟨1, "a.js", "", ∅, .ofList ["b.js", "c.js"], false, false, ∅⟩
  have hv : graph.verdictOf root =
      .accepted [⟨"main.js", "main.js"⟩, ⟨"main.js", "main.js"⟩] := by
    decide +kernel
  have hd : root.declines = false := rfl
  obtain ⟨haccepted, harrivals⟩ := accepted_along_live_paths edits hd
  obtain ⟨arrivals, he, hmem, -, hn⟩ := harrivals _ hv
  refine ⟨root, by decide, hd, hv, (haccepted.mp (by rw [hv]; rfl)).1, arrivals, ?_, hmem, hn⟩
  rw [← List.length_map Prod.snd, ← he]
  rfl

end Graph

end LiveReload
