import LiveReload.Proofs.Graph.Acceptance

namespace LiveReload

theorem Search.verdict_eq_declined_iff {root : Resource} {search : Search} {reason : DeclineReason}
    {who : Option Url} : search.verdict root = .declined reason who ↔
      (∃ met, search.found = .error met ∧ met.reason = reason ∧ some met.url = who) ∨
        search.found = .ok [] ∧ (if root.isUnused then .noImporter else .nothingAccepts) = reason ∧
          some root.url = who := by
  unfold verdict
  cases search.found with
  | error met => simp
  | ok boundaries => cases boundaries <;> simp

theorem Obstacle.reason_mem (met : Obstacle) :
    met.reason ∈ [DeclineReason.dependentDeclines, .circularDependency] := by
  cases met <;> simp [reason]

theorem Obstacle.reason_ne (met : Obstacle) {reason : DeclineReason}
    (h : reason ∉ [DeclineReason.dependentDeclines, .circularDependency]) : met.reason ≠ reason :=
  fun he => h (he ▸ met.reason_mem)

namespace Graph

-- A live path of any length goes on to a dependent that declines, or comes back to a URL of its own.
inductive Stops (graph : Graph) (root : Resource) : List Resource → Obstacle → Prop
  | declining {before last dependent} : graph.LivePath root (before ++ [last]) →
      last.selfAccepts = false → graph.IsDependent last dependent → dependent.declines = true →
      Stops graph root (before ++ [last, dependent]) (.declining dependent.url)
  | cycle {before last dependent} : graph.LivePath root (before ++ [last, dependent]) →
      dependent.url ∈ (before ++ [last]).map Resource.url →
      Stops graph root (before ++ [last, dependent]) (.cycle dependent.url)

-- Depth first: before the walks that go on from it, and before those that branch off from it to a
-- dependent recorded later.
def Earlier (walk other : List Resource) : Prop :=
  (walk <+: other ∧ walk ≠ other) ∨ Before walk other

-- Nothing ends the search earlier than `obstacle` does at the end of `walk`.
structure FirstStop (graph : Graph) (root : Resource) (walk : List Resource)
    (obstacle : Obstacle) : Prop where
  stops : graph.Stops root walk obstacle
  first : ∀ other met, graph.Stops root other met → other = walk ∨ Earlier walk other

-- Nothing ends the search, and nothing takes the update either.
structure Stranded (graph : Graph) (root : Resource) : Prop where
  clear : graph.Clear root
  unaccepted : ∀ walk reached, ¬graph.Arrives root walk reached

variable {graph : Graph} {root : Resource} {walk other : List Resource} {obstacle met : Obstacle}

theorem Earlier.asymm (h : Earlier walk other) : ¬Earlier other walk := by
  rintro (⟨hp, hne⟩ | hb')
  · rcases h with ⟨hp', -⟩ | hb
    · exact hne (hp.eq_of_length_le hp'.length_le)
    · obtain ⟨more, rfl⟩ := hp
      exact (hb.append more).ne rfl
  · rcases h with ⟨⟨more, rfl⟩, -⟩ | hb
    · exact (hb'.append more).ne rfl
    · exact hb.asymm hb'

-- A dependent that declines is not tried for a cycle.
theorem Stops.eq_ite (h : graph.Stops root walk obstacle) :
    ∃ before last dependent, walk = before ++ [last, dependent] ∧
      obstacle = if dependent.declines then .declining dependent.url else .cycle dependent.url := by
  cases h with
  | @declining before last dependent hl hs hd hdeclines =>
      exact ⟨before, last, dependent, rfl, by rw [hdeclines, if_pos rfl]⟩
  | @cycle before last dependent hl hu =>
      refine ⟨before, last, dependent, rfl, ?_⟩
      rw [hl.of_concat.2.declines, if_neg Bool.false_ne_true]

theorem Stops.unique (h : graph.Stops root walk obstacle) (hm : graph.Stops root walk met) :
    obstacle = met := by
  obtain ⟨before, last, dependent, rfl, rfl⟩ := h.eq_ite
  obtain ⟨before', last', dependent', hw, rfl⟩ := hm.eq_ite
  obtain ⟨-, he⟩ := List.append_inj' hw rfl
  cases he
  rfl

theorem FirstStop.unique (h : graph.FirstStop root walk obstacle)
    (ho : graph.FirstStop root other met) : walk = other ∧ obstacle = met := by
  obtain rfl : walk = other := by
    rcases h.first other met ho.stops with rfl | hw
    · rfl
    · rcases ho.first walk obstacle h.stops with rfl | hw'
      · rfl
      · exact absurd hw' hw.asymm
  exact ⟨rfl, h.stops.unique ho.stops⟩

section Leads

theorem Leads.stops (h : graph.Leads [] root walk (.obstacle obstacle)) :
    graph.Stops root walk obstacle := by
  obtain ⟨before, last, rest, rfl, hl, -, hm⟩ := h
  cases hm with
  | declining hs hd hdeclines => exact .declining hl hs hd hdeclines
  | cycle hp hu => exact .cycle (hl.concat hp) (by simpa using hu)

-- A path that repeats a URL gets the search stuck at the first repetition, on the same way.
theorem Stops.exists_leads (h : graph.Stops root walk obstacle) :
    ∃ short met, short <+: walk ∧ graph.Leads [] root short (.obstacle met) := by
  have hcases : ∀ {before last dependent}, graph.LivePath root (before ++ [last]) →
      (((before ++ [last]).map Resource.url ++ []).Nodup →
        graph.Leads [] root (before ++ [last, dependent]) (.obstacle obstacle)) →
      ∃ short met, short <+: before ++ [last, dependent] ∧
        graph.Leads [] root short (.obstacle met) := by
    intro before last dependent hl hleads
    rcases hl.nodup_or_leads with hn | ⟨short, url, hs, hc⟩
    · exact ⟨_, obstacle, List.prefix_rfl, hleads (by rwa [List.append_nil])⟩
    · exact ⟨short, _, hs.trans ⟨[dependent], by simp⟩, hc⟩
  cases h with
  | declining hl hs hd hdeclines =>
      exact hcases hl fun hn => ⟨_, _, _, rfl, hl, hn, .declining hs hd hdeclines⟩
  | cycle hl hu =>
      obtain ⟨hlast, hp⟩ := hl.of_concat
      exact hcases hlast fun hn => ⟨_, _, _, rfl, hlast, hn, .cycle hp (by simpa using hu)⟩

theorem clear_iff_not_stops : graph.Clear root ↔ ∀ walk obstacle, ¬graph.Stops root walk obstacle := by
  rw [clear_iff]
  constructor
  · intro h walk obstacle hs
    obtain ⟨short, met, -, hleads⟩ := hs.exists_leads
    exact h short met hleads
  · exact fun h walk obstacle hleads => h walk obstacle hleads.stops

end Leads

section Found

-- Whatever could stop the search is in the survey or comes after something there on the same way.
theorem exists_firstStop (hk : graph.Keyed)
    (h : (graph.explore [root.url] root).found = .error obstacle) :
    ∃ walk, graph.FirstStop root walk obstacle := by
  rw [found_explore, Finding.collect_eq_error_iff] at h
  obtain ⟨before, after, he, hfirst⟩ := h
  obtain ⟨earlier, rest, hsurvey, rfl, hrest⟩ := List.map_eq_append_iff.mp he
  obtain ⟨⟨walk, finding⟩, later, rfl, rfl, -⟩ := List.map_eq_cons_iff.mp hrest
  have hnodup : [root.url].Nodup := List.nodup_singleton _
  have hleads : graph.Leads [] root walk (.obstacle obstacle) :=
    (mem_survey_iff_leads hnodup).mp (by rw [hsurvey]; simp)
  refine ⟨walk, hleads.stops, fun other met hs => ?_⟩
  obtain ⟨short, stop, hshort, hmet⟩ := hs.exists_leads
  have hbefore := pairwise_survey hk [root.url] root
  rw [hsurvey, List.pairwise_append, List.pairwise_cons] at hbefore
  have hm := (mem_survey_iff_leads hnodup).mpr hmet
  rw [hsurvey, List.mem_append, List.mem_cons] at hm
  rcases hm with hm | hm | hm
  · exact absurd (List.mem_map_of_mem hm) (hfirst stop)
  · cases hm
    by_cases he : other = walk
    · exact .inl he
    · exact .inr (.inl ⟨hshort, Ne.symm he⟩)
  · obtain ⟨more, rfl⟩ := hshort
    exact .inr (.inr ((hbefore.2.1.1 _ hm).append more))

theorem found_explore_eq_error_iff (hk : graph.Keyed) :
    (graph.explore [root.url] root).found = .error obstacle ↔
      ∃ walk, graph.FirstStop root walk obstacle := by
  constructor
  · exact exists_firstStop hk
  · rintro ⟨walk, hw⟩
    cases hf : (graph.explore [root.url] root).found with
    | error met =>
        obtain ⟨other, ho⟩ := exists_firstStop hk hf
        rw [(hw.unique ho).2]
    | ok boundaries =>
        have hclear := (found_explore_eq_ok_iff.mp hf).1
        exact absurd hw.stops (clear_iff_not_stops.mp hclear walk obstacle)

theorem found_explore_eq_nil_iff :
    (graph.explore [root.url] root).found = .ok [] ↔ graph.Stranded root := by
  rw [found_explore_eq_ok_iff, eq_comm, List.map_eq_nil_iff]
  constructor
  · rintro ⟨hc, ha⟩
    refine ⟨hc, fun walk reached harrives => ?_⟩
    have hm := hc.mem_arrivals_iff.mpr harrives
    simp [ha] at hm
  · rintro ⟨hc, hn⟩
    refine ⟨hc, List.eq_nil_iff_forall_not_mem.mpr fun arrival hm => ?_⟩
    exact hn _ _ (hc.mem_arrivals_iff.mp hm)

theorem exists_firstStop_iff_not_clear (hk : graph.Keyed) :
    (∃ walk obstacle, graph.FirstStop root walk obstacle) ↔ ¬graph.Clear root := by
  constructor
  · rintro ⟨walk, obstacle, hw⟩ hc
    exact clear_iff_not_stops.mp hc walk obstacle hw.stops
  · intro h
    cases hf : (graph.explore [root.url] root).found with
    | error obstacle =>
        obtain ⟨walk, hw⟩ := exists_firstStop hk hf
        exact ⟨walk, obstacle, hw⟩
    | ok boundaries => exact absurd (found_explore_eq_ok_iff.mp hf).1 h

end Found

theorem not_clear_iff : ¬graph.Clear root ↔
    (∃ path, graph.LivePath root path ∧ ¬(path.map Resource.url).Nodup) ∨
      ∃ before last dependent, graph.LivePath root (before ++ [last]) ∧
        last.selfAccepts = false ∧ graph.IsDependent last dependent ∧ dependent.declines = true := by
  constructor
  · intro h
    by_contra hn
    push Not at hn
    exact h ⟨hn.1, fun before last dependent hl hs hd =>
      Bool.eq_false_iff.mpr (hn.2 before last dependent hl hs hd)⟩
  · rintro (⟨path, hl, hn⟩ | ⟨before, last, dependent, hl, hs, hd, hdeclines⟩) hc
    · exact hn (hc.simple path hl)
    · exact absurd hdeclines (Bool.eq_false_iff.mp (hc.willing before last dependent hl hs hd))

theorem verdictOf_eq_declined_iff (hk : graph.Keyed) {reason : DeclineReason} {who : Option Url} :
    graph.verdictOf root = .declined reason who ↔
      (root.declines = true ∧ .selfDeclines = reason ∧ some root.url = who) ∨
        root.declines = false ∧
          ((∃ walk met, graph.FirstStop root walk met ∧ met.reason = reason ∧ some met.url = who) ∨
            graph.Stranded root ∧
              (if root.isUnused then .noImporter else .nothingAccepts) = reason ∧
              some root.url = who) := by
  cases hd : root.declines with
  | true => simp [verdictOf, verdictOfLogged, hd]
  | false =>
      have hv : graph.verdictOf root = (graph.explore [root.url] root).verdict root := by
        rw [verdictOf, verdictOfLogged, hd, if_neg Bool.false_ne_true]
      rw [hv, Search.verdict_eq_declined_iff, found_explore_eq_nil_iff]
      simp only [found_explore_eq_error_iff hk, Bool.false_eq_true, false_and, false_or, true_and]
      rw [exists_comm]
      simp only [exists_and_right]

theorem verdictOf_eq_obstructed_iff (hk : graph.Keyed) {reason : DeclineReason}
    (hr : reason ∈ [DeclineReason.dependentDeclines, .circularDependency]) {who : Option Url} :
    graph.verdictOf root = .declined reason who ↔ root.declines = false ∧
      ∃ walk met, graph.FirstStop root walk met ∧ met.reason = reason ∧ some met.url = who := by
  simp only [List.mem_cons, List.not_mem_nil, or_false] at hr
  rw [verdictOf_eq_declined_iff hk]
  rcases hr with rfl | rfl <;> split_ifs <;> simp

theorem verdictOf_eq_noImporter_iff (hk : graph.Keyed) {who : Option Url} :
    graph.verdictOf root = .declined .noImporter who ↔ root.declines = false ∧
      graph.Stranded root ∧ root.dependents.toList = [] ∧ who = some root.url := by
  have hobstacle (met : Obstacle) : met.reason ≠ .noImporter := met.reason_ne (by decide)
  rw [verdictOf_eq_declined_iff hk, ← UrlSet.isEmpty_iff, ← Resource.isUnused,
    eq_comm (a := some root.url)]
  cases root.isUnused <;> simp [hobstacle]

theorem verdictOf_eq_nothingAccepts_iff (hk : graph.Keyed) {who : Option Url} :
    graph.verdictOf root = .declined .nothingAccepts who ↔ root.declines = false ∧
      graph.Stranded root ∧ root.dependents.toList ≠ [] ∧ who = some root.url := by
  have hobstacle (met : Obstacle) : met.reason ≠ .nothingAccepts := met.reason_ne (by decide)
  rw [verdictOf_eq_declined_iff hk, ne_eq, ← UrlSet.isEmpty_iff, ← Resource.isUnused,
    eq_comm (a := some root.url)]
  cases root.isUnused <;> simp [hobstacle]

theorem verdictOf_eq_selfDeclines_iff (hk : graph.Keyed) {who : Option Url} :
    graph.verdictOf root = .declined .selfDeclines who ↔
      root.declines = true ∧ who = some root.url := by
  have hobstacle (met : Obstacle) : met.reason ≠ .selfDeclines := met.reason_ne (by decide)
  rw [verdictOf_eq_declined_iff hk, eq_comm (a := some root.url)]
  cases root.isUnused <;> simp [hobstacle]

-- What is reported is the first thing on any live path that ends the search, in depth-first order;
-- failing that, the changed resource itself.
theorem declined_by_first_stop (edits : List Edit) (root : Resource) :
    let graph := ofEdits edits
    (∀ who, graph.verdictOf root = .declined .selfDeclines who ↔
        root.declines = true ∧ who = some root.url) ∧
      ((∃ reason ∈ [DeclineReason.dependentDeclines, .circularDependency],
          ∃ who, graph.verdictOf root = .declined reason who) ↔ root.declines = false ∧
        ((∃ path, graph.LivePath root path ∧ ¬(path.map Resource.url).Nodup) ∨
          ∃ before last dependent, graph.LivePath root (before ++ [last]) ∧
            last.selfAccepts = false ∧ graph.IsDependent last dependent ∧
            dependent.declines = true)) ∧
      (∀ reason ∈ [DeclineReason.dependentDeclines, .circularDependency], ∀ who,
        graph.verdictOf root = .declined reason who ↔ root.declines = false ∧
          ∃ walk met, graph.FirstStop root walk met ∧ met.reason = reason ∧ some met.url = who) ∧
      (∀ who, graph.verdictOf root = .declined .noImporter who ↔ root.declines = false ∧
        graph.Stranded root ∧ root.dependents.toList = [] ∧ who = some root.url) ∧
      ∀ who, graph.verdictOf root = .declined .nothingAccepts who ↔ root.declines = false ∧
        graph.Stranded root ∧ root.dependents.toList ≠ [] ∧ who = some root.url := by
  intro graph
  have hk : graph.Keyed := (wellFormed_ofEdits edits).keyed
  refine ⟨fun _ => verdictOf_eq_selfDeclines_iff hk, ?_,
    fun _ hr _ => verdictOf_eq_obstructed_iff hk hr, fun _ => verdictOf_eq_noImporter_iff hk,
    fun _ => verdictOf_eq_nothingAccepts_iff hk⟩
  rw [← not_clear_iff, ← exists_firstStop_iff_not_clear hk]
  constructor
  · rintro ⟨reason, hr, who, hv⟩
    obtain ⟨hd, walk, met, hw, -⟩ := (verdictOf_eq_obstructed_iff hk hr).mp hv
    exact ⟨hd, walk, met, hw⟩
  · rintro ⟨hd, walk, met, hw⟩
    exact ⟨met.reason, met.reason_mem, some met.url,
      (verdictOf_eq_obstructed_iff hk met.reason_mem).mpr ⟨hd, walk, met, hw, rfl, rfl⟩⟩

-- `b.js` takes the update, `c.js` is a dead end, and `f.js` declines; but the search is on from
-- `d.js` to `e.js`, which declines as well, before it gets to `f.js`.
theorem declined_deep_before_later_sibling :
    let edits : List Edit :=
      [.declare "b.js" { dependencies := some ["a.js"], accepted := some ["a.js"] },
        .declare "c.js" { dependencies := some ["a.js"] },
        .declare "d.js" { dependencies := some ["a.js"] },
        .declare "e.js" { dependencies := some ["d.js"], declines := some true },
        .declare "f.js" { dependencies := some ["a.js"], declines := some true }]
    let graph := ofEdits edits
    ∃ root, graph.get? "a.js" = some root ∧ root.declines = false ∧
      graph.verdictOf root = .declined .dependentDeclines (some "e.js") ∧
      (∃ walk met, graph.FirstStop root walk met ∧ met.url = "e.js") ∧
      ∃ later, graph.Stops root later (.declining "f.js") := by
  intro edits graph
  let root : Resource :=
    ⟨1, "a.js", "", ∅, .ofList ["b.js", "c.js", "d.js", "f.js"], false, false, ∅⟩
  let declining : Resource := ⟨5, "f.js", "", .ofList ["a.js"], ∅, true, false, ∅⟩
  have hv : graph.verdictOf root = .declined .dependentDeclines (some "e.js") := by
    decide +kernel
  obtain ⟨-, -, hfirst, -⟩ := declined_by_first_stop edits root
  obtain ⟨hd, walk, met, hw, -, hu⟩ := (hfirst .dependentDeclines (by decide) _).mp hv
  refine ⟨root, by decide, hd, hv, ⟨walk, met, hw, Option.some.inj hu⟩, [root, declining], ?_⟩
  have hdependent : graph.IsDependent root declining := ⟨"f.js", by decide, by decide⟩
  exact @Stops.declining graph root [] root declining livePath_singleton rfl hdependent rfl

end Graph

end LiveReload
