import LiveReload.Proofs.Graph.Survey
import Mathlib.Data.List.Chain

namespace LiveReload.Graph

def IsDependent (graph : Graph) (resource dependent : Resource) : Prop :=
  ∃ url ∈ resource.dependents, graph.get? url = some dependent

-- The update goes through `resource` and on to `dependent`, which does not stop it either.
structure Passes (graph : Graph) (resource dependent : Resource) : Prop where
  isDependent : graph.IsDependent resource dependent
  through : resource.selfAccepts = false
  declines : dependent.declines = false
  accepts : dependent.accepts resource.url = false

-- Paths may be of any length and come back to resources that they left.
def LivePath (graph : Graph) (root : Resource) (path : List Resource) : Prop :=
  path.head? = some root ∧ path.IsChain graph.Passes

-- What an update meets at `last`, and the resources from there on; `path` are the URLs on the way.
inductive Meets (graph : Graph) (path : List Url) (last : Resource) :
    List Resource → Finding → Prop
  | self : last.selfAccepts = true →
      Meets graph path last [last] (.boundary ⟨last.url, last.url⟩)
  | declining {dependent} : last.selfAccepts = false → graph.IsDependent last dependent →
      dependent.declines = true →
      Meets graph path last [last, dependent] (.obstacle (.declining dependent.url))
  | accepting {dependent} : last.selfAccepts = false → graph.IsDependent last dependent →
      dependent.declines = false → dependent.accepts last.url = true →
      Meets graph path last [last, dependent] (.boundary ⟨dependent.url, last.url⟩)
  | cycle {dependent} : graph.Passes last dependent → dependent.url ∈ path →
      Meets graph path last [last, dependent] (.obstacle (.cycle dependent.url))

-- A live path from `root` without a repetition, that keeps off `behind`, and what it meets.
def Leads (graph : Graph) (behind : List Url) (root : Resource) (walk : List Resource)
    (finding : Finding) : Prop :=
  ∃ before last rest, walk = before ++ rest ∧ graph.LivePath root (before ++ [last]) ∧
    ((before ++ [last]).map Resource.url ++ behind).Nodup ∧
    graph.Meets ((before ++ [last]).map Resource.url ++ behind) last rest finding

variable {graph : Graph} {root dependent : Resource} {behind : List Url} {walk : List Resource}
  {finding : Finding}

theorem Meets.congr {path other : List Url} {last : Resource} {rest : List Resource}
    (h : ∀ url, url ∈ path ↔ url ∈ other) (hm : graph.Meets path last rest finding) :
    graph.Meets other last rest finding := by
  cases hm with
  | self hs => exact .self hs
  | declining hs hd hc => exact .declining hs hd hc
  | accepting hs hd hc ha => exact .accepting hs hd hc ha
  | cycle hp hm => exact .cycle hp ((h _).mp hm)

theorem livePath_singleton : graph.LivePath root [root] := ⟨rfl, .singleton root⟩

theorem livePath_cons {first : Resource} {path : List Resource} (hp : path ≠ []) :
    graph.LivePath root (first :: path) ↔
      first = root ∧ ∃ second, graph.Passes root second ∧ graph.LivePath second path := by
  obtain ⟨second, rest, rfl⟩ := List.exists_cons_of_ne_nil hp
  simp only [LivePath, List.head?_cons, Option.some.injEq, List.isChain_cons_cons]
  constructor
  · rintro ⟨rfl, hs, hc⟩
    exact ⟨rfl, second, hs, rfl, hc⟩
  · rintro ⟨rfl, _, hs, rfl, hc⟩
    exact ⟨rfl, hs, hc⟩

theorem LivePath.mem {path : List Resource} (h : graph.LivePath root path) : root ∈ path :=
  List.mem_of_mem_head? h.1

-- One step of a path, taken from its start.
theorem leads_iff (hn : (root.url :: behind).Nodup) : graph.Leads behind root walk finding ↔
    graph.Meets (root.url :: behind) root walk finding ∨
      ∃ dependent rest, graph.Passes root dependent ∧ dependent.url ∉ root.url :: behind ∧
        walk = root :: rest ∧ graph.Leads (root.url :: behind) dependent rest finding := by
  have hmem : ∀ (path : List Resource) (url : Url),
      url ∈ (root :: path).map Resource.url ++ behind ↔
        url ∈ path.map Resource.url ++ root.url :: behind := by
    intro path url
    simp only [List.map_cons, List.cons_append, List.mem_cons, List.mem_append]
    tauto
  constructor
  · rintro ⟨before, last, rest, rfl, hl, hu, hm⟩
    cases before with
    | nil =>
        obtain rfl : last = root := Option.some.inj hl.1
        exact .inl hm
    | cons first before =>
        obtain ⟨rfl, dependent, hp, hl⟩ := (livePath_cons (by simp)).mp hl
        have hmiddle := List.nodup_middle.mpr hu
        have hd : dependent.url ∉ first.url :: behind :=
          List.disjoint_of_nodup_append hmiddle (List.mem_map_of_mem hl.mem)
        exact .inr ⟨dependent, before ++ rest, hp, hd, rfl, before, last, rest, rfl, hl, hmiddle,
          hm.congr (hmem _)⟩
  · rintro (hm | ⟨dependent, rest, hp, hd, rfl, before, last, after, rfl, hl, hu, hm⟩)
    · exact ⟨[], root, walk, rfl, livePath_singleton, hn, hm⟩
    · have hpath := (livePath_cons (by simp)).mpr ⟨rfl, dependent, hp, hl⟩
      exact ⟨root :: before, last, after, rfl, hpath, List.nodup_middle.mp hu,
        hm.congr fun url => (hmem _ url).symm⟩

section Survey

variable {path : List Url}

theorem Meets.mem_survey (h : graph.Meets path root walk finding) :
    (walk, finding) ∈ graph.survey path root := by
  cases h with
  | self hs =>
      rw [survey_of_selfAccepts hs]
      exact List.mem_singleton.mpr rfl
  | declining hs hd hdeclines =>
      obtain ⟨url, hu, hg⟩ := hd
      rw [survey_of_not_selfAccepts (Bool.eq_false_iff.mp hs)]
      exact List.mem_flatMap.mpr ⟨url, hu, by simp [sighting, hg, hdeclines]⟩
  | accepting hs hd hdeclines haccepts =>
      obtain ⟨url, hu, hg⟩ := hd
      rw [survey_of_not_selfAccepts (Bool.eq_false_iff.mp hs)]
      exact List.mem_flatMap.mpr ⟨url, hu, by simp [sighting, hg, hdeclines, haccepts]⟩
  | cycle hp hpath =>
      obtain ⟨⟨url, hu, hg⟩, hs, hdeclines, haccepts⟩ := hp
      rw [survey_of_not_selfAccepts (Bool.eq_false_iff.mp hs)]
      exact List.mem_flatMap.mpr ⟨url, hu, by simp [sighting, hg, hdeclines, haccepts, hpath]⟩

theorem Passes.mem_survey (hp : graph.Passes root dependent) (hpath : dependent.url ∉ path)
    {rest : List Resource} (h : (rest, finding) ∈ graph.survey (dependent.url :: path) dependent) :
    (root :: rest, finding) ∈ graph.survey path root := by
  obtain ⟨⟨url, hu, hg⟩, hs, hdeclines, haccepts⟩ := hp
  rw [survey_of_not_selfAccepts (Bool.eq_false_iff.mp hs), List.mem_flatMap]
  refine ⟨url, hu, ?_⟩
  simp only [sighting, hg, hdeclines, haccepts, hpath, Bool.false_eq_true, if_false]
  exact List.mem_map.mpr ⟨_, h, rfl⟩

theorem cases_of_mem_sighting {url : Url} (hs : root.selfAccepts = false)
    (hu : url ∈ root.dependents) (h : (walk, finding) ∈ graph.sighting path root url) :
    graph.Meets path root walk finding ∨
      ∃ dependent rest, graph.Passes root dependent ∧ dependent.url ∉ path ∧
        walk = root :: rest ∧ (rest, finding) ∈ graph.survey (dependent.url :: path) dependent := by
  unfold sighting at h
  cases hg : graph.get? url with
  | none => simp [hg] at h
  | some dependent =>
      have hd : graph.IsDependent root dependent := ⟨url, hu, hg⟩
      rw [hg] at h
      dsimp only at h
      split_ifs at h with hdeclines haccepts hpath
      · cases List.mem_singleton.mp h
        exact .inl (.declining hs hd hdeclines)
      all_goals rw [Bool.not_eq_true] at hdeclines
      · cases List.mem_singleton.mp h
        exact .inl (.accepting hs hd hdeclines haccepts)
      all_goals rw [Bool.not_eq_true] at haccepts
      · cases List.mem_singleton.mp h
        exact .inl (.cycle ⟨hd, hs, hdeclines, haccepts⟩ hpath)
      · obtain ⟨⟨rest, found⟩, hr, he⟩ := List.mem_map.mp h
        cases he
        exact .inr ⟨dependent, rest, ⟨hd, hs, hdeclines, haccepts⟩, hpath, rfl, hr⟩

-- A survey goes on wherever the update does, and records what it meets where it does not.
theorem mem_survey_iff : (walk, finding) ∈ graph.survey path root ↔
    graph.Meets path root walk finding ∨
      ∃ dependent rest, graph.Passes root dependent ∧ dependent.url ∉ path ∧
        walk = root :: rest ∧ (rest, finding) ∈ graph.survey (dependent.url :: path) dependent := by
  constructor
  · intro h
    cases hs : root.selfAccepts with
    | true =>
        rw [survey_of_selfAccepts hs, List.mem_singleton] at h
        cases h
        exact .inl (.self hs)
    | false =>
        rw [survey_of_not_selfAccepts (Bool.eq_false_iff.mp hs), List.mem_flatMap] at h
        obtain ⟨url, hu, hm⟩ := h
        exact cases_of_mem_sighting hs hu hm
  · rintro (hm | ⟨dependent, rest, hp, hpath, rfl, hm⟩)
    · exact hm.mem_survey
    · exact hp.mem_survey hpath hm

-- The induction follows the search: live paths themselves may go around for ever.
theorem mem_survey_iff_leads (hn : (root.url :: behind).Nodup) :
    (walk, finding) ∈ graph.survey (root.url :: behind) root ↔
      graph.Leads behind root walk finding := by
  generalize hp : root.url :: behind = path at hn
  induction path, root using explore.induct graph generalizing behind walk with
  | case1 path root hs =>
      subst hp
      rw [mem_survey_iff, leads_iff hn]
      have hstop : ∀ dependent, ¬graph.Passes root dependent :=
        fun dependent hp => absurd hs (Bool.eq_false_iff.mp hp.through)
      simp only [hstop, false_and, exists_false]
  | case2 path root hs ih =>
      subst hp
      rw [mem_survey_iff, leads_iff hn]
      apply or_congr_right
      apply exists_congr
      intro dependent
      apply exists_congr
      intro rest
      apply and_congr_right
      intro hp
      apply and_congr_right
      intro hd
      apply and_congr_right
      intro _
      obtain ⟨url, _, hg⟩ := hp.isDependent
      exact ih url dependent hg hd rfl (List.nodup_cons.mpr ⟨hd, hn⟩)

end Survey

end LiveReload.Graph
