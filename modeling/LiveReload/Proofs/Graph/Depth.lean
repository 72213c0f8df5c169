import LiveReload.Proofs.Graph.Exploration

namespace LiveReload

-- The URLs that a search comes to, none after an obstacle.
def Search.reached (visit : Url → Search) : List Url → List Url
  | [] => []
  | url :: urls => url :: if (visit url).found.isOk then reached visit urls else []

-- A search together with the paths of the calls that it made, outer calls first.
structure Exploration where
  search : Search
  paths : List (List Url)

namespace Exploration

def each (visit : Url → Option Exploration) : List Url → Option Exploration
  | [] => some ⟨.deadEnd, []⟩
  | url :: urls =>
    match visit url with
    | none => none
    | some first =>
      match first.search.found with
      | .error _ => some first
      | .ok _ =>
        (each visit urls).map fun rest =>
          ⟨first.search.andThen fun _ => rest.search, first.paths ++ rest.paths⟩

variable {bounded larger : Url → Option Exploration} {visit : Url → Search} {urls : List Url}
  {exploration : Exploration}

-- Where an exploration is not cut off, it comes to what `visit` does.
def Follows (bounded : Url → Option Exploration) (visit : Url → Search) : Prop :=
  ∀ url exploration, bounded url = some exploration → exploration.search = visit url

theorem each_mono (h : ∀ url exploration, bounded url = some exploration →
      larger url = some exploration) (he : each bounded urls = some exploration) :
    each larger urls = some exploration := by
  induction urls generalizing exploration with
  | nil => exact he
  | cons url urls ih =>
      rw [each] at he ⊢
      split at he
      · cases he
      · rename_i first hfirst
        rw [h url first hfirst]
        dsimp only
        split at he
        · exact he
        · obtain ⟨rest, hrest, rfl⟩ := Option.map_eq_some_iff.mp he
          rw [ih hrest]
          rfl

-- After an obstacle there are no more calls.
theorem each_eq_some (h : Follows bounded visit) (he : each bounded urls = some exploration) :
    exploration.search = Search.each visit urls ∧
      ∀ path, path ∈ exploration.paths ↔ ∃ url ∈ Search.reached visit urls, ∃ first,
        bounded url = some first ∧ path ∈ first.paths := by
  induction urls generalizing exploration with
  | nil =>
      cases he
      simp [Search.reached, Search.each]
  | cons url urls ih =>
      rw [each] at he
      split at he
      · cases he
      · rename_i first hfirst
        have hsearch := h url first hfirst
        split at he
        · rename_i obstacle hfound
          cases he
          rw [hsearch] at hfound
          constructor
          · rw [hsearch, Search.each, Search.andThen, hfound]
          · simp [Search.reached, hfound, hfirst, Except.isOk, Except.toBool]
        · rename_i boundaries hfound
          obtain ⟨rest, hrest, rfl⟩ := Option.map_eq_some_iff.mp he
          obtain ⟨hrestSearch, hpaths⟩ := ih hrest
          rw [hsearch] at hfound
          constructor
          · rw [hsearch, hrestSearch, Search.each]
          · simp [Search.reached, hfound, hfirst, Except.isOk, Except.toBool, hpaths]

theorem each_eq_none_iff (h : Follows bounded visit) :
    each bounded urls = none ↔ ∃ url ∈ Search.reached visit urls, bounded url = none := by
  induction urls with
  | nil => simp [each, Search.reached]
  | cons url urls ih =>
      rw [each]
      split
      · rename_i hfirst
        simp [Search.reached, hfirst]
      · rename_i first hfirst
        have hsearch := h url first hfirst
        split
        · rename_i obstacle hfound
          rw [hsearch] at hfound
          simp [Search.reached, hfound, hfirst, Except.isOk, Except.toBool]
        · rename_i boundaries hfound
          rw [hsearch] at hfound
          simp [Search.reached, hfound, hfirst, Except.isOk, Except.toBool, ih]

end Exploration

namespace Graph

-- What is done about one of the URLs that depend on `resource`; `call` searches on from there.
def visitBy (graph : Graph) (call : List Url → Resource → Option Exploration) (path : List Url)
    (resource : Resource) (url : Url) : Option Exploration :=
  match graph.get? url with
  | none => some ⟨.missing resource.url url, []⟩
  | some dependent =>
    if dependent.declines then some ⟨.blocked (.declining dependent.url), []⟩
    else if dependent.accepts resource.url then
      some ⟨.boundary ⟨dependent.url, resource.url⟩, []⟩
    else if dependent.url ∈ path then some ⟨.blocked (.cycle dependent.url), []⟩
    else call (dependent.url :: path) dependent

-- The search with at most `depth` calls nested; nothing if these are not enough.
def exploreWithin (graph : Graph) : (depth : Nat) → List Url → Resource → Option Exploration
  | 0, _, _ => none
  | depth + 1, path, resource =>
    let explored :=
      if resource.selfAccepts then some ⟨.boundary ⟨resource.url, resource.url⟩, []⟩
      else
        Exploration.each (graph.visitBy (graph.exploreWithin depth) path resource)
          resource.dependents.toList
    explored.map fun exploration => ⟨exploration.search, path :: exploration.paths⟩

def verdictWithin (graph : Graph) (depth : Nat) (root : Resource) : Option Verdict :=
  if root.declines then some (.declined .selfDeclines (some root.url))
  else (graph.exploreWithin depth [root.url] root).map fun exploration =>
    exploration.search.verdict root

-- A path, newest URL first, that begins at `root`, goes on through registered resources and never
-- comes back to one of its own URLs.
structure Trail (graph : Graph) (root : Resource) (path : List Url) : Prop where
  nodup : path.Nodup
  registered : ∃ rest, path = rest ++ [root.url] ∧
    ∀ url ∈ rest, ∃ resource ∈ graph.nodes, resource.url = url

variable {graph : Graph} {root resource dependent : Resource} {path : List Url}

theorem trail_singleton : graph.Trail root [root.url] where
  nodup := List.nodup_singleton _
  registered := ⟨[], rfl, fun _ h => nomatch h⟩

theorem Trail.cons (h : graph.Trail root path) (hd : dependent ∈ graph.nodes)
    (hp : dependent.url ∉ path) : graph.Trail root (dependent.url :: path) where
  nodup := List.nodup_cons.mpr ⟨hp, h.nodup⟩
  registered := by
    obtain ⟨rest, rfl, hrest⟩ := h.registered
    refine ⟨dependent.url :: rest, rfl, ?_⟩
    intro url hu
    rcases List.mem_cons.mp hu with rfl | hu
    · exact ⟨dependent, hd, rfl⟩
    · exact hrest url hu

theorem length_nodes (graph : Graph) : graph.nodes.length = graph.size := List.length_map ..

theorem Trail.length_le (h : graph.Trail root path) : path.length ≤ graph.size + 1 := by
  obtain ⟨rest, rfl, hrest⟩ := h.registered
  have hn : rest.Nodup := (List.nodup_append.mp h.nodup).1
  have hsub : rest ⊆ graph.nodes.map Resource.url := fun url hu => List.mem_map.mpr (hrest url hu)
  have hlength := hn.length_le_of_subset hsub
  rw [List.length_map, length_nodes] at hlength
  rw [List.length_append, List.length_singleton]
  omega

-- The search goes on from `url`, where `dependent` is registered, to what depends on that in turn.
structure GoesOn (graph : Graph) (path : List Url) (resource : Resource) (url : Url)
    (dependent : Resource) : Prop where
  registered : graph.get? url = some dependent
  willing : dependent.declines = false
  unmet : dependent.accepts resource.url = false
  fresh : dependent.url ∉ path

-- The search from `resource` makes a call on the last path, its own call or one nested in it.
inductive Nests (graph : Graph) : List Url → Resource → List Url → Prop where
  | own (path : List Url) (resource : Resource) : Nests graph path resource path
  | inner {path : List Url} {resource : Resource} {url : Url} {dependent : Resource}
      {nested : List Url} : resource.selfAccepts = false →
      url ∈ Search.reached (graph.visit path resource) resource.dependents.toList →
        graph.GoesOn path resource url dependent →
          Nests graph (dependent.url :: path) dependent nested → Nests graph path resource nested

theorem visit_cases (graph : Graph) (path : List Url) (resource : Resource) (url : Url) :
    (∃ dependent, graph.GoesOn path resource url dependent ∧
      graph.visit path resource url = graph.explore (dependent.url :: path) dependent ∧
        ∀ call, graph.visitBy call path resource url = call (dependent.url :: path) dependent) ∨
    (∀ dependent, ¬graph.GoesOn path resource url dependent) ∧
      ∀ call, graph.visitBy call path resource url = some ⟨graph.visit path resource url, []⟩ := by
  unfold visitBy visit
  cases hg : graph.get? url with
  | none => exact .inr ⟨fun _ h => by simpa [hg] using h.registered, fun _ => rfl⟩
  | some dependent =>
      have hstops (h : ¬graph.GoesOn path resource url dependent) (other : Resource) :
          ¬graph.GoesOn path resource url other := by
        intro hgoes
        cases hg.symm.trans hgoes.registered
        exact h hgoes
      dsimp only
      split_ifs with hd ha hp
      · exact .inr ⟨hstops fun h => by simp [h.willing] at hd, fun _ => rfl⟩
      · exact .inr ⟨hstops fun h => by simp [h.unmet] at ha, fun _ => rfl⟩
      · exact .inr ⟨hstops fun h => h.fresh hp, fun _ => rfl⟩
      · exact .inl ⟨dependent, ⟨hg, by simpa using hd, by simpa using ha, hp⟩, rfl, fun _ => rfl⟩

theorem GoesOn.unique {url : Url} {other : Resource}
    (h : graph.GoesOn path resource url dependent) (ho : graph.GoesOn path resource url other) :
    dependent = other :=
  Option.some.inj (h.registered.symm.trans ho.registered)

section Within

variable {depth : Nat} {exploration : Exploration} {nested : List Url}

theorem exploreWithin_succ (depth : Nat) (path : List Url) (resource : Resource) :
    graph.exploreWithin (depth + 1) path resource =
      (if resource.selfAccepts then some ⟨.boundary ⟨resource.url, resource.url⟩, []⟩
      else Exploration.each (graph.visitBy (graph.exploreWithin depth) path resource)
        resource.dependents.toList).map fun exploration =>
          ⟨exploration.search, path :: exploration.paths⟩ := rfl

theorem exploreWithin_mono {more : Nat} (hm : depth ≤ more)
    (h : graph.exploreWithin depth path resource = some exploration) :
    graph.exploreWithin more path resource = some exploration := by
  induction depth generalizing more path resource exploration with
  | zero => cases h
  | succ depth ih =>
      obtain ⟨more, rfl⟩ := Nat.exists_eq_add_of_le' (Nat.le_of_add_left_le hm)
      rw [exploreWithin_succ] at h ⊢
      split_ifs at h ⊢ with hs
      · exact h
      · obtain ⟨inner, hinner, rfl⟩ := Option.map_eq_some_iff.mp h
        refine Option.map_eq_some_iff.mpr ⟨inner, Exploration.each_mono ?_ hinner, rfl⟩
        intro url first hfirst
        obtain ⟨dependent, -, -, hcall⟩ | ⟨-, hcall⟩ := graph.visit_cases path resource url
        · rw [hcall] at hfirst ⊢
          exact ih (by omega) hfirst
        · rw [hcall] at hfirst ⊢
          exact hfirst

theorem follows_visitBy (h : ∀ path resource exploration,
      graph.exploreWithin depth path resource = some exploration →
        exploration.search = graph.explore path resource) :
    Exploration.Follows (graph.visitBy (graph.exploreWithin depth) path resource)
      (graph.visit path resource) := by
  intro url exploration he
  obtain ⟨dependent, -, hvisit, hcall⟩ | ⟨-, hcall⟩ := graph.visit_cases path resource url
  · rw [hcall] at he
    rw [hvisit]
    exact h _ _ _ he
  · rw [hcall] at he
    cases he
    rfl

theorem search_of_exploreWithin (h : graph.exploreWithin depth path resource = some exploration) :
    exploration.search = graph.explore path resource := by
  induction depth generalizing path resource exploration with
  | zero => cases h
  | succ depth ih =>
      rw [exploreWithin_succ] at h
      obtain ⟨inner, hinner, rfl⟩ := Option.map_eq_some_iff.mp h
      split_ifs at hinner with hs
      · cases hinner
        rw [explore_of_selfAccepts hs]
      · rw [explore_of_not_selfAccepts hs]
        exact (Exploration.each_eq_some (follows_visitBy fun _ _ _ => ih) hinner).1

theorem follows_exploreWithin (graph : Graph) (depth : Nat) (path : List Url)
    (resource : Resource) :
    Exploration.Follows (graph.visitBy (graph.exploreWithin depth) path resource)
      (graph.visit path resource) :=
  follows_visitBy fun _ _ _ => search_of_exploreWithin

theorem nests_iff : graph.Nests path resource nested ↔ nested = path ∨
    resource.selfAccepts = false ∧
      ∃ url ∈ Search.reached (graph.visit path resource) resource.dependents.toList,
        ∃ dependent, graph.GoesOn path resource url dependent ∧
          graph.Nests (dependent.url :: path) dependent nested := by
  constructor
  · intro h
    cases h with
    | own => exact .inl rfl
    | inner hs hurl hgoes h => exact .inr ⟨hs, _, hurl, _, hgoes, h⟩
  · rintro (rfl | ⟨hs, url, hurl, dependent, hgoes, h⟩)
    · exact .own nested resource
    · exact .inner hs hurl hgoes h

theorem mem_paths_visitBy_iff {call : List Url → Resource → Option Exploration} {url : Url}
    (h : ∀ path resource exploration, call path resource = some exploration →
      (nested ∈ exploration.paths ↔ graph.Nests path resource nested))
    (hv : graph.visitBy call path resource url = some exploration) :
    nested ∈ exploration.paths ↔ ∃ dependent, graph.GoesOn path resource url dependent ∧
      graph.Nests (dependent.url :: path) dependent nested := by
  obtain ⟨dependent, hgoes, -, hcall⟩ | ⟨hstops, hcall⟩ := graph.visit_cases path resource url
  · rw [hcall] at hv
    rw [h _ _ _ hv]
    constructor
    · exact fun hnests => ⟨dependent, hgoes, hnests⟩
    · rintro ⟨other, hother, hnests⟩
      cases hgoes.unique hother
      exact hnests
  · rw [hcall] at hv
    cases hv
    simp [hstops]

-- Nothing was cut off, so whatever the search comes to was gone into.
theorem mem_paths_iff (h : graph.exploreWithin depth path resource = some exploration) :
    nested ∈ exploration.paths ↔ graph.Nests path resource nested := by
  induction depth generalizing path resource exploration with
  | zero => cases h
  | succ depth ih =>
      rw [exploreWithin_succ] at h
      obtain ⟨all, hall, rfl⟩ := Option.map_eq_some_iff.mp h
      rw [nests_iff, List.mem_cons]
      apply or_congr_right
      split_ifs at hall with hs
      · cases hall
        simp [hs]
      · have hfollows := graph.follows_exploreWithin depth path resource
        have hcut : ¬Exploration.each _ _ = none := hall ▸ Option.some_ne_none all
        rw [Exploration.each_eq_none_iff hfollows] at hcut
        rw [(Exploration.each_eq_some hfollows hall).2, eq_false_of_ne_true hs]
        simp only [true_and]
        refine exists_congr fun url => and_congr_right fun hurl => ?_
        obtain ⟨first, hfirst⟩ := Option.ne_none_iff_exists'.mp fun hn => hcut ⟨url, hurl, hn⟩
        rw [hfirst, ← mem_paths_visitBy_iff (fun _ _ _ => ih) hfirst]
        simp

-- A bound is too low exactly if a call nests as deep as it or deeper.
theorem exploreWithin_eq_none_iff : graph.exploreWithin depth path resource = none ↔
    ∃ nested, graph.Nests path resource nested ∧ path.length + depth ≤ nested.length := by
  induction depth generalizing path resource with
  | zero => exact ⟨fun _ => ⟨path, .own path resource, Nat.le_refl _⟩, fun _ => rfl⟩
  | succ depth ih =>
      have hfollows := graph.follows_exploreWithin depth path resource
      rw [exploreWithin_succ, Option.map_eq_none_iff]
      constructor
      · intro hnone
        split_ifs at hnone with hs
        obtain ⟨url, hurl, hcut⟩ := (Exploration.each_eq_none_iff hfollows).mp hnone
        obtain ⟨dependent, hgoes, -, hcall⟩ | ⟨-, hcall⟩ := graph.visit_cases path resource url
        · rw [hcall] at hcut
          obtain ⟨nested, hnests, hlength⟩ := ih.mp hcut
          rw [List.length_cons] at hlength
          exact ⟨nested, .inner (eq_false_of_ne_true hs) hurl hgoes hnests, by omega⟩
        · rw [hcall] at hcut
          cases hcut
      · rintro ⟨nested, hnests, hlength⟩
        cases hnests with
        | own => omega
        | @inner _ _ url dependent _ hs hurl hgoes hnests =>
            rw [hs, if_neg Bool.false_ne_true]
            refine (Exploration.each_eq_none_iff hfollows).mpr ⟨url, hurl, ?_⟩
            obtain ⟨other, hother, -, hcall⟩ | ⟨hstops, -⟩ := graph.visit_cases path resource url
            · cases hgoes.unique hother
              rw [hcall]
              exact ih.mpr ⟨nested, hnests, by rw [List.length_cons]; omega⟩
            · exact absurd hgoes (hstops dependent)

theorem Nests.trail (h : graph.Nests path resource nested) (ht : graph.Trail root path) :
    graph.Trail root nested := by
  induction h with
  | own => exact ht
  | inner _ _ hgoes _ ih => exact ih (ht.cons (Table.mem_values_of_get? hgoes.registered) hgoes.fresh)

end Within

-- `paths` are those of the search's own call and of all calls nested in it, so that the longest of
-- them tells the least depth that is enough.
theorem search_within_registered (graph : Graph) (root : Resource) :
    ∃ paths, (∀ depth, graph.size + 1 ≤ depth →
        graph.exploreWithin depth [root.url] root = some ⟨graph.explore [root.url] root, paths⟩ ∧
          graph.verdictWithin depth root = some (graph.verdictOf root)) ∧
      (∀ path ∈ paths, graph.Trail root path ∧ path.length ≤ graph.size + 1) ∧
      (∀ path, path ∈ paths ↔ graph.Nests [root.url] root path) ∧
      ∀ depth, graph.exploreWithin depth [root.url] root = none ↔
        ∃ path ∈ paths, depth < path.length := by
  have hroot : graph.Trail root [root.url] := trail_singleton
  have henough : graph.exploreWithin (graph.size + 1) [root.url] root ≠ none := by
    intro hnone
    obtain ⟨path, hnests, hlength⟩ := exploreWithin_eq_none_iff.mp hnone
    have hle := (hnests.trail hroot).length_le
    rw [List.length_singleton] at hlength
    omega
  obtain ⟨exploration, he⟩ := Option.ne_none_iff_exists'.mp henough
  have hpaths (path : List Url) : path ∈ exploration.paths ↔ graph.Nests [root.url] root path :=
    mem_paths_iff he
  refine ⟨exploration.paths, fun depth hd => ?_, fun path hp => ?_, hpaths, fun depth => ?_⟩
  · have hexplored : graph.exploreWithin depth [root.url] root =
        some ⟨graph.explore [root.url] root, exploration.paths⟩ := by
      rw [exploreWithin_mono hd he, ← search_of_exploreWithin he]
    refine ⟨hexplored, ?_⟩
    cases hdeclines : root.declines with
    | true => rw [verdictWithin, if_pos hdeclines, verdictOf_of_declines hdeclines]
    | false =>
        rw [verdictWithin, hdeclines, if_neg Bool.false_ne_true, hexplored, Option.map_some,
          verdictOf_of_willing hdeclines]
  · have htrail := ((hpaths path).mp hp).trail hroot
    exact ⟨htrail, htrail.length_le⟩
  · simp only [exploreWithin_eq_none_iff, List.length_singleton, hpaths, Nat.lt_iff_add_one_le,
      Nat.add_comm depth 1]

end Graph

end LiveReload
