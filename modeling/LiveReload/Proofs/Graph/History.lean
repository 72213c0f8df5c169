import LiveReload.Proofs.Graph.WellFormed
import Mathlib.Data.List.DropRight

namespace LiveReload.Graph

namespace Edit

-- The URLs that the edit registers unless they are registered already, in this order.
def mentions : Edit → List Url
  | .register url => [url]
  | .declare url declaration => url :: declaration.dependencies.getD []
  | .remove _ => []

def removes (url : Url) : Edit → Bool
  | .remove other => other = url
  | _ => false

-- What the edit says of `url` in one field of its declaration.
def supplies? {α : Type} (url : Url) (field : Declaration → Option α) : Edit → Option α
  | .declare other declaration => if other = url then field declaration else none
  | _ => none

end Edit

-- The edits made since `url` was removed the last time.
def since (url : Url) (edits : List Edit) : List Edit := edits.rtakeWhile (!·.removes url)

-- The edits up to then.
def upTo (url : Url) (edits : List Edit) : List Edit := edits.rdropWhile (!·.removes url)

def mentioned (edits : List Edit) : List Url := edits.flatMap Edit.mentions

-- How many mentions of whatever URL came before the first one of `url` since its last removal.
def firstMention (url : Url) (edits : List Edit) : Nat :=
  (mentioned (upTo url edits)).length + (mentioned (since url edits)).idxOf url

def lastSupplied {α : Type} (url : Url) (field : Declaration → Option α) (edits : List Edit) :
    Option α :=
  ((since url edits).filterMap (·.supplies? url field)).getLast?

-- The edits made since `source` was given a list of dependencies the last time.
def sinceListed (source : Url) (edits : List Edit) : List Edit :=
  edits.rtakeWhile fun edit => (edit.supplies? source Declaration.dependencies).isNone

-- The last list that `source` was given, without what was removed since.
def references (source : Url) (edits : List Edit) : List Url :=
  ((lastSupplied source Declaration.dependencies edits).getD []).eraseDups.filter fun target =>
    (sinceListed source edits).all (!·.removes target)

-- After `step` edits `present` did not hold; one more and it did, and has held from then on.
structure HoldsFrom (present : List Edit → Prop) (edits : List Edit) (step : Nat) : Prop where
  lt_length : step < edits.length
  absent : ¬present (edits.take step)
  present : ∀ later, step < later → later ≤ edits.length → present (edits.take later)

-- `one` came to reference `target` before `other` did, and both still do.
def ReferencedSooner (target : Url) (edits : List Edit) (one other : Url) : Prop :=
  ∃ m n, m < n ∧ HoldsFrom (fun history => target ∈ references one history) edits m ∧
    HoldsFrom (fun history => target ∈ references other history) edits n

variable {url other source target : Url} {edits : List Edit} {next : Edit}

theorem since_concat (url : Url) (edits : List Edit) (next : Edit) :
    since url (edits ++ [next]) = if next.removes url then [] else since url edits ++ [next] := by
  rw [since, List.rtakeWhile_concat]
  cases next.removes url <;> rfl

theorem upTo_concat (url : Url) (edits : List Edit) (next : Edit) :
    upTo url (edits ++ [next]) = if next.removes url then edits ++ [next] else upTo url edits := by
  rw [upTo, List.rdropWhile_concat]
  cases next.removes url <;> rfl

theorem upTo_append_since (url : Url) (edits : List Edit) :
    upTo url edits ++ since url edits = edits :=
  List.rdropWhile_append_rtakeWhile

theorem mentioned_append (edits more : List Edit) :
    mentioned (edits ++ more) = mentioned edits ++ mentioned more := List.flatMap_append

@[simp] theorem mentioned_singleton (next : Edit) : mentioned [next] = next.mentions :=
  List.flatMap_singleton ..

theorem lastSupplied_concat {α : Type} (url : Url) (field : Declaration → Option α)
    (edits : List Edit) (next : Edit) : lastSupplied url field (edits ++ [next]) =
      if next.removes url then none
      else (next.supplies? url field).or (lastSupplied url field edits) := by
  rw [lastSupplied, since_concat]
  split
  · rfl
  · rw [List.filterMap_append, List.getLast?_append, lastSupplied]
    cases h : next.supplies? url field <;> simp [h]

theorem lastSupplied_map {α β : Type} (f : α → β) (url : Url) (field : Declaration → Option α)
    (edits : List Edit) : lastSupplied url (fun declaration => (field declaration).map f) edits =
      (lastSupplied url field edits).map f := by
  have hsupplies : ∀ edit : Edit,
      edit.supplies? url (fun declaration => (field declaration).map f) =
        (edit.supplies? url field).map f := by
    intro edit
    cases edit with
    | register other => rfl
    | remove other => rfl
    | declare other declaration => simp only [Edit.supplies?]; split <;> rfl
  rw [lastSupplied, lastSupplied]
  simp only [hsupplies, ← List.map_filterMap, List.getLast?_map]

-- A list given anew stands as it was given; the old one loses what `next` removes.
theorem references_concat (source : Url) (edits : List Edit) (next : Edit) :
    references source (edits ++ [next]) =
      if next.removes source then []
      else ((next.supplies? source Declaration.dependencies).map List.eraseDups).getD
        ((references source edits).filter (!next.removes ·)) := by
  rw [references, lastSupplied_concat, sinceListed, List.rtakeWhile_concat]
  by_cases hr : next.removes source = true
  · rw [if_pos hr, if_pos hr]
    rfl
  · rw [if_neg hr, if_neg hr]
    cases next.supplies? source Declaration.dependencies with
    | some urls => simp
    | none => simp [references, sinceListed, List.filter_filter, Bool.and_comm]

section Mention

theorem mem_mentioned_since_concat : url ∈ mentioned (since url (edits ++ [next])) ↔
    next.removes url = false ∧ (url ∈ mentioned (since url edits) ∨ url ∈ next.mentions) := by
  rw [since_concat]
  cases next.removes url <;> simp [mentioned]

theorem firstMention_lt (h : url ∈ mentioned (since url edits)) :
    firstMention url edits < (mentioned edits).length := by
  have hsplit := congrArg (fun all => (mentioned all).length) (upTo_append_since url edits)
  simp only [mentioned_append, List.length_append] at hsplit
  have := List.idxOf_lt_length_of_mem h
  rw [firstMention]
  omega

theorem firstMention_concat_of_mem (hr : next.removes url = false)
    (h : url ∈ mentioned (since url edits)) :
    firstMention url (edits ++ [next]) = firstMention url edits := by
  rw [firstMention, since_concat, upTo_concat, hr, if_neg Bool.false_ne_true,
    if_neg Bool.false_ne_true, mentioned_append, List.idxOf_append_of_mem h, firstMention]

theorem firstMention_concat_of_not_mem (hr : next.removes url = false)
    (h : url ∉ mentioned (since url edits)) : firstMention url (edits ++ [next]) =
      (mentioned edits).length + next.mentions.idxOf url := by
  have hsplit := congrArg (fun all => (mentioned all).length) (upTo_append_since url edits)
  simp only [mentioned_append, List.length_append] at hsplit
  rw [firstMention, since_concat, upTo_concat, hr, if_neg Bool.false_ne_true,
    if_neg Bool.false_ne_true, mentioned_append, List.idxOf_append_of_notMem h,
    mentioned_singleton]
  omega

end Mention

namespace HoldsFrom

variable {present : List Edit → Prop} {step : Nat}

theorem concat (h : HoldsFrom present edits step) (hp : present (edits ++ [next])) :
    HoldsFrom present (edits ++ [next]) step where
  lt_length := by
    have := h.lt_length
    rw [List.length_append]
    omega
  absent := by
    rw [List.take_append_of_le_length h.lt_length.le]
    exact h.absent
  present := by
    intro later hs hl
    rw [List.length_append, List.length_singleton] at hl
    rcases Nat.lt_or_ge edits.length later with hlast | hle
    · rwa [List.take_of_length_le (by simp; omega)]
    · rw [List.take_append_of_le_length hle]
      exact h.present later hs hle

theorem starts (ha : ¬present edits) (hp : present (edits ++ [next])) :
    HoldsFrom present (edits ++ [next]) edits.length where
  lt_length := by simp
  absent := by rwa [List.take_left]
  present := by
    intro later hs _
    rwa [List.take_of_length_le (by simp; omega)]

-- What holds in the end and did not in the beginning came to hold at some step for good.
theorem exists_of_present (present : List Edit → Prop) (hn : ¬present []) (hp : present edits) :
    ∃ step, HoldsFrom present edits step := by
  induction edits using List.reverseRecOn with
  | nil => exact absurd hp hn
  | append_singleton edits next ih =>
      by_cases hbefore : present edits
      · obtain ⟨step, h⟩ := ih hbefore
        exact ⟨step, h.concat hp⟩
      · exact ⟨edits.length, starts hbefore hp⟩

end HoldsFrom

namespace ReferencedSooner

variable {one : Url}

theorem concat (h : ReferencedSooner target edits one other)
    (hone : target ∈ references one (edits ++ [next]))
    (hother : target ∈ references other (edits ++ [next])) :
    ReferencedSooner target (edits ++ [next]) one other := by
  obtain ⟨m, n, hlt, hm, hn⟩ := h
  exact ⟨m, n, hlt, hm.concat hone, hn.concat hother⟩

-- Who references the target already is sooner than who comes to do so.
theorem of_new (hbefore : target ∈ references one edits)
    (hone : target ∈ references one (edits ++ [next])) (hnew : target ∉ references other edits)
    (hother : target ∈ references other (edits ++ [next])) :
    ReferencedSooner target (edits ++ [next]) one other := by
  obtain ⟨m, hm⟩ := HoldsFrom.exists_of_present (fun history => target ∈ references one history)
    List.not_mem_nil hbefore
  exact ⟨m, edits.length, hm.lt_length, hm.concat hone, HoldsFrom.starts hnew hother⟩

end ReferencedSooner

end LiveReload.Graph
