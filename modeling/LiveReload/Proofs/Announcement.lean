import LiveReload.Announcement
import LiveReload.Proofs.Graph.Exploration

namespace LiveReload

section RelativeTo

variable {root a b : Url}

theorem dropLead?_append (lead rest : List Char) : dropLead? lead (lead ++ rest) = some rest := by
  induction lead with
  | nil => rfl
  | cons first lead ih => simpa [dropLead?] using ih

-- Under the root nothing is lost of a URL by leaving the root out.
theorem Url.relativeTo_inj (ha : root.toList <+: a.toList) (hb : root.toList <+: b.toList)
    (h : Url.relativeTo root a = Url.relativeTo root b) : a = b := by
  obtain ⟨rest, ha⟩ := ha
  obtain ⟨others, hb⟩ := hb
  rw [Url.relativeTo, Url.relativeTo, ← ha, ← hb, dropLead?_append, dropLead?_append] at h
  have hrest : rest = others := String.ofList_injective h
  rw [hrest, hb] at ha
  exact String.toList_injective ha.symm

end RelativeTo

def Boundary.instruction (root : Url) (graph : Graph) (boundary : Boundary) : Instruction where
  kind := ((graph.get? boundary.url).map Resource.kind).getD ""
  boundary := Url.relativeTo root boundary.url
  accepted := Url.relativeTo root boundary.accepted

-- To drop `other`, which `url` does not reference any more.
def Instruction.drop (root url other : Url) : Instruction where
  kind := Instruction.pruneKind
  boundary := Url.relativeTo root other
  accepted := Url.relativeTo root url

namespace Graph

def declinesAt (graph : Graph) (url : Url) : Bool := (graph.get? url).any Resource.declines

end Graph

namespace Message

-- What is told of `orphans` that `url` left behind: `graph` is as it was left, and what boundaries
-- come to stands in front.
structure Announces (root : Url) (graph : Graph) (url : Url) (orphans : List Url) (cause : String)
    (leading : List Boundary → List Instruction) (message : Message) : Prop where
  hot_iff : message.kind = .hotReload ↔
    (∃ boundaries, graph.verdictAt url = .ok (.accepted boundaries)) ∧
      ∀ other ∈ orphans, graph.declinesAt other = false
  hot : ∀ boundaries, graph.verdictAt url = .ok (.accepted boundaries) →
    (∀ other ∈ orphans, graph.declinesAt other = false) →
      message = .hotReload cause (leading boundaries ++ orphans.map (Instruction.drop root url))
  declined : ∀ reason who, graph.verdictAt url = .ok (.declined reason who) →
    message = .fullReload cause reason.text (who.map (Url.relativeTo root))
  declining : ∀ boundaries earlier other later,
    graph.verdictAt url = .ok (.accepted boundaries) → orphans = earlier ++ other :: later →
      (∀ first ∈ earlier, graph.declinesAt first = false) → graph.declinesAt other = true →
        message = .fullReload cause DeclineReason.prunedDeclines.text
          (some (Url.relativeTo root other))

variable {root url : Url} {graph : Graph} {orphans : List Url} {cause : String}
  {leading : List Boundary → List Instruction} {verdict : Verdict}

-- What a verdict comes to before the orphans are looked at.
def base (root : Url) (cause : String) (leading : List Boundary → List Instruction) :
    Verdict → Message
  | .declined reason who => .fullReload cause reason.text (who.map (Url.relativeTo root))
  | .accepted boundaries => .hotReload cause (leading boundaries)

theorem addOrphans_hotReload (updates : List Instruction) :
    addOrphans root graph url orphans (.hotReload cause updates) =
      match orphans.find? graph.declinesAt with
      | some other =>
        .fullReload cause DeclineReason.prunedDeclines.text (some (Url.relativeTo root other))
      | none => .hotReload cause (updates ++ orphans.map (Instruction.drop root url)) := rfl

theorem addOrphans_of_willing {updates : List Instruction}
    (h : ∀ other ∈ orphans, graph.declinesAt other = false) :
    addOrphans root graph url orphans (.hotReload cause updates) =
      .hotReload cause (updates ++ orphans.map (Instruction.drop root url)) := by
  have hnone : orphans.find? graph.declinesAt = none :=
    List.find?_eq_none.mpr fun other ho => by simp [h other ho]
  rw [addOrphans_hotReload, hnone]

theorem addOrphans_of_declining {updates : List Instruction} {earlier later : List Url}
    {other : Url} (h : orphans = earlier ++ other :: later)
    (hearlier : ∀ first ∈ earlier, graph.declinesAt first = false)
    (hother : graph.declinesAt other = true) :
    addOrphans root graph url orphans (.hotReload cause updates) =
      .fullReload cause DeclineReason.prunedDeclines.text (some (Url.relativeTo root other)) := by
  have hsome : orphans.find? graph.declinesAt = some other :=
    List.find?_eq_some_iff_append.mpr
      ⟨hother, earlier, later, h, fun first hf => by simp [hearlier first hf]⟩
  rw [addOrphans_hotReload, hsome]

theorem kind_addOrphans_hotReload {updates : List Instruction} :
    (addOrphans root graph url orphans (.hotReload cause updates)).kind = .hotReload ↔
      ∀ other ∈ orphans, graph.declinesAt other = false := by
  rw [addOrphans_hotReload]
  cases hf : orphans.find? graph.declinesAt with
  | none =>
      have hnone := List.find?_eq_none.mp hf
      simpa [kind] using hnone
  | some other =>
      have hdeclines := List.find?_some hf
      simp only [kind, reduceCtorEq, false_iff, not_forall]
      exact ⟨other, List.mem_of_find?_eq_some hf, by simp [hdeclines]⟩

theorem announces_addOrphans (hv : graph.verdictAt url = .ok verdict) :
    Announces root graph url orphans cause leading
      (addOrphans root graph url orphans (base root cause leading verdict)) := by
  cases verdict with
  | declined reason who =>
      refine ⟨?_, ?_, ?_, ?_⟩
      · simp [hv, base, addOrphans, kind]
      · simp [hv]
      · intro reason' who' h
        rw [hv] at h
        cases h
        rfl
      · simp [hv]
  | accepted boundaries =>
      refine ⟨?_, ?_, ?_, ?_⟩
      · rw [base, kind_addOrphans_hotReload]
        simp [hv]
      · intro boundaries' h hwilling
        rw [hv] at h
        cases h
        exact addOrphans_of_willing hwilling
      · simp [hv]
      · intro boundaries' earlier other later h ho hearlier hother
        rw [hv] at h
        cases h
        exact addOrphans_of_declining ho hearlier hother

section OfOrphans

theorem ofVerdict_eq_base :
    ofVerdict root graph cause verdict =
      base root cause (·.map (Boundary.instruction root graph)) verdict := by
  cases verdict <;> rfl

theorem result_ofOrphans (hv : graph.verdictAt url = .ok verdict) (hne : orphans ≠ []) :
    (ofOrphans root graph url orphans).result =
      .ok (some (addOrphans root graph url orphans
        (base root (orphanCause root orphans) (fun _ => []) verdict))) := by
  have hempty : orphans.isEmpty = false := by simpa using hne
  unfold Graph.verdictAt at hv
  simp only [ofOrphans, hempty, Bool.false_eq_true, if_false, Logged.result_bind, hv]
  cases verdict <;> rfl

end OfOrphans

end Message

end LiveReload
