import Mathlib.Data.List.Nodup
import Mathlib.Data.List.Perm.Basic

namespace LiveReload

variable {σ ι κ : Type}

-- The items lead from one state to another, each by a step of its own.
inductive Folds (step : σ → κ → σ → Prop) : σ → List κ → σ → Prop where
  | nil (state : σ) : Folds step state [] state
  | cons {state next result : σ} {item : κ} {items : List κ} :
      step state item next → Folds step next items result → Folds step state (item :: items) result

-- Two steps may change places, up to a likeness of states that steps do not see.
structure Exchangeable (step : σ → κ → σ → Prop) (like : σ → σ → Prop) : Prop where
  refl : ∀ state, like state state
  trans : ∀ {one two three}, like one two → like two three → like one three
  follow : ∀ {state other item next}, like state other → step state item next →
    ∃ next', step other item next' ∧ like next next'
  exchange : ∀ {state next result item other}, step state item next → step next other result →
    ∃ next' result', step state other next' ∧ step next' item result' ∧ like result result'

namespace Folds

variable {step : σ → κ → σ → Prop} {like : σ → σ → Prop} {state other result : σ}
  {items others : List κ} {item : κ}

theorem append_iff : Folds step state (items ++ others) result ↔
    ∃ middle, Folds step state items middle ∧ Folds step middle others result := by
  induction items generalizing state with
  | nil =>
      refine ⟨fun h => ⟨state, .nil state, h⟩, fun ⟨_, hnil, h⟩ => ?_⟩
      cases hnil
      exact h
  | cons first items ih =>
      constructor
      · rintro (_ | ⟨hstep, hmore⟩)
        obtain ⟨middle, hitems, hothers⟩ := ih.1 hmore
        exact ⟨middle, .cons hstep hitems, hothers⟩
      · rintro ⟨middle, _ | ⟨hstep, hmore⟩, hothers⟩
        exact .cons hstep (ih.2 ⟨middle, hmore, hothers⟩)

theorem concat_iff : Folds step state (items ++ [item]) result ↔
    ∃ middle, Folds step state items middle ∧ step middle item result := by
  rw [append_iff]
  constructor
  · rintro ⟨middle, hitems, _ | ⟨hstep, _ | _⟩⟩
    exact ⟨middle, hitems, hstep⟩
  · rintro ⟨middle, hitems, hstep⟩
    exact ⟨middle, hitems, .cons hstep (.nil result)⟩

theorem of_like (hex : Exchangeable step like) (h : Folds step state items result)
    (hlike : like state other) :
    ∃ result', Folds step other items result' ∧ like result result' := by
  induction h generalizing other with
  | nil => exact ⟨other, .nil other, hlike⟩
  | cons hstep _ ih =>
      obtain ⟨next, hnext, hlike⟩ := hex.follow hlike hstep
      obtain ⟨result', hmore, hlike⟩ := ih hlike
      exact ⟨result', .cons hnext hmore, hlike⟩

theorem perm (hex : Exchangeable step like) (hperm : items.Perm others)
    (h : Folds step state items result) :
    ∃ result', Folds step state others result' ∧ like result result' := by
  induction hperm generalizing state result with
  | nil => exact ⟨result, h, hex.refl result⟩
  | cons item _ ih =>
      obtain _ | ⟨hstep, hmore⟩ := h
      obtain ⟨result', hothers, hlike⟩ := ih hmore
      exact ⟨result', .cons hstep hothers, hlike⟩
  | swap one other items =>
      obtain _ | ⟨hone, _ | ⟨hother, hmore⟩⟩ := h
      obtain ⟨next, last, hnext, hlast, hlike⟩ := hex.exchange hone hother
      obtain ⟨result', hmore, hlike⟩ := hmore.of_like hex hlike
      exact ⟨result', .cons hnext (.cons hlast hmore), hlike⟩
  | trans _ _ ih ih' =>
      obtain ⟨middle, hmiddle, hlike⟩ := ih h
      obtain ⟨result', hothers, hlike'⟩ := ih' hmiddle
      exact ⟨result', hothers, hex.trans hlike hlike'⟩

end Folds

section Fills

-- An item belongs to a slot, is passed over, or is refused.
variable {classify : κ → Option (Option ι)} {gives : κ → (σ → σ) → Prop}

-- With the record go the slots that are filled. Nothing is filled twice.
inductive Fills (classify : κ → Option (Option ι)) (gives : κ → (σ → σ) → Prop) :
    List ι × σ → κ → List ι × σ → Prop where
  | pass {state : List ι × σ} {item : κ} :
      classify item = some none → Fills classify gives state item state
  | fill {filled : List ι} {state : σ} {item : κ} {slot : ι} {update : σ → σ} :
      classify item = some (some slot) → slot ∉ filled → gives item update →
        Fills classify gives (filled, state) item (slot :: filled, update state)

-- Members of different slots change different things.
def Independent (classify : κ → Option (Option ι)) (gives : κ → (σ → σ) → Prop) : Prop :=
  ∀ ⦃item other slot slot' update update'⦄, classify item = some (some slot) →
    classify other = some (some slot') → slot ≠ slot' → gives item update → gives other update' →
      ∀ state, update (update' state) = update' (update state)

theorem Independent.exchangeable (h : Independent classify gives) :
    Exchangeable (Fills classify gives) fun one other => one.1.Perm other.1 ∧ one.2 = other.2 where
  refl state := ⟨.refl _, rfl⟩
  trans hone htwo := ⟨hone.1.trans htwo.1, hone.2.trans htwo.2⟩
  follow := by
    rintro ⟨filled, state⟩ ⟨filled', state'⟩ item next ⟨hperm, hstate⟩ hstep
    cases hstate
    cases hstep with
    | pass hc => exact ⟨_, .pass hc, hperm, rfl⟩
    | fill hc hnew hg =>
        exact ⟨_, .fill hc (fun hm => hnew (hperm.mem_iff.2 hm)) hg, hperm.cons _, rfl⟩
  exchange := by
    intro state next result item other hitem hother
    cases hitem with
    | pass hc => exact ⟨result, result, hother, .pass hc, .refl _, rfl⟩
    | fill hc hnew hg =>
        cases hother with
        | pass hc' => exact ⟨_, _, .pass hc', .fill hc hnew hg, .refl _, rfl⟩
        | fill hc' hnew' hg' =>
            rw [List.mem_cons, not_or] at hnew'
            refine ⟨_, _, .fill hc' hnew'.2 hg', .fill hc ?_ hg, .swap .., ?_⟩
            · rw [List.mem_cons, not_or]
              exact ⟨Ne.symm hnew'.1, hnew⟩
            · exact h hc' hc hnew'.1 hg' hg _

variable {one other : List ι × σ} {items : List κ} {item : κ}

theorem folds_fills_pass (h : classify item = some none) :
    Folds (Fills classify gives) one (items ++ [item]) other ↔
      Folds (Fills classify gives) one items other := by
  rw [Folds.concat_iff]
  constructor
  · rintro ⟨middle, hitems, hstep⟩
    cases hstep with
    | pass => exact hitems
    | fill hc => cases h.symm.trans hc
  · exact fun hitems => ⟨other, hitems, .pass h⟩

-- The slots that the items belong to.
def slotsOf (classify : κ → Option (Option ι)) (items : List κ) : List ι :=
  items.filterMap fun item => (classify item).join

theorem Folds.nodup (h : Folds (Fills classify gives) one items other) (hone : one.1.Nodup) :
    ((slotsOf classify items).reverse ++ one.1).Nodup := by
  induction h with
  | nil => exact hone
  | @cons state next result item items hstep _ ih =>
      cases hstep with
      | pass hc =>
          have hslots : slotsOf classify (item :: items) = slotsOf classify items :=
            List.filterMap_cons_none (by rw [hc]; rfl)
          rw [hslots]
          exact ih hone
      | @fill filled state item slot update hc hnew hg =>
          have hslots : slotsOf classify (item :: items) = slot :: slotsOf classify items :=
            List.filterMap_cons_some (by rw [hc]; rfl)
          rw [hslots, List.reverse_cons, List.append_assoc]
          exact ih (List.nodup_cons.2 ⟨hnew, hone⟩)

theorem Folds.nodup_slots {state : σ} (h : Folds (Fills classify gives) ([], state) items other) :
    (slotsOf classify items).Nodup := by
  simpa using h.nodup List.nodup_nil

end Fills

end LiveReload
