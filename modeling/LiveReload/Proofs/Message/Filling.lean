import LiveReload.Proofs.Message.Contents
import LiveReload.Proofs.Record

namespace LiveReload

open Wire (Form Problem Slot Value)

namespace Wire.Form

variable {σ α : Type} {form : Form σ α} {entries others : List (Value × Value)}
  {entry : Value × Value} {filled : List Nat} {state state' : σ} {value : α}

-- The slot of an entry by the number it has among the slots.
def classify (form : Form σ α) (entry : Value × Value) : Option (Option Nat) :=
  match form.slotIndex entry.1 with
  | .error _ => none
  | .ok index => some (index.filter (· < form.slots.length))

def Gives (form : Form σ α) (entry : Value × Value) (update : σ → σ) : Prop :=
  ∃ index slot, form.slotIndex entry.1 = .ok (some index) ∧ form.slots[index]? = some slot ∧
    slot.fill entry.2 = .ok update

-- What a slot does to the record does not matter to what another one does.
structure Independent (form : Form σ α) : Prop where
  distinct : (form.slots.map (·.name)).Nodup
  commute : ∀ one ∈ form.slots, ∀ other ∈ form.slots, one.name ≠ other.name →
    ∀ {content content' update update'}, one.fill content = .ok update →
      other.fill content' = .ok update' → ∀ state, update (update' state) = update' (update state)

theorem classify_eq_some_some {index : Nat} (h : form.classify entry = some (some index)) :
    form.slotIndex entry.1 = .ok (some index) := by
  unfold classify at h
  split at h
  · cases h
  · rename_i found hindex
    rw [hindex, (Option.filter_eq_some_iff.1 (Option.some.inj h)).1]

theorem Independent.independent (h : form.Independent) :
    LiveReload.Independent form.classify form.Gives := by
  rintro one other index index' update update' hone hother hne ⟨found, slot, hfound, hslot, hfill⟩
    ⟨found', slot', hfound', hslot', hfill'⟩
  cases (classify_eq_some_some hone).symm.trans hfound
  cases (classify_eq_some_some hother).symm.trans hfound'
  obtain ⟨hlt, rfl⟩ := List.getElem?_eq_some_iff.1 hslot
  obtain ⟨hlt', rfl⟩ := List.getElem?_eq_some_iff.1 hslot'
  refine h.commute _ (List.getElem_mem hlt) _ (List.getElem_mem hlt') (fun hname => hne ?_) hfill
    hfill'
  have hslots := List.inj_on_of_nodup_map h.distinct (List.getElem_mem hlt) (List.getElem_mem hlt')
    hname
  exact h.distinct.of_map.getElem_inj_iff.1 hslots

theorem classify_of_slotIndex {index : Option Nat} (h : form.slotIndex entry.1 = .ok index) :
    form.classify entry = some (index.filter (· < form.slots.length)) := by
  simp only [classify, h]

theorem exists_fills_of_fillMembers
    (h : form.fillMembers filled state (entry :: entries) = .ok state') :
    ∃ next, Fills form.classify form.Gives (filled, state) entry next ∧
      form.fillMembers next.1 next.2 entries = .ok state' := by
  simp only [fillMembers] at h
  split at h
  · cases h
  · rename_i hindex
    exact ⟨_, .pass (classify_of_slotIndex hindex), h⟩
  · rename_i index hindex
    have hslots := classify_of_slotIndex hindex
    split at h
    · rename_i hnone
      rw [Option.filter_some, if_neg (by simpa using hnone)] at hslots
      exact ⟨_, .pass hslots, h⟩
    · rename_i slot hslot
      obtain ⟨hlt, -⟩ := List.getElem?_eq_some_iff.1 hslot
      rw [Option.filter_some, if_pos (by simpa using hlt)] at hslots
      split at h
      · cases h
      · rename_i hnew
        split at h
        · cases h
        · rename_i hfill
          exact ⟨_, .fill hslots hnew ⟨index, slot, hindex, hslot, hfill⟩, h⟩

theorem fillMembers_of_fills {next : List Nat × σ}
    (h : Fills form.classify form.Gives (filled, state) entry next) :
    form.fillMembers filled state (entry :: entries) = form.fillMembers next.1 next.2 entries := by
  cases h with
  | pass hslots =>
      unfold classify at hslots
      split at hslots
      · cases hslots
      · rename_i index hindex
        rw [Option.some.injEq, Option.filter_eq_none_iff] at hslots
        cases index with
        | none => simp only [fillMembers, hindex]
        | some index =>
            have hnone : form.slots[index]? = none := by simpa using hslots index rfl
            simp only [fillMembers, hindex, hnone]
  | fill hslots hnew hgives =>
      obtain ⟨index, slot, hindex, hslot, hfill⟩ := hgives
      cases (classify_eq_some_some hslots).symm.trans hindex
      exact fillMembers_cons hindex hslot hnew hfill

theorem fillMembers_eq_ok_iff : form.fillMembers filled state entries = .ok state' ↔
    ∃ filled', Folds (Fills form.classify form.Gives) (filled, state) entries
      (filled', state') := by
  induction entries generalizing filled state with
  | nil =>
      rw [fillMembers, Except.ok.injEq]
      constructor
      · rintro rfl
        exact ⟨filled, .nil _⟩
      · rintro ⟨_, _ | _⟩
        rfl
  | cons entry entries ih =>
      constructor
      · intro h
        obtain ⟨next, hfills, hmore⟩ := exists_fills_of_fillMembers h
        obtain ⟨filled', hfolds⟩ := ih.1 hmore
        exact ⟨filled', .cons hfills hfolds⟩
      · rintro ⟨filled', _ | ⟨hfills, hfolds⟩⟩
        rw [fillMembers_of_fills hfills]
        exact ih.2 ⟨filled', hfolds⟩

theorem read_eq_ok_iff : form.read (.members entries) = .ok value ↔
    ∃ result, Folds (Fills form.classify form.Gives) ([], form.start) entries result ∧
      form.finish result.2 = .ok value := by
  have hread : form.read (.members entries) =
      (form.fillMembers [] form.start entries).bind form.finish := rfl
  rw [hread]
  constructor
  · intro h
    cases hfill : form.fillMembers [] form.start entries with
    | error problem => simp [hfill, Except.bind] at h
    | ok state =>
        obtain ⟨filled, hfolds⟩ := fillMembers_eq_ok_iff.1 hfill
        rw [hfill] at h
        exact ⟨(filled, state), hfolds, h⟩
  · rintro ⟨⟨filled, state⟩, hfolds, hfinish⟩
    rw [fillMembers_eq_ok_iff.2 ⟨filled, hfolds⟩]
    exact hfinish

theorem read_perm (hind : form.Independent) (hperm : entries.Perm others)
    (h : form.read (.members entries) = .ok value) : form.read (.members others) = .ok value := by
  obtain ⟨result, hfolds, hfinish⟩ := read_eq_ok_iff.1 h
  obtain ⟨result', hfolds', -, hlike⟩ := hfolds.perm hind.independent.exchangeable hperm
  exact read_eq_ok_iff.2 ⟨result', hfolds', hlike ▸ hfinish⟩

theorem read_pass_iff (hpass : form.classify entry = some none) :
    form.read (.members (entries ++ [entry])) = .ok value ↔
      form.read (.members entries) = .ok value := by
  simp only [read_eq_ok_iff, folds_fills_pass hpass]

theorem slot_of_slotIndex {name : String} {index : Nat} {slot : Slot σ}
    (hindex : form.slotIndex (.text name) = .ok (some index))
    (hslot : form.slots[index]? = some slot) : slot ∈ form.slots ∧ slot.name = name := by
  obtain ⟨hlt, rfl⟩ := List.getElem?_eq_some_iff.1 hslot
  obtain ⟨_, hname, -⟩ := List.findIdx?_eq_some_iff_getElem.1 (Except.ok.inj hindex)
  exact ⟨List.getElem_mem hlt, by simpa using hname⟩

-- Only its slot looks at what a member holds.
theorem read_of_last {name : String} {content content' : Value}
    (hfill : ∀ slot ∈ form.slots, slot.name = name → ∀ {update},
      slot.fill content = .ok update → slot.fill content' = .ok update)
    (h : form.read (.members (entries ++ [(.text name, content)])) = .ok value) :
    form.read (.members (entries ++ [(.text name, content')])) = .ok value := by
  obtain ⟨result, hfolds, hfinish⟩ := read_eq_ok_iff.1 h
  obtain ⟨middle, hentries, hstep⟩ := Folds.concat_iff.1 hfolds
  refine read_eq_ok_iff.2 ⟨result, Folds.concat_iff.2 ⟨middle, hentries, ?_⟩, hfinish⟩
  cases hstep with
  | pass hslots => exact .pass hslots
  | fill hslots hnew hgives =>
      obtain ⟨index, slot, hindex, hslot, hupdate⟩ := hgives
      obtain ⟨hm, hname⟩ := slot_of_slotIndex hindex hslot
      exact .fill hslots hnew ⟨index, slot, hindex, hslot, hfill slot hm hname hupdate⟩

theorem nodup_slots_of_read (h : form.read (.members entries) = .ok value) :
    (slotsOf form.classify entries).Nodup := by
  obtain ⟨result, hfolds, -⟩ := read_eq_ok_iff.1 h
  exact hfolds.nodup_slots

def Declares (form : Form σ α) (name : String) : Prop := name ∈ form.slots.map (·.name)

instance (form : Form σ α) (name : String) : Decidable (form.Declares name) :=
  inferInstanceAs (Decidable (name ∈ _))

theorem classify_text_of_not_declares {name : String} (h : ¬form.Declares name) (content : Value) :
    form.classify (.text name, content) = some none := by
  have hindex : form.slotIndex (.text name) = .ok none := by
    rw [slotIndex, Except.ok.injEq, List.findIdx?_eq_none_iff]
    intro slot hm
    simpa using fun heq : slot.name = name => h (heq ▸ List.mem_map_of_mem hm)
  simp only [classify, hindex, Option.filter_none]

theorem exists_classify_text {name : String} (h : form.Declares name) :
    ∃ index, ∀ content, form.classify (.text name, content) = some (some index) := by
  obtain ⟨slot, hm, hname⟩ := List.mem_map.1 h
  have hsome : (form.slots.findIdx? (·.name = name)).isSome = true := by
    rw [List.findIdx?_isSome, List.any_eq_true]
    exact ⟨slot, hm, by simpa using hname⟩
  obtain ⟨index, hfind⟩ := Option.isSome_iff_exists.1 hsome
  have hlt : index < form.slots.length := (List.findIdx?_eq_some_iff_getElem.1 hfind).1
  refine ⟨index, fun content => ?_⟩
  have hindex : form.slotIndex (.text name) = .ok (some index) := congrArg Except.ok hfind
  simp only [classify, hindex, Option.filter_some, hlt, decide_true, if_true]

theorem exists_fill_of_last {name : String} {content : Value} (hname : form.Declares name)
    (h : form.read (.members (entries ++ [(.text name, content)])) = .ok value) :
    ∃ slot ∈ form.slots, slot.name = name ∧ ∃ update, slot.fill content = .ok update := by
  obtain ⟨result, hfolds, -⟩ := read_eq_ok_iff.1 h
  obtain ⟨middle, -, hstep⟩ := Folds.concat_iff.1 hfolds
  cases hstep with
  | pass hpass =>
      obtain ⟨index, hindex⟩ := exists_classify_text hname
      cases (hindex content).symm.trans hpass
  | fill _ _ hgives =>
      obtain ⟨index, slot, hindex, hslot, hfill⟩ := hgives
      obtain ⟨hm, hslotName⟩ := slot_of_slotIndex hindex hslot
      exact ⟨slot, hm, hslotName, _, hfill⟩

end Wire.Form

theorem exists_of_map_eq_ok {ε α β : Type} {step : Except ε α} {f : α → β} {result : β}
    (h : step.map f = .ok result) : ∃ value, step = .ok value ∧ f value = result := by
  cases step with
  | error fault => cases h
  | ok value => exact ⟨value, rfl, Except.ok.inj h⟩

theorem Instruction.independent_form : Instruction.form.Independent where
  distinct := by decide
  commute := by
    intro one hone other hother hne content content' update update' hfill hfill' state
    simp only [form, List.mem_cons, List.not_mem_nil, or_false] at hone hother
    rcases hone with rfl | rfl | rfl <;> obtain ⟨_, -, rfl⟩ := exists_of_map_eq_ok hfill <;>
      rcases hother with rfl | rfl | rfl <;>
        first
        | exact absurd rfl hne
        | (obtain ⟨_, -, rfl⟩ := exists_of_map_eq_ok hfill'; rfl)

namespace Message

theorem independent_fullReloadForm : fullReloadForm.Independent where
  distinct := by decide
  commute := by
    intro one hone other hother hne content content' update update' hfill hfill' state
    simp only [fullReloadForm, causeSlot, List.mem_cons, List.not_mem_nil, or_false] at hone hother
    rcases hone with rfl | rfl | rfl <;> obtain ⟨_, -, rfl⟩ := exists_of_map_eq_ok hfill <;>
      rcases hother with rfl | rfl | rfl <;>
        first
        | exact absurd rfl hne
        | (obtain ⟨_, -, rfl⟩ := exists_of_map_eq_ok hfill'; rfl)

theorem independent_hotReloadForm : hotReloadForm.Independent where
  distinct := by decide
  commute := by
    intro one hone other hother hne content content' update update' hfill hfill' state
    simp only [hotReloadForm, causeSlot, List.mem_cons, List.not_mem_nil, or_false] at hone hother
    rcases hone with rfl | rfl <;> obtain ⟨_, -, rfl⟩ := exists_of_map_eq_ok hfill <;>
      rcases hother with rfl | rfl <;>
        first
        | exact absurd rfl hne
        | (obtain ⟨_, -, rfl⟩ := exists_of_map_eq_ok hfill'; rfl)

end Message

end LiveReload
