import LiveReload.Proofs.Json.Arrangement
import LiveReload.Proofs.Json.Plain
import LiveReload.Proofs.Message.Filling
import LiveReload.Proofs.Message.Json

namespace LiveReload

open Json (Denotes Follows Indifferent Keeps OnMember Parses Quoted Rearranged Sound Tree
  timesNamed)
open Wire (Form Problem Value)

namespace Wire

section Kept

-- Members that are kept as values and looked at later.
variable {σ α : Type} {form : Form σ α} {depth : Nat} {members others : List (Quoted × Tree)}
  {entries : List (Value × Value)} {value : α}

-- The members can be kept, and make every record that the entries make.
def Form.Covers (form : Form σ α) (depth : Nat) (entries : List (Value × Value))
    (members : List (Quoted × Tree)) : Prop :=
  ∃ kept, List.Forall₂ (Keeps (Denotes depth)) members kept ∧
    ∀ value, form.read (.members entries) = .ok value → form.read (.members kept) = .ok value

theorem Form.Covers.rearranged (hind : form.Independent)
    (hre : Rearranged form.Declares Tree.IsPlain (fun _ _ => False) members others)
    (h : form.Covers depth entries members) : form.Covers depth entries others := by
  refine hre.preserves (motive := form.Covers depth entries) ?_ ?_ ?_
    (fun hchange => hchange.elim) h
  · rintro members others hperm ⟨kept, hkept, hread⟩
    obtain ⟨kept', hkept', hperm'⟩ := List.perm_comp_forall₂ hperm.symm hkept
    exact ⟨kept', hkept', fun value h => read_perm hind hperm'.symm (hread value h)⟩
  · rintro members key name tree hname hdeclared hplain ⟨kept, hkept, hread⟩
    obtain ⟨held, hheld⟩ := Json.exists_denotes_of_isPlain hplain depth
    have hpass := classify_text_of_not_declares hdeclared held
    exact ⟨kept ++ [(.text name, held)],
      List.rel_append hkept (.cons ⟨name, hname, rfl, hheld⟩ .nil),
      fun value h => (read_pass_iff hpass).2 (hread value h)⟩
  · rintro members key name tree hname hdeclared ⟨kept, hkept, hread⟩
    have hfirst := List.perm_append_singleton (key, tree) members
    obtain ⟨_, _ | ⟨⟨name', hname', hkey, hheld⟩, hkept'⟩, hperm⟩ :=
      List.perm_comp_forall₂ hfirst.symm hkept
    rename_i entry kept'
    obtain ⟨_, held⟩ := entry
    cases hkey
    cases hname.symm.trans hname'
    have hpass := classify_text_of_not_declares hdeclared held
    refine ⟨kept', hkept', fun value h => (read_pass_iff hpass).1 ?_⟩
    exact read_perm hind (hperm.symm.trans (List.perm_append_singleton _ _).symm) (hread value h)

theorem Form.timesNamed_le_count {name : String} {index : Nat}
    (hindex : ∀ content, form.classify (.text name, content) = some (some index))
    (h : List.Forall₂ (Keeps (Denotes depth)) members entries) :
    timesNamed name members ≤ (slotsOf form.classify entries).count index := by
  induction h with
  | nil => exact Nat.le_refl 0
  | @cons member entry members entries hkeep _ ih =>
      obtain ⟨name', hname', hkey, -⟩ := hkeep
      obtain ⟨_, content⟩ := entry
      cases hkey
      by_cases hname : name' = name
      · subst hname
        have hslots : slotsOf form.classify ((.text name', content) :: entries) =
            index :: slotsOf form.classify entries :=
          List.filterMap_cons_some (by rw [hindex]; rfl)
        rw [hslots, List.count_cons_self, timesNamed,
          List.countP_cons_of_pos (by simpa using hname')]
        exact Nat.succ_le_succ ih
      · have hmore : timesNamed name (member :: members) = timesNamed name members :=
          List.countP_cons_of_neg (by simpa [hname'] using hname)
        rw [hmore]
        exact Nat.le_trans ih
          (((List.sublist_cons_self _ _).filterMap _).count_le index)

theorem Form.timesNamed_le_one {name : String} (hname : form.Declares name)
    (h : List.Forall₂ (Keeps (Denotes depth)) members entries)
    (hread : form.read (.members entries) = .ok value) : timesNamed name members ≤ 1 := by
  obtain ⟨index, hindex⟩ := exists_classify_text hname
  exact Nat.le_trans (timesNamed_le_count hindex h)
    (List.nodup_iff_count_le_one.1 (nodup_slots_of_read hread) index)

end Kept

theorem listOf_eq_ok_iff {α : Type} {item : Value → Except Problem α} {items : List Value}
    {values : List α} : listOf item (.list items) = .ok values ↔
      List.Forall₂ (fun content value => item content = .ok value) items values := by
  rw [listOf]
  induction items generalizing values with
  | nil => simp [pure, Except.pure, eq_comm]
  | cons content items ih =>
      rw [List.mapM_cons, List.forall₂_cons_left_iff]
      cases hone : item content with
      | error problem => simp [bind, Except.bind]
      | ok value =>
          cases hmore : items.mapM item with
          | error problem => simp [bind, Except.bind, ← ih, hmore]
          | ok others => simp [bind, Except.bind, pure, Except.pure, ← ih, hmore, eq_comm]

end Wire

namespace Message

-- An update whose members are arranged differently.
inductive UpdateRearranged : Tree → Tree → Prop where
  | same (tree : Tree) : UpdateRearranged tree tree
  | object {members others : List (Quoted × Tree)} :
      Rearranged Instruction.form.Declares Tree.IsPlain (fun _ _ => False) members others →
        UpdateRearranged (.object members) (.object others)

inductive UpdatesRearranged : Quoted × Tree → Quoted × Tree → Prop where
  | updates {key : Quoted} {items others : List Tree} :
      key.text? = some "updates" → List.Forall₂ UpdateRearranged items others →
        UpdatesRearranged (key, .list items) (key, .list others)

variable {depth : Nat} {tree other : Tree} {items others : List Tree} {value : Value}
  {values : List Value}

theorem UpdateRearranged.exists_denotes (h : UpdateRearranged tree other)
    (hdenotes : Denotes depth tree value) : ∃ value', Denotes depth other value' ∧
      ∀ instruction, Instruction.form.readValue value = .ok instruction →
        Instruction.form.readValue value' = .ok instruction := by
  cases h with
  | same => exact ⟨value, hdenotes, fun _ => id⟩
  | object hre =>
      cases depth with
      | zero => exact hdenotes.elim
      | succ depth =>
          obtain ⟨entries, hentries, rfl⟩ := hdenotes
          obtain ⟨entries', hentries', hread⟩ :=
            Form.Covers.rearranged Instruction.independent_form hre ⟨entries, hentries, fun _ => id⟩
          exact ⟨.map entries', ⟨entries', hentries', rfl⟩, hread⟩

theorem exists_denotes_of_updates (h : List.Forall₂ UpdateRearranged items others)
    (hdenotes : List.Forall₂ (Denotes depth) items values) :
    ∃ values', List.Forall₂ (Denotes depth) others values' ∧
      ∀ updates, Wire.listOf Instruction.form.readValue (.list values) = .ok updates →
        Wire.listOf Instruction.form.readValue (.list values') = .ok updates := by
  simp only [Wire.listOf_eq_ok_iff]
  induction h generalizing values with
  | nil => exact ⟨values, hdenotes, fun _ => id⟩
  | cons hone _ ih =>
      obtain _ | ⟨hvalue, hdenotes⟩ := hdenotes
      obtain ⟨value', hvalue', hread⟩ := hone.exists_denotes hvalue
      obtain ⟨values', hvalues', hreads⟩ := ih hdenotes
      refine ⟨value' :: values', .cons hvalue' hvalues', fun updates hall => ?_⟩
      obtain _ | ⟨hfirst, hrest⟩ := hall
      exact .cons (hread _ hfirst) (hreads _ hrest)

theorem timesNamed_le_one_of_mem {updates : List Instruction} {members : List (Quoted × Tree)}
    {name : String} (hdenotes : List.Forall₂ (Denotes depth) items values)
    (hreads : List.Forall₂ (fun content update => Instruction.form.readValue content = .ok update)
      values updates)
    (hm : .object members ∈ items) (hname : Instruction.form.Declares name) :
    timesNamed name members ≤ 1 := by
  induction hdenotes generalizing updates with
  | nil => cases hm
  | cons hvalue _ ih =>
      obtain _ | ⟨hread, hreads⟩ := hreads
      rcases List.mem_cons.1 hm with rfl | hm
      · cases depth with
        | zero => exact hvalue.elim
        | succ depth =>
            obtain ⟨entries, hentries, rfl⟩ := hvalue
            exact Form.timesNamed_le_one hname hentries hread
      · exact ih hreads hm

theorem exists_updates_of_read {entries : List (Value × Value)} {message : Message}
    (h : hotReloadForm.read (.members (entries ++ [(.text "updates", value)])) = .ok message) :
    ∃ updates, Wire.listOf Instruction.form.readValue value = .ok updates := by
  have hdeclares : hotReloadForm.Declares "updates" := List.mem_cons_of_mem _ List.mem_cons_self
  obtain ⟨slot, hm, hname, update, hfill⟩ := Form.exists_fill_of_last hdeclares h
  simp only [hotReloadForm, causeSlot, List.mem_cons, List.not_mem_nil, or_false] at hm
  rcases hm with rfl | rfl
  · exact absurd hname (by decide)
  · obtain ⟨updates, hupdates, -⟩ := exists_of_map_eq_ok hfill
    exact ⟨updates, hupdates⟩

def Kind.form : Kind → Form Draft Message
  | fullReload => fullReloadForm
  | hotReload => hotReloadForm

theorem Kind.independent_form (kind : Kind) : kind.form.Independent := by
  cases kind with
  | fullReload => exact independent_fullReloadForm
  | hotReload => exact independent_hotReloadForm

theorem Kind.kind_of_read {kind : Kind} {entries : List (Value × Value)} {message : Message}
    (h : kind.form.read (.members entries) = .ok message) : message.kind = kind := by
  obtain ⟨⟨_, draft⟩, -, hfinish⟩ := Form.read_eq_ok_iff.1 h
  obtain ⟨cause, reason, declinedBy, updates⟩ := draft
  cases kind with
  | fullReload =>
      cases cause <;> cases reason <;> cases hfinish
      rfl
  | hotReload =>
      cases cause <;> cases updates <;> cases hfinish
      rfl

theorem Kind.fill_updates (kind : Kind) {content content' : Value}
    (h : ∀ updates, Wire.listOf Instruction.form.readValue content = .ok updates →
      Wire.listOf Instruction.form.readValue content' = .ok updates) :
    ∀ slot ∈ kind.form.slots, slot.name = "updates" → ∀ {update},
      slot.fill content = .ok update → slot.fill content' = .ok update := by
  intro slot hm hname update hfill
  cases kind with
  | fullReload =>
      exfalso
      revert hname
      simp only [form, fullReloadForm, causeSlot, List.mem_cons, List.not_mem_nil, or_false] at hm
      rcases hm with rfl | rfl | rfl <;> decide
  | hotReload =>
      simp only [form, hotReloadForm, causeSlot, List.mem_cons, List.not_mem_nil, or_false] at hm
      rcases hm with rfl | rfl
      · exact absurd hname (by decide)
      · obtain ⟨updates, hupdates, rfl⟩ := exists_of_map_eq_ok hfill
        exact congrArg (Except.map _) (h updates hupdates)

def Kind.Declares (kind : Kind) (name : String) : Prop := name = tagName ∨ kind.form.Declares name

instance (kind : Kind) (name : String) : Decidable (kind.Declares name) :=
  inferInstanceAs (Decidable (_ ∨ _))

-- Of what is read ahead, the tag stands apart; the rest is kept in order under its names.
inductive Scans (scan : Scan) : String → Tree → Scan → Prop where
  | tag {tree : Tree} {name : String} {kind : Kind} :
      scan.tag = none → tree.text? = some name → Json.pick Kind.choices name = .ok kind →
        Scans scan tagName tree { scan with tag := some kind }
  | entry {name : String} {tree : Tree} {value : Value} :
      name ≠ tagName → Denotes innerDepth tree value →
        Scans scan name tree { scan with entries := scan.entries ++ [(.text name, value)] }

-- What the members of an object come to.
def Loads (members : List (Quoted × Tree)) (message : Message) : Prop :=
  ∃ scan, Folds (OnMember .strict Scans) {} members scan ∧ ofScan scan = .ok message

section Loading

theorem parses_tag : Parses tagReader fun tree kind =>
    ∃ name, tree.text? = some name ∧ Json.pick Kind.choices name = .ok kind := by
  apply Json.parses_ofBody
  · intro text kind rest _ h
    split at h
    · obtain ⟨quoted, name, rfl, hname, hkind⟩ := Json.chosen_sound h
      exact ⟨.string quoted, .string quoted rest, name, hname, hkind⟩
    · cases h
  · rintro tree kind text rest ⟨name, hname, hkind⟩ htells _
    cases htells with
    | string quoted => exact Json.chosen_complete hname hkind rest
    | _ => cases hname

variable {scan next : Scan} {name : String}

theorem sound_member {reader : Json.Reader Scan} (hknown : member scan name = .ok reader) :
    Sound reader (Scans scan name) := by
  intro text result rest hrun
  unfold member at hknown
  split at hknown
  · rename_i htag
    subst htag
    split at hknown
    · cases hknown
    · rename_i hnone
      cases hknown
      obtain ⟨tree, body, hblanks, htells, kind, ⟨name, hname, hkind⟩, rfl⟩ :=
        (parses_tag.map _).sound hrun
      exact ⟨tree, body, hblanks, htells, .tag hnone hname hkind⟩
  · rename_i hne
    cases hknown
    obtain ⟨tree, body, hblanks, htells, value, hvalue, rfl⟩ :=
      ((Json.parses_value innerDepth).map _).sound hrun
    exact ⟨tree, body, hblanks, htells, .entry hne hvalue⟩

theorem accepts_member (h : Scans scan name tree next) :
    ∃ reader, member scan name = .ok reader ∧ ∀ length, Json.Accepts reader length tree next := by
  cases h with
  | tag hnone hname hkind =>
      refine ⟨tagReader.map fun kind => { scan with tag := some kind }, ?_,
        (parses_tag.map _).complete ⟨_, ⟨_, hname, hkind⟩, rfl⟩⟩
      simp only [member, hnone, if_true]
  | entry hne hvalue =>
      exact ⟨_, if_neg hne, ((Json.parses_value innerDepth).map _).complete ⟨_, hvalue, rfl⟩⟩

theorem run_reader {text inside : List Char} (h : Json.dropBlank text = '\x7b' :: inside)
    {message : Message} {rest : List Char} : reader.run text = .ok (message, rest) ↔
      ∃ scan, Json.objectBody .strict member {} true inside = .ok (scan, rest) ∧
        ofScan scan = .ok message := by
  have hrun : reader.run text =
      decided ((Json.objectBody .strict member {} true inside).map ofScan) := by
    change body (Json.dropBlank text) = _
    rw [h, body]
  rw [hrun]
  constructor
  · intro hdecided
    exact Json.Step.map_eq_ok.1 (decided_eq_ok hdecided)
  · rintro ⟨scan, hobject, hscan⟩
    rw [Json.Step.map_eq_ok.2 ⟨scan, hobject, hscan⟩]
    rfl

theorem follows : Follows ofJson Loads :=
  Json.follows_objectBody run_reader sound_member accepts_member

theorem ofScan_eq_ok_iff {message : Message} : ofScan scan = .ok message ↔
    scan.tag = some message.kind ∧
      message.kind.form.read (.members scan.entries) = .ok message := by
  obtain ⟨tag, entries⟩ := scan
  cases tag with
  | none => simp [ofScan]
  | some kind =>
      have hscan : ofScan ⟨some kind, entries⟩ = kind.form.read (.members entries) := by
        cases kind <;> rfl
      rw [hscan]
      constructor
      · intro hread
        cases Kind.kind_of_read hread
        exact ⟨rfl, hread⟩
      · rintro ⟨hkind, hread⟩
        cases hkind
        exact hread

theorem exchangeable_scans : Exchangeable (OnMember .strict Scans) fun one other =>
    one.tag = other.tag ∧ one.entries.Perm other.entries where
  refl scan := ⟨rfl, .refl _⟩
  trans hone htwo := ⟨hone.1.trans htwo.1, hone.2.trans htwo.2⟩
  follow := by
    rintro scan other item next ⟨htag, hperm⟩ ⟨name, hname, hscans⟩
    cases hscans with
    | tag hnone htext hkind =>
        exact ⟨_, ⟨_, hname, .tag (htag.symm.trans hnone) htext hkind⟩, rfl, hperm⟩
    | entry hne hvalue =>
        exact ⟨_, ⟨_, hname, .entry hne hvalue⟩, htag, hperm.append_right _⟩
  exchange := by
    rintro scan next result one other ⟨name, hname, hone⟩ ⟨name', hname', hother⟩
    cases hone with
    | tag hnone htext hkind =>
        cases hother with
        | tag hnone' => cases hnone'
        | entry hne hvalue =>
            exact ⟨_, _, ⟨_, hname', .entry hne hvalue⟩, ⟨_, hname, .tag hnone htext hkind⟩, rfl,
              .refl _⟩
    | entry hne hvalue =>
        cases hother with
        | tag hnone htext hkind =>
            exact ⟨_, _, ⟨_, hname', .tag hnone htext hkind⟩, ⟨_, hname, .entry hne hvalue⟩, rfl,
              .refl _⟩
        | entry hne' hvalue' =>
            refine ⟨_, _, ⟨_, hname', .entry hne' hvalue'⟩, ⟨_, hname, .entry hne hvalue⟩, rfl, ?_⟩
            simp only [List.append_assoc]
            exact (List.Perm.swap ..).append_left _

variable {members : List (Quoted × Tree)}

theorem timesNamed_tagName (h : Folds (OnMember .strict Scans) scan members next) :
    timesNamed tagName members + scan.tag.toList.length = next.tag.toList.length := by
  induction h with
  | nil => exact Nat.zero_add _
  | @cons scan middle next member members hone _ ih =>
      obtain ⟨name, htext, hscans⟩ := hone
      change member.1.text? = some name at htext
      cases hscans with
      | tag hnone =>
          have hmore : timesNamed tagName (member :: members) = timesNamed tagName members + 1 :=
            List.countP_cons_of_pos (decide_eq_true htext)
          rw [hmore, hnone]
          exact ih
      | entry hne =>
          have hmore : timesNamed tagName (member :: members) = timesNamed tagName members :=
            List.countP_cons_of_neg (by simpa [htext] using hne)
          rw [hmore]
          exact ih

def isField (member : Quoted × Tree) : Bool := member.1.text? ≠ some tagName

theorem exists_keeps_of_folds (h : Folds (OnMember .strict Scans) scan members next) :
    ∃ entries, List.Forall₂ (Keeps (Denotes innerDepth)) (members.filter isField) entries ∧
      next.entries = scan.entries ++ entries := by
  induction h with
  | nil => exact ⟨[], .nil, (List.append_nil _).symm⟩
  | @cons scan middle next member members hone _ ih =>
      obtain ⟨entries, hentries, hnext⟩ := ih
      obtain ⟨name, htext, hscans⟩ := hone
      change member.1.text? = some name at htext
      cases hscans with
      | tag =>
          rw [List.filter_cons_of_neg (by simpa [isField] using htext)]
          exact ⟨entries, hentries, hnext⟩
      | @entry _ _ value hne hvalue =>
          rw [List.filter_cons_of_pos (by simpa [isField, htext] using hne)]
          refine ⟨(.text name, value) :: entries, .cons ⟨name, htext, rfl, hvalue⟩ hentries, ?_⟩
          rw [hnext, List.append_assoc, List.singleton_append]

theorem timesNamed_filter (hname : name ≠ tagName) :
    timesNamed name (members.filter isField) = timesNamed name members := by
  rw [timesNamed, List.countP_filter]
  refine List.countP_congr fun member _ => ?_
  simp only [isField, Bool.and_eq_true, decide_eq_true_eq, and_iff_left_iff_imp]
  rintro htext
  rw [htext]
  exact fun heq => hname (Option.some.inj heq)

end Loading

namespace Loads

variable {members others : List (Quoted × Tree)} {message : Message} {key : Quoted} {name : String}

theorem perm (h : Loads members message) (hperm : members.Perm others) : Loads others message := by
  obtain ⟨scan, hfolds, hscan⟩ := h
  obtain ⟨htag, hread⟩ := ofScan_eq_ok_iff.1 hscan
  obtain ⟨scan', hfolds', htag', hentries⟩ := hfolds.perm exchangeable_scans hperm
  exact ⟨scan', hfolds', ofScan_eq_ok_iff.2
    ⟨htag' ▸ htag, Form.read_perm message.kind.independent_form hentries hread⟩⟩

theorem concat_iff (hkey : key.text? = some name) (hname : name ≠ tagName) :
    Loads (members ++ [(key, tree)]) message ↔
      ∃ scan value, Folds (OnMember .strict Scans) {} members scan ∧
        Denotes innerDepth tree value ∧ scan.tag = some message.kind ∧
          message.kind.form.read (.members (scan.entries ++ [(.text name, value)])) =
            .ok message := by
  constructor
  · rintro ⟨scan, hfolds, hscan⟩
    obtain ⟨middle, hmembers, name', hkey', hscans⟩ := Folds.concat_iff.1 hfolds
    cases hkey.symm.trans hkey'
    cases hscans with
    | tag => exact absurd rfl hname
    | entry _ hvalue =>
        obtain ⟨htag, hread⟩ := ofScan_eq_ok_iff.1 hscan
        exact ⟨middle, _, hmembers, hvalue, htag, hread⟩
  · rintro ⟨scan, value, hmembers, hvalue, htag, hread⟩
    exact ⟨_, Folds.concat_iff.2 ⟨scan, hmembers, name, hkey, .entry hname hvalue⟩,
      ofScan_eq_ok_iff.2 ⟨htag, hread⟩⟩

theorem rearranged
    (hre : Rearranged message.kind.Declares Tree.IsPlain UpdatesRearranged members others)
    (h : Loads members message) : Loads others message := by
  refine hre.preserves (motive := (Loads · message)) (fun hperm h => h.perm hperm) ?_ ?_ ?_ h
  · rintro members key name tree hkey hdeclared hplain ⟨scan, hfolds, hscan⟩
    obtain ⟨hname, hform⟩ := not_or.1 hdeclared
    obtain ⟨htag, hread⟩ := ofScan_eq_ok_iff.1 hscan
    obtain ⟨held, hheld⟩ := Json.exists_denotes_of_isPlain hplain innerDepth
    have hpass := Form.classify_text_of_not_declares hform held
    exact (concat_iff hkey hname).2
      ⟨scan, held, hfolds, hheld, htag, (Form.read_pass_iff hpass).2 hread⟩
  · rintro members key name tree hkey hdeclared h
    obtain ⟨hname, hform⟩ := not_or.1 hdeclared
    obtain ⟨scan, held, hfolds, -, htag, hread⟩ := (concat_iff hkey hname).1 h
    have hpass := Form.classify_text_of_not_declares hform held
    exact ⟨scan, hfolds, ofScan_eq_ok_iff.2 ⟨htag, (Form.read_pass_iff hpass).1 hread⟩⟩
  · rintro members _ _ ⟨hkey, hitems⟩ h
    obtain ⟨scan, held, hfolds, hheld, htag, hread⟩ := (concat_iff hkey (by decide)).1 h
    obtain ⟨values, hvalues, rfl⟩ := hheld
    obtain ⟨values', hvalues', hupdates⟩ := exists_denotes_of_updates hitems hvalues
    exact (concat_iff hkey (by decide)).2 ⟨scan, .list values', hfolds, ⟨values', hvalues', rfl⟩,
      htag, Form.read_of_last (message.kind.fill_updates hupdates) hread⟩

theorem timesNamed_le_one (h : Loads members message) (hname : message.kind.Declares name) :
    timesNamed name members ≤ 1 := by
  obtain ⟨scan, hfolds, hscan⟩ := h
  obtain ⟨htag, hread⟩ := ofScan_eq_ok_iff.1 hscan
  by_cases hne : name = tagName
  · have htags := timesNamed_tagName hfolds
    rw [htag] at htags
    rw [hne]
    exact Nat.le_of_add_right_le (Nat.le_of_eq htags)
  · obtain ⟨entries, hentries, hscanEntries⟩ := exists_keeps_of_folds hfolds
    rw [hscanEntries, List.nil_append] at hread
    rw [← timesNamed_filter hne]
    exact Form.timesNamed_le_one (hname.resolve_left hne) hentries hread

theorem timesNamed_le_one_of_update {items : List Tree} {inner : List (Quoted × Tree)}
    (h : Loads members message) (hkind : message.kind = .hotReload)
    (hm : (key, .list items) ∈ members) (hkey : key.text? = some "updates")
    (hitem : .object inner ∈ items) (hname : Instruction.form.Declares name) :
    timesNamed name inner ≤ 1 := by
  obtain ⟨before, after, rfl⟩ := List.append_of_mem hm
  have hlast := h.perm (List.perm_middle.trans (List.perm_append_singleton _ _).symm)
  obtain ⟨scan, held, -, hheld, -, hread⟩ := (concat_iff hkey (by decide)).1 hlast
  obtain ⟨values, hvalues, rfl⟩ := hheld
  rw [hkind] at hread
  obtain ⟨updates, hupdates⟩ := exists_updates_of_read hread
  exact timesNamed_le_one_of_mem hvalues (Wire.listOf_eq_ok_iff.1 hupdates) hitem hname

end Loads

theorem indifferent : Indifferent ofJson (fun message => message.kind.Declares) Tree.IsPlain
    UpdatesRearranged :=
  follows.indifferent Loads.rearranged Loads.timesNamed_le_one

end Message

section Printed

-- The members of the record as they are printed.
def Instruction.members (instruction : Instruction) : List (Quoted × Tree) :=
  [(.ofText "type", .string (.ofText instruction.kind)),
    (.ofText "boundary", .string (.ofText instruction.boundary)),
    (.ofText "acceptedBy", .string (.ofText instruction.accepted))]

namespace Message

def members (message : Message) : List (Quoted × Tree) :=
  (.ofText tagName, .string (.ofText message.kind.name)) ::
    match message with
    | fullReload cause reason declinedBy =>
      [(.ofText "cause", .string (.ofText cause)), (.ofText "reason", .string (.ofText reason))] ++
        match declinedBy with
        | none => []
        | some url => [(.ofText "declinedBy", .string (.ofText url))]
    | hotReload cause updates =>
      [(.ofText "cause", .string (.ofText cause)),
        (.ofText "updates", .list (updates.map fun update => .object update.members))]

theorem prints_instruction (instruction : Instruction) :
    Json.Prints instruction.print (.object instruction.members) :=
  Json.prints_object (.cons (Json.printsMember_text ..)
    (.cons (Json.printsMember_text ..) (.cons (Json.printsMember_text ..) .nil)))

theorem prints_print (message : Message) : Json.Prints message.print (.object message.members) := by
  rw [print_eq]
  refine Json.prints_object (.cons (Json.printsMember_text ..) ?_)
  cases message with
  | fullReload cause reason declinedBy =>
      refine .cons (Json.printsMember_text ..) (.cons (Json.printsMember_text ..) ?_)
      cases declinedBy with
      | none => exact .nil
      | some url => exact .cons (Json.printsMember_text ..) .nil
  | hotReload cause updates =>
      refine .cons (Json.printsMember_text ..) (.cons ⟨rfl, Json.prints_list ?_⟩ .nil)
      rw [List.forall₂_map_left_iff, List.forall₂_map_right_iff, List.forall₂_same]
      exact fun update _ => prints_instruction update

-- However the members of a message that is sent are arranged on the way, it arrives.
theorem ofJson_of_rearranged {message : Message} {text : String} {others : List (Quoted × Tree)}
    (htext : Json.IsTextOf text (.object others))
    (hre : Rearranged message.kind.Declares Tree.IsPlain UpdatesRearranged message.members others) :
    ofJson text = .ok message :=
  indifferent.rearranged message.ofJson_toJson message.prints_print.isTextOf htext hre

end Message

end Printed

end LiveReload
