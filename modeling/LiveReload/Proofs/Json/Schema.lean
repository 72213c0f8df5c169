import LiveReload.Json.Record
import LiveReload.Proofs.Json.Arrangement

namespace LiveReload.Json

variable {σ α : Type}

-- The reader takes the tree for the value, and there is a text that it does so in.
structure Means (reader : Reader α) (tree : Tree) (value : α) : Prop where
  accepts : ∀ length, Accepts reader length tree value
  given : ∃ text rest, reader.run text = .ok (value, rest)

theorem Parses.sound_means {reader : Reader α} {means : Tree → α → Prop}
    (h : Parses reader means) : Sound reader (Means reader) := by
  intro text value rest hrun
  obtain ⟨tree, body, hblanks, htells, hmeans⟩ := h.sound hrun
  exact ⟨tree, body, hblanks, htells, h.complete hmeans, text, rest, hrun⟩

theorem Means.exists_of_map {reader : Reader α} {f : α → σ} {tree : Tree} {result : σ}
    (h : Means (reader.map f) tree result) : ∃ value, f value = result := by
  obtain ⟨text, rest, hrun⟩ := h.given
  obtain ⟨value, -, hvalue⟩ := Step.map_eq_ok.1 hrun
  exact ⟨value, hvalue⟩

namespace Schema

-- What a field does to the record does not matter to what another one does.
def Independent (schema : Schema σ α) : Prop :=
  ∀ one ∈ schema.fields, ∀ other ∈ schema.fields, one.name ≠ other.name →
    ∀ {tree tree' update update'}, Means one.reader tree update →
      Means other.reader tree' update' → ∀ state, update (update' state) = update' (update state)

def find? (schema : Schema σ α) (name : String) : Option (Field σ) :=
  schema.fields.find? (·.name = name)

def Declares (schema : Schema σ α) (name : String) : Prop := name ∈ schema.fields.map (·.name)

instance (schema : Schema σ α) (name : String) : Decidable (schema.Declares name) :=
  inferInstanceAs (Decidable (name ∈ schema.fields.map (·.name)))

variable {schema : Schema σ α} {name : String}

theorem find?_eq_none_iff : schema.find? name = none ↔ ¬schema.Declares name := by
  simp [find?, Declares, List.find?_eq_none]

def classify (schema : Schema σ α) (member : Quoted × Tree) : Option (Option String) :=
  member.1.text?.map fun name => (schema.find? name).map fun _ => name

def Gives (schema : Schema σ α) (member : Quoted × Tree) (update : σ → σ) : Prop :=
  ∃ name field, member.1.text? = some name ∧ schema.find? name = some field ∧
    Means field.reader member.2 update

theorem Independent.independent (h : schema.Independent) :
    LiveReload.Independent schema.classify schema.Gives := by
  rintro one other slot slot' update update' hone hother hne ⟨name, field, hname, hfield, hgives⟩
    ⟨name', field', hname', hfield', hgives'⟩
  have hslot : name = slot := by simpa [classify, hname, hfield] using hone
  have hslot' : name' = slot' := by simpa [classify, hname', hfield'] using hother
  have hfieldName : field.name = name := by simpa using List.find?_some hfield
  have hfieldName' : field'.name = name' := by simpa using List.find?_some hfield'
  have hnames : field.name ≠ field'.name := by
    rw [hfieldName, hfieldName', hslot, hslot']
    exact hne
  exact h field (List.mem_of_find?_eq_some hfield) field' (List.mem_of_find?_eq_some hfield') hnames
    hgives hgives'

-- A member sets its field, the first time that it comes. Others are passed over.
inductive Effect (schema : Schema σ α) :
    List String × σ → String → Tree → List String × σ → Prop where
  | pass {state : List String × σ} {name : String} {tree : Tree} :
      schema.find? name = none → Effect schema state name tree state
  | fill {met : List String} {state : σ} {name : String} {tree : Tree} {field : Field σ}
      {update : σ → σ} :
      schema.find? name = some field → name ∉ met → Means field.reader tree update →
        Effect schema (met, state) name tree (name :: met, update state)

theorem classify_of_find? {member : Quoted × Tree} (hname : member.1.text? = some name) :
    schema.classify member = some ((schema.find? name).map fun _ => name) := by
  rw [classify, hname, Option.map_some]

theorem classify_of_not_declares {key : Quoted} (hname : key.text? = some name)
    (h : ¬schema.Declares name) (value : Tree) : schema.classify (key, value) = some none := by
  rw [classify, hname, Option.map_some, find?_eq_none_iff.2 h, Option.map_none]

theorem exists_text?_of_classify {member : Quoted × Tree} {slot : Option String}
    (h : schema.classify member = some slot) :
    ∃ name, member.1.text? = some name ∧ (schema.find? name).map (fun _ => name) = slot :=
  Option.map_eq_some_iff.1 h

theorem onMember_effect_iff {state next : List String × σ} {member : Quoted × Tree} :
    OnMember .strict schema.Effect state member next ↔
      Fills schema.classify schema.Gives state member next := by
  constructor
  · rintro ⟨name, hname, heffect⟩
    have hslot := schema.classify_of_find? hname
    cases heffect with
    | pass hfind =>
        rw [hfind] at hslot
        exact .pass hslot
    | fill hfind hnew hmeans =>
        rw [hfind] at hslot
        exact .fill hslot hnew ⟨name, _, hname, hfind, hmeans⟩
  · intro hfills
    cases hfills with
    | pass hslot =>
        obtain ⟨name, hname, hfind⟩ := exists_text?_of_classify hslot
        exact ⟨name, hname, .pass (Option.map_eq_none_iff.1 hfind)⟩
    | fill hslot hnew hgives =>
        obtain ⟨name, field, hname, hfind, hmeans⟩ := hgives
        rw [schema.classify_of_find? hname, hfind] at hslot
        cases hslot
        exact ⟨name, hname, .fill hfind hnew hmeans⟩

theorem sound_member (hfields : ∀ field ∈ schema.fields, ∃ means, Parses field.reader means)
    {state : List String × σ} {reader : Reader (List String × σ)}
    (hknown : schema.member state name = .ok reader) : Sound reader (schema.Effect state name) := by
  obtain ⟨met, state⟩ := state
  intro text next rest hrun
  simp only [member] at hknown
  split at hknown
  · rename_i hfind
    cases hknown
    obtain ⟨tree, body, hblanks, htells, _, -, rfl⟩ := (parses_skip.map _).sound hrun
    exact ⟨tree, body, hblanks, htells, .pass hfind⟩
  · rename_i field hfind
    split at hknown
    · cases hknown
    · rename_i hnew
      cases hknown
      obtain ⟨update, hupdate, rfl⟩ := Step.map_eq_ok.1 hrun
      obtain ⟨means, hparses⟩ := hfields field (List.mem_of_find?_eq_some hfind)
      obtain ⟨tree, body, hblanks, htells, hmeans⟩ := hparses.sound_means hupdate
      exact ⟨tree, body, hblanks, htells, .fill hfind hnew hmeans⟩

theorem accepts_member {state next : List String × σ} {tree : Tree}
    (h : schema.Effect state name tree next) :
    ∃ reader, schema.member state name = .ok reader ∧
      ∀ length, Accepts reader length tree next := by
  cases h with
  | pass hfind =>
      refine ⟨Reader.skip.map fun _ => state, ?_, (parses_skip.map _).complete ⟨(), trivial, rfl⟩⟩
      rw [find?] at hfind
      simp only [member, hfind]
  | @fill met state _ _ field update hfind hnew hmeans =>
      refine ⟨field.reader.map fun update => (name :: met, update state), ?_, ?_⟩
      · rw [find?] at hfind
        simp only [member, hfind, hnew, if_false]
      · intro length text body rest hlength hblanks htells hends
        exact Step.map_eq_ok.2 ⟨update, hmeans.accepts length hlength hblanks htells hends, rfl⟩

theorem run_reader {text inside : List Char} (h : dropBlank text = '\x7b' :: inside) {value : α}
    {rest : List Char} : schema.reader.run text = .ok (value, rest) ↔
      ∃ state, objectBody .strict schema.member ([], schema.start) true inside = .ok (state, rest) ∧
        schema.finish state.2 = .ok value := by
  have hrun : schema.reader.run text = schema.finished
      ((objectBody .strict schema.member ([], schema.start) true inside).map Prod.snd) := by
    change schema.body (dropBlank text) = _
    rw [h, body]
  rw [hrun]
  constructor
  · intro hfinished
    obtain ⟨state, tail, hstate, hfinish⟩ := Step.andThen_eq_ok.1 hfinished
    obtain ⟨full, hobject, rfl⟩ := Step.map_eq_ok.1 hstate
    split at hfinish
    · cases hfinish
    · cases hfinish
      exact ⟨full, hobject, ‹_›⟩
  · rintro ⟨state, hobject, hfinish⟩
    simp only [hobject, Step.map, finished, Step.andThen, hfinish]

-- What the members of an object come to.
def Loads (schema : Schema σ α) (members : List (Quoted × Tree)) (value : α) : Prop :=
  ∃ state, Folds (Fills schema.classify schema.Gives) ([], schema.start) members state ∧
    schema.finish state.2 = .ok value

theorem follows (hfields : ∀ field ∈ schema.fields, ∃ means, Parses field.reader means) :
    Follows schema.reader.readAll schema.Loads := by
  have hstep : OnMember .strict schema.Effect = Fills schema.classify schema.Gives := by
    funext state member next
    exact propext onMember_effect_iff
  have hfollows := follows_objectBody run_reader (sound_member hfields) accepts_member
  rw [hstep] at hfollows
  exact hfollows

theorem timesNamed_eq_count (hname : schema.Declares name) (members : List (Quoted × Tree)) :
    timesNamed name members = (slotsOf schema.classify members).count name := by
  rw [timesNamed, slotsOf, List.count_eq_countP, List.countP_filterMap]
  apply List.countP_congr
  intro member _
  cases htext : member.1.text? with
  | none => simp [classify, htext]
  | some other =>
      have hslot : schema.classify member = some ((schema.find? other).map fun _ => other) :=
        classify_of_find? htext
      cases hfind : schema.find? other with
      | none =>
          have hne : other ≠ name := by
            rintro rfl
            exact find?_eq_none_iff.1 hfind hname
          simp [hslot, hfind, hne]
      | some field => simp [hslot, hfind]

theorem Loads.rearranged (hind : schema.Independent) {insertable : Tree → Prop}
    {members others : List (Quoted × Tree)} {record : α}
    (hre : Rearranged schema.Declares insertable (fun _ _ => False) members others)
    (h : schema.Loads members record) : schema.Loads others record := by
  refine hre.preserves (motive := (schema.Loads · record)) ?_ ?_ ?_ ?_ h
  · rintro members others hperm ⟨state, hfolds, hfinish⟩
    obtain ⟨state', hfolds', -, hlike⟩ := hfolds.perm hind.independent.exchangeable hperm
    exact ⟨state', hfolds', hlike ▸ hfinish⟩
  · rintro members key name value hname hdeclared - ⟨state, hfolds, hfinish⟩
    have hpass := classify_of_not_declares hname hdeclared value
    exact ⟨state, (folds_fills_pass hpass).2 hfolds, hfinish⟩
  · rintro members key name value hname hdeclared ⟨state, hfolds, hfinish⟩
    have hpass := classify_of_not_declares hname hdeclared value
    exact ⟨state, (folds_fills_pass hpass).1 hfolds, hfinish⟩
  · exact fun hchange => hchange.elim

theorem indifferent (hfields : ∀ field ∈ schema.fields, ∃ means, Parses field.reader means)
    (hind : schema.Independent) : Indifferent schema.reader.readAll (fun _ => schema.Declares)
      (fun _ => True) fun _ _ => False := by
  refine (schema.follows hfields).indifferent (Loads.rearranged hind) ?_
  rintro members value name ⟨state, hfolds, -⟩ hname
  rw [timesNamed_eq_count hname]
  exact List.nodup_iff_count_le_one.1 hfolds.nodup_slots name

end Schema

end LiveReload.Json
