import LiveReload.Json.Choice
import LiveReload.Json.Skip
import LiveReload.Json.Value
import LiveReload.Proofs.Json.Parsing

namespace LiveReload.Json

open Wire (Value)

variable {α : Type} {text rest : List Char} {tree : Tree}

section Scalars

theorem scalar_sound {letters : List Char} {value result : α}
    (h : scalar letters value text = .ok (result, rest)) :
    text = letters ++ rest ∧ value = result := by
  obtain ⟨_, hw, hv⟩ := Step.map_eq_ok.1 h
  exact ⟨word_rest hw, hv⟩

theorem textValue_sound {value : String} (h : textValue text = .ok (value, rest)) :
    ∃ quoted : Quoted, text = quoted.inside ++ '"' :: rest ∧ quoted.text? = some value := by
  obtain ⟨chars, hb, rfl⟩ := Step.map_eq_ok.1 h
  exact exists_quoted hb

theorem textValue_complete {quoted : Quoted} {value : String} (h : quoted.text? = some value)
    (rest : List Char) : textValue (quoted.inside ++ '"' :: rest) = .ok (value, rest) := by
  rw [textValue, Quoted.textBody_of_read h, Step.map, Step.andThen, String.ofList_toList]

theorem number_sound {value : Value} (h : number text = .ok (value, rest)) :
    ∃ numeral, NumeralText numeral text rest ∧ numeral.value = .ok value := by
  obtain ⟨numeral, tail, hn, h⟩ := Step.andThen_eq_ok.1 h
  cases hv : numeral.value with
  | error fault => simp [hv, Except.map] at h
  | ok found =>
      simp only [hv, Except.map, Except.ok.injEq, Prod.mk.injEq] at h
      obtain ⟨rfl, rfl⟩ := h
      exact ⟨numeral, numeral_sound hn, hv⟩

theorem number_complete {numeral : Numeral} {value : Value} (h : NumeralText numeral text rest)
    (hends : Ends rest) (hv : numeral.value = .ok value) : number text = .ok (value, rest) := by
  rw [number, numeral_complete h hends]
  simp only [Step.andThen, hv]
  rfl

-- The string that the tree is.
def Tree.text? : Tree → Option String
  | .string quoted => quoted.text?
  | _ => none

theorem parses_string : Parses Reader.string fun tree value => tree.text? = some value := by
  apply parses_ofBody
  · intro text value rest _ h
    split at h
    · obtain ⟨quoted, rfl, hread⟩ := textValue_sound h
      exact ⟨.string quoted, .string quoted rest, hread⟩
    · cases h
  · intro tree value text rest hmeans htells _
    cases htells with
    | string quoted => exact textValue_complete hmeans rest
    | _ => cases hmeans

theorem parses_bool : Parses Reader.bool fun tree value => tree = .bool value := by
  apply parses_ofBody
  · intro text value rest _ h
    split at h
    · obtain ⟨rfl, rfl⟩ := scalar_sound h
      exact ⟨.bool true, .yes rest, rfl⟩
    · obtain ⟨rfl, rfl⟩ := scalar_sound h
      exact ⟨.bool false, .no rest, rfl⟩
    · cases h
  · intro tree value text rest hmeans htells _
    subst hmeans
    cases htells <;> rfl

theorem parses_word64 : Parses Reader.word64 fun tree value => ∃ numeral found count,
    tree = .number numeral ∧ numeral.value = .ok found ∧ Reader.natural found = .ok count ∧
      value = .ofNat count := by
  apply parses_ofBody
  · intro text value rest _ h
    split at h
    · split at h
      · obtain ⟨found, tail, hn, h⟩ := Step.andThen_eq_ok.1 h
        obtain ⟨numeral, htext, hfound⟩ := number_sound hn
        split at h
        · cases h
        · cases h
          exact ⟨.number numeral, .number htext, numeral, found, _, rfl, hfound, ‹_›, rfl⟩
      · cases h
    · cases h
  · rintro tree value text rest ⟨numeral, found, count, rfl, hfound, hcount, rfl⟩ htells hends
    cases htells with
    | number htext =>
        obtain ⟨c, tail, rfl, hc⟩ := htext.head
        have htest : (decide (c = '-') || isDigit c) = true := by simpa using hc
        simp only [htest, if_true, number_complete htext hends hfound, Step.andThen, hcount]

theorem Parses.optional {reader : Reader α} {means : Tree → α → Prop} (h : Parses reader means) :
    Parses reader.optional fun tree value =>
      match value with
      | none => tree = .null
      | some value => tree ≠ .null ∧ means tree value := by
  apply parses_ofBody
  · intro text value rest hdrop hrun
    split at hrun
    · obtain ⟨rfl, rfl⟩ := scalar_sound hrun
      exact ⟨.null, .null rest, rfl⟩
    · rename_i hnull
      obtain ⟨value, hvalue, rfl⟩ := Step.map_eq_ok.1 hrun
      obtain ⟨tree, body, hblanks, htells, hmeans⟩ := h.sound hvalue
      rw [htells.dropBlank_eq hblanks] at hdrop
      subst hdrop
      refine ⟨tree, htells, ?_, hmeans⟩
      rintro rfl
      cases htells
      exact hnull _ rfl
  · intro tree value text rest hmeans htells hends
    cases value with
    | none =>
        cases hmeans
        cases htells
        rfl
    | some value =>
        obtain ⟨hnull, hmeans⟩ := hmeans
        have hrun := h.complete hmeans text.length (Nat.le_refl _) (.here text) htells hends
        split
        · rename_i rest'
          exfalso
          cases htells with
          | null => exact hnull rfl
          | number hn => exact absurd hn.starts (by decide)
        · rw [hrun]
          rfl

theorem Parses.listOf {item : Reader α} {means : Tree → α → Prop} (h : Parses item means) :
    Parses (Reader.listOf item) fun tree values =>
      ∃ items, tree = .list items ∧ List.Forall₂ means items values := by
  apply parses_ofBody
  · intro text values rest _ hrun
    split at hrun
    · obtain ⟨items, hitems, hall⟩ := listBody_sound h.sound hrun
      exact ⟨.list items, .list hitems, items, rfl, hall⟩
    · cases hrun
  · rintro tree values text rest ⟨items, rfl, hall⟩ htells _
    cases htells with
    | @list _ inside _ hitems =>
        refine listBody_complete hitems (hall.imp fun tree value hmeans => ?_) (Nat.le_refl _)
        exact h.complete hmeans _

end Scalars

section Choice

variable {choices : List (String × α)}

-- A name, alone or as the only key of an object.
inductive Chooses (choices : List (String × α)) : Tree → α → Prop where
  | name {quoted : Quoted} {name : String} {value : α} :
      quoted.text? = some name → pick choices name = .ok value →
        Chooses choices (.string quoted) value
  | key {quoted : Quoted} {name : String} {value : α} :
      quoted.text? = some name → pick choices name = .ok value →
        Chooses choices (.object [(quoted, .null)]) value

theorem chosen_sound {value : α} (h : chosen choices text = .ok (value, rest)) :
    ∃ (quoted : Quoted) (name : String), text = quoted.inside ++ '"' :: rest ∧
      quoted.text? = some name ∧ pick choices name = .ok value := by
  obtain ⟨name, tail, ht, hlast⟩ := Step.andThen_eq_ok.1 h
  obtain ⟨quoted, htext, hname⟩ := textValue_sound ht
  split at hlast
  · cases hlast
  · cases hlast
    exact ⟨quoted, name, htext, hname, ‹_›⟩

theorem chosen_complete {quoted : Quoted} {name : String} {value : α}
    (hname : quoted.text? = some name) (hp : pick choices name = .ok value) (rest : List Char) :
    chosen choices (quoted.inside ++ '"' :: rest) = .ok (value, rest) := by
  rw [chosen, textValue_complete hname]
  simp only [Step.andThen, hp]

theorem unit_sound (h : unit text = .ok ((), rest)) :
    Blanks text ('n' :: 'u' :: 'l' :: 'l' :: rest) := by
  have hb := blanks_dropBlank text
  unfold unit at h
  split at h
  · rename_i he
    rw [he, word_rest h] at hb
    exact hb
  · cases h

theorem unit_complete (h : Blanks text ('n' :: 'u' :: 'l' :: 'l' :: rest)) :
    unit text = .ok ((), rest) := by
  rw [unit, h.dropBlank_eq_cons rfl]
  rfl

theorem chosenKey_sound {value : α} (h : chosenKey choices text = .ok (value, rest)) :
    ∃ tree, Tells tree ('\x7b' :: text) rest ∧ Chooses choices tree value := by
  have hkey := blanks_dropBlank text
  unfold chosenKey at h
  split at h
  · rename_i inside he
    rw [he] at hkey
    obtain ⟨_, colon, hc, h⟩ := Step.andThen_eq_ok.1 h
    obtain ⟨_, afterColon, hcolon, h⟩ := Step.andThen_eq_ok.1 h
    obtain ⟨_, behind, hunit, h⟩ := Step.andThen_eq_ok.1 h
    obtain ⟨_, hclose, rfl⟩ := Step.map_eq_ok.1 h
    obtain ⟨quoted, name, rfl, hname, hp⟩ := chosen_sound hc
    have hbehind := blanks_dropBlank behind
    rw [word_rest hclose] at hbehind
    have hmembers : ObjectText Tells true [(quoted, .null)] text rest :=
      .member (.first text) hkey (colon_sound hcolon) (unit_sound hunit) (.null behind)
        (.close hbehind)
    exact ⟨_, .object hmembers, .key hname hp⟩
  · cases h

theorem chosenKey_complete {quoted : Quoted} {name : String} {value : α}
    (hname : quoted.text? = some name) (hp : pick choices name = .ok value)
    (h : ObjectText Tells true [(quoted, .null)] text rest) :
    chosenKey choices text = .ok (value, rest) := by
  obtain _ | ⟨hlead, hkey, hcolon, hblanks, hnull, hclose⟩ := h
  cases hlead
  cases hnull
  obtain hclose | _ := hclose
  rw [chosenKey, hkey.dropBlank_eq_cons rfl]
  simp only [chosen_complete hname hp, Step.andThen, colon_complete hcolon, unit_complete hblanks,
    hclose.dropBlank_eq_cons rfl]
  rfl

theorem parses_choice (choices : List (String × α)) :
    Parses (Reader.choice choices) (Chooses choices) := by
  apply parses_ofBody
  · intro text value rest _ h
    split at h
    · cases h
    · obtain ⟨quoted, name, rfl, hname, hp⟩ := chosen_sound h
      exact ⟨.string quoted, .string quoted rest, .name hname hp⟩
    · exact chosenKey_sound h
    · cases h
  · intro tree value text rest hmeans htells _
    cases hmeans with
    | name hname hp =>
        cases htells
        exact chosen_complete hname hp rest
    | key hname hp =>
        cases htells with
        | object hmembers => exact chosenKey_complete hname hp hmembers

end Choice

section Value

-- A member is kept under its name with what its value denotes.
def Keeps (denotes : Tree → Value → Prop) (member : Quoted × Tree) (entry : Value × Value) : Prop :=
  ∃ name, member.1.text? = some name ∧ entry.1 = .text name ∧ denotes member.2 entry.2

-- What a tree stands for when at most `depth` brackets may be open at a time.
def Denotes : Nat → Tree → Value → Prop
  | _, .null, value => value = .null
  | _, .bool held, value => value = .bool held
  | _, .number numeral, value => numeral.value = .ok value
  | _, .string quoted, value => ∃ text, quoted.text? = some text ∧ value = .text text
  | 0, .list _, _ => False
  | 0, .object _, _ => False
  | depth + 1, .list items, value =>
    ∃ values, List.Forall₂ (Denotes depth) items values ∧ value = .list values
  | depth + 1, .object members, value =>
    ∃ entries, List.Forall₂ (Keeps (Denotes depth)) members entries ∧ value = .map entries

-- The entries are kept behind those before them.
def Collects (denotes : Tree → Value → Prop) (entries : List (Value × Value)) (name : String)
    (tree : Tree) (next : List (Value × Value)) : Prop :=
  ∃ value, denotes tree value ∧ next = entries ++ [(.text name, value)]

variable {members : List (Quoted × Tree)} {before : List (Value × Value)} {value : Value}

theorem folds_collects {denotes : Tree → Value → Prop} {result : List (Value × Value)} :
    Folds (OnMember .strict (Collects denotes)) before members result ↔
      ∃ entries, List.Forall₂ (Keeps denotes) members entries ∧ result = before ++ entries := by
  induction members generalizing before with
  | nil =>
    constructor
    · rintro ⟨⟩
      exact ⟨[], .nil, (List.append_nil _).symm⟩
    · rintro ⟨_, ⟨⟩, rfl⟩
      rw [List.append_nil]
      exact .nil _
  | cons member members ih =>
    constructor
    · rintro (_ | ⟨⟨name, hname, value, hvalue, rfl⟩, hmore⟩)
      obtain ⟨entries, hentries, rfl⟩ := ih.1 hmore
      exact ⟨(.text name, value) :: entries, .cons ⟨name, hname, rfl, hvalue⟩ hentries, by simp⟩
    · rintro ⟨_, _ | ⟨⟨name, hname, hkey, hvalue⟩, hentries⟩, rfl⟩
      refine .cons ⟨name, hname, _, hvalue, rfl⟩ (ih.2 ⟨_, hentries, ?_⟩)
      rw [← hkey]
      simp

section Denotes

variable {depth : Nat}

@[simp] theorem denotes_null : Denotes depth .null value ↔ value = .null := by
  cases depth <;> rfl

@[simp] theorem denotes_bool {held : Bool} :
    Denotes depth (.bool held) value ↔ value = .bool held := by
  cases depth <;> rfl

@[simp] theorem denotes_number {numeral : Numeral} :
    Denotes depth (.number numeral) value ↔ numeral.value = .ok value := by
  cases depth <;> rfl

@[simp] theorem denotes_string {quoted : Quoted} : Denotes depth (.string quoted) value ↔
    ∃ text, quoted.text? = some text ∧ value = .text text := by
  cases depth <;> rfl

end Denotes

-- With the brackets that may be open goes the reader for what is inside them.
inductive Inner : Option (Reader Value) → Nat → Prop where
  | none : Inner none 0
  | some {reader : Reader Value} {depth : Nat} :
      Parses reader (Denotes depth) → Inner (some reader) (depth + 1)

variable {inner : Option (Reader Value)} {depth : Nat}

theorem keep_sound {reader : Reader Value} (h : Parses reader (Denotes depth))
    {entries : List (Value × Value)} {name : String} {update : Reader (List (Value × Value))}
    (hknown : keep reader entries name = .ok update) :
    Sound update (Collects (Denotes depth) entries name) := by
  cases hknown
  intro text next rest hrun
  obtain ⟨tree, body, hblanks, htells, value, hvalue, rfl⟩ := (h.map _).sound hrun
  exact ⟨tree, body, hblanks, htells, value, hvalue, rfl⟩

theorem keep_complete {reader : Reader Value} (h : Parses reader (Denotes depth)) {length : Nat}
    {entries next : List (Value × Value)} {name : String} {tree : Tree}
    (heffect : Collects (Denotes depth) entries name tree next) :
    ∃ update, keep reader entries name = .ok update ∧ Accepts update length tree next := by
  obtain ⟨value, hvalue, rfl⟩ := heffect
  exact ⟨_, rfl, (h.map _).complete ⟨value, hvalue, rfl⟩ length⟩

theorem valueBody_sound (hinner : Inner inner depth)
    (h : valueBody inner text = .ok (value, rest)) :
    ∃ tree, Tells tree text rest ∧ Denotes depth tree value := by
  unfold valueBody at h
  split at h
  · cases h
  · cases hinner with
    | none => cases h
    | some hreader =>
        obtain ⟨values, hvalues, rfl⟩ := Step.map_eq_ok.1 h
        obtain ⟨items, hitems, hall⟩ := listBody_sound hreader.sound hvalues
        exact ⟨.list items, .list hitems, values, hall, rfl⟩
  · cases hinner with
    | none => cases h
    | some hreader =>
        obtain ⟨entries, hentries, rfl⟩ := Step.map_eq_ok.1 h
        obtain ⟨members, hmembers, hfolds⟩ := objectBody_sound _ (keep_sound hreader) hentries
        obtain ⟨entries, hall, rfl⟩ := folds_collects.1 hfolds
        exact ⟨.object members, .object hmembers, entries, hall, rfl⟩
  · obtain ⟨text, htext, rfl⟩ := Step.map_eq_ok.1 h
    obtain ⟨quoted, rfl, hread⟩ := textValue_sound htext
    exact ⟨.string quoted, .string quoted rest, denotes_string.2 ⟨text, hread, rfl⟩⟩
  · obtain ⟨rfl, rfl⟩ := scalar_sound h
    exact ⟨.null, .null rest, denotes_null.2 rfl⟩
  · obtain ⟨rfl, rfl⟩ := scalar_sound h
    exact ⟨.bool true, .yes rest, denotes_bool.2 rfl⟩
  · obtain ⟨rfl, rfl⟩ := scalar_sound h
    exact ⟨.bool false, .no rest, denotes_bool.2 rfl⟩
  · split at h
    · obtain ⟨numeral, htext, hvalue⟩ := number_sound h
      exact ⟨.number numeral, .number htext, denotes_number.2 hvalue⟩
    · cases h

theorem valueBody_complete (hinner : Inner inner depth) (hmeans : Denotes depth tree value)
    (htells : Tells tree text rest) (hends : Ends rest) :
    valueBody inner text = .ok (value, rest) := by
  cases htells with
  | null =>
      cases denotes_null.1 hmeans
      rfl
  | yes =>
      cases denotes_bool.1 hmeans
      rfl
  | no =>
      cases denotes_bool.1 hmeans
      rfl
  | number htext =>
      have hread := number_complete htext hends (denotes_number.1 hmeans)
      unfold valueBody
      split
      case h_8 c tail _ _ _ _ _ _ =>
        have htest : (decide (c = '-') || isDigit c) = true := by simpa using htext.starts
        rw [if_pos htest, hread]
      case h_1 =>
        obtain ⟨_, _, hnil, -⟩ := htext.head
        cases hnil
      all_goals exact absurd htext.starts (by decide)
  | string quoted =>
      obtain ⟨text, hread, rfl⟩ := denotes_string.1 hmeans
      rw [valueBody, textValue_complete hread]
      rfl
  | list hitems =>
      cases hinner with
      | none => cases hmeans
      | some hreader =>
          obtain ⟨values, hall, rfl⟩ := hmeans
          have hread := listBody_complete hitems
            (hall.imp fun tree value hone => hreader.complete hone _) (Nat.le_refl _)
          rw [valueBody, hread]
          rfl
  | object hmembers =>
      cases hinner with
      | none => cases hmeans
      | some hreader =>
          obtain ⟨entries, hall, rfl⟩ := hmeans
          have hfolds : Folds (OnMember .strict (Collects _)) [] _ entries :=
            folds_collects.2 ⟨entries, hall, rfl⟩
          have hread :=
            objectBody_complete hmembers hfolds (keep_complete hreader) (Nat.le_refl _)
          exact congrArg (Step.map · Value.map) hread

theorem parses_value (depth : Nat) : Parses (Reader.value depth) (Denotes depth) := by
  induction depth with
  | zero => exact parses_ofBody (fun _ => valueBody_sound .none) (valueBody_complete .none)
  | succ depth ih =>
      exact parses_ofBody (fun _ => valueBody_sound (.some ih)) (valueBody_complete (.some ih))

end Value

section Skip

-- Any value will do.
def Skips (_ : Unit) (_ : String) (_ : Tree) (_ : Unit) : Prop := True

-- Nor do the keys have to say anything.
theorem folds_skips (members : List (Quoted × Tree)) :
    Folds (OnMember .skipping Skips) () members () := by
  induction members with
  | nil => exact .nil ()
  | cons member members ih =>
      obtain ⟨name, hname⟩ := member.1.exists_read_skipping
      exact .cons ⟨name, hname, trivial⟩ ih

theorem skipNumber_sound (h : skipNumber text = .ok ((), rest)) :
    ∃ numeral, NumeralText numeral text rest := by
  unfold skipNumber at h
  split at h
  · cases h
  · cases h
    exact ⟨_, numeral_sound ‹_›⟩

theorem skipBody_sound {inner : Option (Reader Unit)}
    (hinner : ∀ reader ∈ inner, Sound reader fun _ _ => True)
    (h : skipBody inner text = .ok ((), rest)) : ∃ tree, Tells tree text rest := by
  unfold skipBody at h
  split at h
  · cases h
  · split at h
    · cases h
    · obtain ⟨_, hitems, -⟩ := Step.map_eq_ok.1 h
      obtain ⟨items, hitems, -⟩ := listBody_sound (hinner _ rfl) hitems
      exact ⟨.list items, .list hitems⟩
  · split at h
    · cases h
    · rename_i reader
      have hmember {state : Unit} {name : String} {known : Reader Unit}
          (hknown : (.ok reader : Except Wire.Problem (Reader Unit)) = .ok known) :
          Sound known (Skips state name) := by
        cases hknown
        exact hinner _ rfl
      obtain ⟨members, hmembers, -⟩ := objectBody_sound Skips hmember h
      exact ⟨.object members, .object hmembers⟩
  · obtain ⟨_, htext, -⟩ := Step.map_eq_ok.1 h
    obtain ⟨quoted, rfl, -⟩ := exists_quoted htext
    exact ⟨.string quoted, .string quoted rest⟩
  · rw [word_rest h]
    exact ⟨.null, .null rest⟩
  · rw [word_rest h]
    exact ⟨.bool true, .yes rest⟩
  · rw [word_rest h]
    exact ⟨.bool false, .no rest⟩
  · obtain ⟨numeral, htext⟩ := skipNumber_sound h
    exact ⟨.number numeral, .number htext⟩

theorem skipBody_complete {inner : Reader Unit} {length : Nat}
    (hinner : ∀ tree, Accepts inner length tree ()) (hlength : text.length ≤ length + 1)
    (htells : Tells tree text rest) (hends : Ends rest) :
    skipBody (some inner) text = .ok ((), rest) := by
  cases htells with
  | null => rfl
  | yes => rfl
  | no => rfl
  | @number numeral _ _ htext =>
      have hread : skipNumber text = .ok ((), rest) := by
        rw [skipNumber, numeral_complete htext hends]
      unfold skipBody
      split
      case h_8 => exact hread
      case h_1 =>
        obtain ⟨_, _, hnil, -⟩ := htext.head
        cases hnil
      all_goals exact absurd htext.starts (by decide)
  | string quoted =>
      obtain ⟨chars, hread⟩ := textBody_skipping quoted.grammatical rest
      rw [skipBody, hread]
      rfl
  | @list items inside _ hitems =>
      have hall : List.Forall₂ (Accepts inner length) items (items.map fun _ => ()) := by
        rw [List.forall₂_map_right_iff, List.forall₂_same]
        exact fun item _ => hinner item
      have hread := listBody_complete hitems hall (Nat.le_of_succ_le_succ hlength)
      rw [skipBody, hread]
      rfl
  | @object members inside _ hmembers =>
      have hmember {state next : Unit} {name : String} {tree : Tree}
          (_ : Skips state name tree next) :
          ∃ reader, (.ok inner : Except Wire.Problem (Reader Unit)) = .ok reader ∧
            Accepts reader length tree next :=
        ⟨inner, rfl, hinner tree⟩
      exact objectBody_complete hmembers (folds_skips members) hmember
        (Nat.le_of_succ_le_succ hlength)

theorem sound_skipNested (depth : Nat) : Sound (skipNested depth) fun _ _ => True := by
  induction depth with
  | zero =>
      refine sound_ofBody fun _ h => ?_
      obtain ⟨tree, htells⟩ := skipBody_sound (by simp) h
      exact ⟨tree, htells, trivial⟩
  | succ depth ih =>
      refine sound_ofBody fun _ h => ?_
      obtain ⟨tree, htells⟩ := skipBody_sound (fun _ hm => Option.some.inj hm ▸ ih) h
      exact ⟨tree, htells, trivial⟩

-- No text nests deeper than it is long.
theorem accepts_skipNested (length : Nat) (tree : Tree) :
    Accepts (skipNested length) length tree () := by
  induction length generalizing tree with
  | zero =>
      refine accepts_ofBody fun hlength htells _ => ?_
      obtain ⟨_, _, rfl, -⟩ := htells.head
      cases hlength
  | succ length ih => exact accepts_ofBody fun hlength => skipBody_complete ih hlength

theorem parses_skip : Parses Reader.skip fun _ _ => True where
  sound _ _ _ h := sound_skipNested _ h
  complete := by
    intro tree _ _ _ text body rest _
    exact accepts_skipNested text.length tree (Nat.le_refl _)

end Skip

end LiveReload.Json
