import LiveReload.Proofs.Json.Printed
import LiveReload.Proofs.Json.Readers
import LiveReload.Proofs.Json.Unambiguous

namespace LiveReload.Json

open Wire (Problem)

variable {ε α σ : Type}

-- The whole text tells the tree, with blanks around it.
def IsTextOf (text : String) (tree : Tree) : Prop :=
  ∃ body rest, Blanks text.toList body ∧ Tells tree body rest ∧ Blanks rest []

def opensObject (text : String) : Prop := (dropBlank text.toList).head? = some '\x7b'

-- The members in another order, without some that are not declared, and with others of that sort
-- among them. Some members may change inside.
inductive Rearranged (declared : String → Prop) (insertable : Tree → Prop)
    (change : Quoted × Tree → Quoted × Tree → Prop) :
    List (Quoted × Tree) → List (Quoted × Tree) → Prop where
  | permute {members others : List (Quoted × Tree)} : members.Perm others →
      Rearranged declared insertable change members others
  | insert {before after : List (Quoted × Tree)} {key : Quoted} {name : String} {value : Tree} :
      key.text? = some name → ¬declared name → insertable value →
        Rearranged declared insertable change (before ++ after) (before ++ (key, value) :: after)
  | delete {before after : List (Quoted × Tree)} {key : Quoted} {name : String} {value : Tree} :
      key.text? = some name → ¬declared name →
        Rearranged declared insertable change (before ++ (key, value) :: after) (before ++ after)
  | within {before after : List (Quoted × Tree)} {member other : Quoted × Tree} :
      change member other →
        Rearranged declared insertable change (before ++ member :: after) (before ++ other :: after)
  | trans {members middle others : List (Quoted × Tree)} :
      Rearranged declared insertable change members middle →
        Rearranged declared insertable change middle others →
          Rearranged declared insertable change members others

-- The last member is as good as any, since the order makes no difference.
theorem Rearranged.preserves {declared : String → Prop} {insertable : Tree → Prop}
    {change : Quoted × Tree → Quoted × Tree → Prop} {motive : List (Quoted × Tree) → Prop}
    (permute : ∀ {members others}, members.Perm others → motive members → motive others)
    (insert : ∀ {members key name value}, key.text? = some name → ¬declared name →
      insertable value → motive members → motive (members ++ [(key, value)]))
    (delete : ∀ {members key name value}, key.text? = some name → ¬declared name →
      motive (members ++ [(key, value)]) → motive members)
    (within : ∀ {members member other}, change member other →
      motive (members ++ [member]) → motive (members ++ [other]))
    {members others : List (Quoted × Tree)}
    (h : Rearranged declared insertable change members others) (hm : motive members) :
    motive others := by
  have last (before : List (Quoted × Tree)) (member : Quoted × Tree)
      (after : List (Quoted × Tree)) :
      (before ++ member :: after).Perm (before ++ after ++ [member]) :=
    List.perm_middle.trans (List.perm_append_singleton _ _).symm
  induction h with
  | permute hperm => exact permute hperm hm
  | insert hname hdeclared hvalue =>
      exact permute (last ..).symm (insert hname hdeclared hvalue hm)
  | delete hname hdeclared => exact delete hname hdeclared (permute (last ..) hm)
  | within hchange => exact permute (last ..).symm (within hchange (permute (last ..) hm))
  | trans _ _ ih ih' => exact ih' (ih hm)

def timesNamed (name : String) (members : List (Quoted × Tree)) : Nat :=
  members.countP fun member => member.1.text? = some name

-- What is loaded depends neither on the arrangement of the members nor on the blanks. Which members
-- are declared may depend on what the text turns out to be.
structure Indifferent (load : String → Except ε α) (declared : α → String → Prop)
    (insertable : Tree → Prop) (change : Quoted × Tree → Quoted × Tree → Prop) : Prop where
  members : ∀ {text value}, load text = .ok value → opensObject text →
    ∃ members, IsTextOf text (.object members)
  rearranged : ∀ {text other members others value}, load text = .ok value →
    IsTextOf text (.object members) → IsTextOf other (.object others) →
      Rearranged (declared value) insertable change members others → load other = .ok value
  once : ∀ {text members value name}, load text = .ok value → IsTextOf text (.object members) →
    declared value name → timesNamed name members ≤ 1

theorem Indifferent.restrict {ε' : Type} {load : String → Except ε α}
    {load' : String → Except ε' α} {declared : α → String → Prop} {insertable : Tree → Prop}
    {change : Quoted × Tree → Quoted × Tree → Prop} {valid : α → Prop}
    (h : Indifferent load declared insertable change)
    (hload : ∀ {text value}, load' text = .ok value ↔ load text = .ok value ∧ valid value) :
    Indifferent load' declared insertable change where
  members h' := h.members (hload.1 h').1
  rearranged h' htext hother hre :=
    hload.2 ⟨h.rearranged (hload.1 h').1 htext hother hre, (hload.1 h').2⟩
  once h' := h.once (hload.1 h').1

section Loading

-- Loading an object text amounts to `loads` for its members.
structure Follows (load : String → Except ε α) (loads : List (Quoted × Tree) → α → Prop) :
    Prop where
  members : ∀ {text value}, load text = .ok value → opensObject text →
    ∃ members, IsTextOf text (.object members)
  iff : ∀ {text members value}, IsTextOf text (.object members) →
    (load text = .ok value ↔ loads members value)

theorem Follows.indifferent {load : String → Except ε α}
    {loads : List (Quoted × Tree) → α → Prop} (h : Follows load loads)
    {declared : α → String → Prop} {insertable : Tree → Prop}
    {change : Quoted × Tree → Quoted × Tree → Prop}
    (rearranged : ∀ {members others value},
      Rearranged (declared value) insertable change members others → loads members value →
        loads others value)
    (once : ∀ {members value name}, loads members value → declared value name →
      timesNamed name members ≤ 1) : Indifferent load declared insertable change where
  members := h.members
  rearranged hload htext hother hre := (h.iff hother).2 (rearranged hre ((h.iff htext).1 hload))
  once hload htext hname := once ((h.iff htext).1 hload) hname

variable {reader : Reader α} {text : String} {value : α}

theorem readAll_eq_ok_iff : reader.readAll text = .ok value ↔
    ∃ rest, reader.run text.toList = .ok (value, rest) ∧ Blanks rest [] := by
  have hempty (rest : List Char) : (dropBlank rest).isEmpty = true ↔ Blanks rest [] := by
    rw [List.isEmpty_iff]
    exact ⟨fun h => h ▸ blanks_dropBlank rest, fun h => h.dropBlank_eq⟩
  unfold Reader.readAll
  split
  · rename_i hrun
    simp [hrun]
  · rename_i found rest hrun
    simp only [hrun, Except.ok.injEq, Prod.mk.injEq]
    split
    · rename_i hrest
      simp [← hempty, hrest]
    · rename_i hrest
      simp [← hempty, hrest]

theorem follows_objectBody {member : Member σ} {start : σ} {finish : σ → Except Problem α}
    {effect : σ → String → Tree → σ → Prop}
    (hbody : ∀ {text inside}, dropBlank text = '\x7b' :: inside → ∀ {value rest},
      reader.run text = .ok (value, rest) ↔
        ∃ state, objectBody .strict member start true inside = .ok (state, rest) ∧
          finish state = .ok value)
    (hsound : ∀ {state name reader}, member state name = .ok reader →
      Sound reader (effect state name))
    (hcomplete : ∀ {state name tree next}, effect state name tree next →
      ∃ reader, member state name = .ok reader ∧ ∀ length, Accepts reader length tree next) :
    Follows reader.readAll fun members value =>
      ∃ state, Folds (OnMember .strict effect) start members state ∧ finish state = .ok value where
  members := by
    intro text value hload hopens
    obtain ⟨inside, hinside⟩ := List.head?_eq_some_iff.1 hopens
    obtain ⟨rest, hrun, hrest⟩ := readAll_eq_ok_iff.1 hload
    obtain ⟨state, hobject, -⟩ := (hbody hinside).1 hrun
    obtain ⟨members, hmembers, -⟩ := objectBody_sound effect hsound hobject
    have hb := blanks_dropBlank text.toList
    rw [hinside] at hb
    exact ⟨members, _, rest, hb, .object hmembers, hrest⟩
  iff := by
    rintro text members value ⟨_, rest, hb, ht, hrest⟩
    have hdrop := ht.dropBlank_eq hb
    cases ht with
    | object hmembers =>
        rw [readAll_eq_ok_iff]
        constructor
        · rintro ⟨rest', hrun, -⟩
          obtain ⟨state, hobject, hfinish⟩ := (hbody hdrop).1 hrun
          obtain ⟨members', hmembers', hfolds⟩ := objectBody_sound effect hsound hobject
          obtain ⟨rfl, -⟩ := hmembers.unique (fun member _ => unambiguous member.2) hmembers'
          exact ⟨state, hfolds, hfinish⟩
        · rintro ⟨state, hfolds, hfinish⟩
          have hobject := objectBody_complete hmembers hfolds (fun heffect => by
            obtain ⟨reader, hknown, haccepts⟩ := hcomplete heffect
            exact ⟨reader, hknown, haccepts _⟩) (Nat.le_refl _)
          exact ⟨rest, (hbody hdrop).2 ⟨state, hobject, hfinish⟩, hrest⟩

end Loading

section Print

-- The text tells the tree, whatever follows.
def Prints (text : List Char) (tree : Tree) : Prop := ∀ rest, Tells tree (text ++ rest) rest

-- The key has no escapes that it can do without.
def PrintsMember (field : String × List Char) (member : Quoted × Tree) : Prop :=
  member.1 = .ofText field.1 ∧ Prints field.2 member.2

variable {texts : List (List Char)} {items : List Tree} {fields : List (String × List Char)}
  {members : List (Quoted × Tree)}

theorem Prints.isTextOf {text : List Char} {tree : Tree} (h : Prints text tree) :
    IsTextOf (.ofList text) tree := by
  refine ⟨text, [], ?_, ?_, .here []⟩
  · rw [String.toList_ofList]
    exact .here text
  · simpa using h []

theorem prints_text (text : String) : Prints (printText text) (.string (.ofText text)) := by
  intro rest
  rw [printText_append]
  exact .string (.ofText text) rest

theorem printsMember_text (key text : String) :
    PrintsMember (key, printText text) (.ofText key, .string (.ofText text)) :=
  ⟨rfl, prints_text text⟩

theorem listText_flatMap (h : List.Forall₂ Prints texts items) (rest : List Char) :
    ListText Tells false items (texts.flatMap (',' :: ·) ++ ']' :: rest) rest := by
  induction h with
  | nil => exact .close (.here _)
  | cons hone _ ih =>
      rw [List.flatMap_cons, List.append_assoc]
      exact .item (.comma (.here _)) (.here _) (hone _) ih

theorem prints_list (h : List.Forall₂ Prints texts items) :
    Prints (printList texts) (.list items) := by
  intro rest
  have hlist : printList texts ++ rest = '[' :: (separated texts ++ ']' :: rest) := by
    simp [printList]
  rw [hlist]
  cases h with
  | nil => exact .list (.close (.here _))
  | cons hone h =>
      rw [separated_cons, List.append_assoc]
      exact .list (.item (.first _) (.here _) (hone _) (listText_flatMap h rest))

theorem PrintsMember.objectText {field : String × List Char} {member : Quoted × Tree}
    {first : Bool} {text behind rest : List Char} (h : PrintsMember field member)
    (hlead : Lead first text (printMember field ++ behind))
    (hmore : ObjectText Tells false members behind rest) :
    ObjectText Tells first (member :: members) text rest := by
  obtain ⟨key, value⟩ := member
  obtain ⟨rfl, hvalue⟩ := h
  rw [printMember_append] at hlead
  exact .member hlead (.here _) (.here _) (.here _) (hvalue _) hmore

theorem objectText_flatMap (h : List.Forall₂ PrintsMember fields members) (rest : List Char) :
    ObjectText Tells false members
      ((fields.map printMember).flatMap (',' :: ·) ++ '\x7d' :: rest) rest := by
  induction h with
  | nil => exact .close (.here _)
  | cons hone _ ih =>
      rw [List.map_cons, List.flatMap_cons, List.append_assoc]
      exact hone.objectText (.comma (.here _)) ih

theorem prints_object (h : List.Forall₂ PrintsMember fields members) :
    Prints (printObject fields) (.object members) := by
  intro rest
  rw [printObject_append]
  cases h with
  | nil => exact .object (.close (.here _))
  | cons hone h =>
      rw [List.map_cons, separated_cons, List.append_assoc]
      exact .object (hone.objectText (.first _) (objectText_flatMap h rest))

end Print

end LiveReload.Json
