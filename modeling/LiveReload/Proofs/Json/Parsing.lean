import LiveReload.Json.Collection
import LiveReload.Proofs.Json.Lexeme
import LiveReload.Proofs.Json.Printed
import LiveReload.Proofs.Record

namespace LiveReload.Json

variable {α β σ : Type} {text body rest behind : List Char} {tree : Tree} {first : Bool}

section Blanks

theorem blanks_dropBlank (text : List Char) : Blanks text (dropBlank text) := by
  induction text with
  | nil => exact .here _
  | cons c text ih =>
      cases hc : isBlank c with
      | false =>
          rw [dropBlank_cons hc]
          exact .here _
      | true =>
          have hdrop : dropBlank (c :: text) = dropBlank text := List.dropWhile_cons_of_pos hc
          rw [hdrop]
          exact .blank hc ih

namespace Blanks

theorem trans (h : Blanks text body) (hmore : Blanks body rest) : Blanks text rest := by
  induction h with
  | here => exact hmore
  | blank hc _ ih => exact .blank hc (ih hmore)

theorem length_le (h : Blanks text rest) : rest.length ≤ text.length := by
  induction h with
  | here => exact Nat.le_refl _
  | blank _ _ ih =>
      rw [List.length_cons]
      omega

theorem dropBlank_eq (h : Blanks text rest) : dropBlank text = dropBlank rest := by
  induction h with
  | here => rfl
  | blank hc _ ih => exact (List.dropWhile_cons_of_pos hc).trans ih

theorem dropBlank_eq_cons {c : Char} (h : Blanks text (c :: rest)) (hc : isBlank c = false) :
    dropBlank text = c :: rest :=
  h.dropBlank_eq.trans (dropBlank_cons hc rest)

end Blanks

end Blanks

section Ends

theorem isDigit_eq_false_of_isBlank {c : Char} (h : isBlank c = true) :
    isDigit c = false ∧ c ≠ '.' ∧ c ≠ 'e' ∧ c ≠ 'E' := by
  simp only [isBlank, Bool.or_eq_true, decide_eq_true_eq] at h
  rcases h with ((rfl | rfl) | rfl) | rfl <;> decide

theorem Blanks.ends (h : Blanks text rest) (hrest : Ends rest) : Ends text := by
  cases h with
  | here => exact hrest
  | blank hc _ =>
      intro c hmem
      cases hmem
      exact isDigit_eq_false_of_isBlank hc

theorem ends_cons {c : Char} (h : c = ',' ∨ c = ']' ∨ c = '\x7d') (rest : List Char) :
    Ends (c :: rest) := by
  intro c' hmem
  cases hmem
  rcases h with rfl | rfl | rfl <;> decide

theorem ListText.ends {tells : Tree → List Char → List Char → Prop} {items : List Tree}
    (h : ListText tells false items text rest) : Ends text := by
  cases h with
  | close hclose => exact hclose.ends (ends_cons (.inr (.inl rfl)) _)
  | item hlead =>
      cases hlead with
      | comma hcomma => exact hcomma.ends (ends_cons (.inl rfl) _)

theorem ObjectText.ends {tells : Tree → List Char → List Char → Prop}
    {members : List (Quoted × Tree)} (h : ObjectText tells false members text rest) :
    Ends text := by
  cases h with
  | close hclose => exact hclose.ends (ends_cons (.inr (.inr rfl)) _)
  | member hlead =>
      cases hlead with
      | comma hcomma => exact hcomma.ends (ends_cons (.inl rfl) _)

end Ends

section Head

theorem isBlank_eq_false_of_isDigit {c : Char} (h : isDigit c = true) :
    isBlank c = false ∧ c ≠ ']' := by
  constructor
  · by_contra hblank
    rw [Bool.not_eq_false] at hblank
    rw [(isDigit_eq_false_of_isBlank hblank).1] at h
    cases h
  · rintro rfl
    exact absurd h (by decide)

theorem NumeralText.head {numeral : Numeral} (h : NumeralText numeral text rest) :
    ∃ c tail, text = c :: tail ∧ (c = '-' ∨ isDigit c = true) := by
  cases h with
  | unsigned _ htext =>
      obtain ⟨c, tail, rfl, hc⟩ := htext.head
      exact ⟨c, tail, rfl, .inr hc⟩
  | signed => exact ⟨'-', _, rfl, .inl rfl⟩

theorem NumeralText.starts {numeral : Numeral} {c : Char}
    (h : NumeralText numeral (c :: text) rest) : c = '-' ∨ isDigit c = true := by
  obtain ⟨_, _, he, hc⟩ := h.head
  cases he
  exact hc

theorem Tells.head (h : Tells tree text rest) :
    ∃ c tail, text = c :: tail ∧ isBlank c = false ∧ c ≠ ']' := by
  cases h with
  | number hn =>
      obtain ⟨c, tail, rfl, hc⟩ := hn.head
      rcases hc with rfl | hc
      · exact ⟨'-', tail, rfl, rfl, by decide⟩
      · exact ⟨c, tail, rfl, isBlank_eq_false_of_isDigit hc⟩
  | _ => exact ⟨_, _, rfl, rfl, by decide⟩

theorem Tells.dropBlank_eq (h : Tells tree body rest) (hb : Blanks text body) :
    dropBlank text = body := by
  obtain ⟨c, tail, rfl, hc, -⟩ := h.head
  exact hb.dropBlank_eq_cons hc

end Head

section Parses

-- What the reader takes are trees, each for what it means.
def Sound (reader : Reader α) (means : Tree → α → Prop) : Prop :=
  ∀ ⦃text value rest⦄, reader.run text = .ok (value, rest) →
    ∃ tree body, Blanks text body ∧ Tells tree body rest ∧ means tree value

-- In texts of at most `length` characters that tell the tree, the reader takes it for the value.
def Accepts (reader : Reader α) (length : Nat) (tree : Tree) (value : α) : Prop :=
  ∀ ⦃text body rest⦄, text.length ≤ length → Blanks text body → Tells tree body rest → Ends rest →
    reader.run text = .ok (value, rest)

structure Parses (reader : Reader α) (means : Tree → α → Prop) : Prop where
  sound : Sound reader means
  complete : ∀ {tree value}, means tree value → ∀ length, Accepts reader length tree value

section Body

variable {bodyOf : List Char → Step α}
  {progress : ∀ {text value rest}, bodyOf (dropBlank text) = .ok (value, rest) →
    rest.length < (dropBlank text).length}
  {means : Tree → α → Prop}

theorem sound_ofBody (h : ∀ {text value rest}, dropBlank text = text →
    bodyOf text = .ok (value, rest) → ∃ tree, Tells tree text rest ∧ means tree value) :
    Sound (.ofBody bodyOf @progress) means := by
  intro text value rest hrun
  obtain ⟨tree, htells, hmeans⟩ := h (dropBlank_idem text) hrun
  exact ⟨tree, _, blanks_dropBlank text, htells, hmeans⟩

theorem accepts_ofBody {length : Nat} {value : α}
    (h : ∀ {text rest}, text.length ≤ length → Tells tree text rest → Ends rest →
      bodyOf text = .ok (value, rest)) : Accepts (.ofBody bodyOf @progress) length tree value := by
  intro text start rest hlength hblanks htells hends
  change bodyOf (dropBlank text) = _
  rw [htells.dropBlank_eq hblanks]
  exact h (Nat.le_trans hblanks.length_le hlength) htells hends

theorem parses_ofBody
    (sound : ∀ {text value rest}, dropBlank text = text → bodyOf text = .ok (value, rest) →
      ∃ tree, Tells tree text rest ∧ means tree value)
    (complete : ∀ {tree value text rest}, means tree value → Tells tree text rest → Ends rest →
      bodyOf text = .ok (value, rest)) : Parses (.ofBody bodyOf @progress) means where
  sound := sound_ofBody sound
  complete hmeans _ := accepts_ofBody fun _ => complete hmeans

end Body

theorem Parses.map {reader : Reader α} {means : Tree → α → Prop} (h : Parses reader means)
    (f : α → β) :
    Parses (reader.map f) fun tree result => ∃ value, means tree value ∧ f value = result where
  sound := by
    intro text result rest hrun
    obtain ⟨value, hvalue, hf⟩ := Step.map_eq_ok.1 hrun
    obtain ⟨tree, body, hblanks, htells, hmeans⟩ := h.sound hvalue
    exact ⟨tree, body, hblanks, htells, value, hmeans, hf⟩
  complete := by
    rintro tree _ ⟨value, hmeans, rfl⟩ length text body rest hlength hblanks htells hends
    exact Step.map_eq_ok.2 ⟨value, h.complete hmeans length hlength hblanks htells hends, rfl⟩

end Parses

section List

theorem nextItem_close_sound (h : nextItem first text = .ok (.close rest)) :
    Blanks text (']' :: rest) := by
  have hb := blanks_dropBlank text
  unfold nextItem at h
  split at h
  · cases h
  · rename_i c tail he
    rw [he] at hb
    split at h
    · subst c
      cases h
      exact hb
    · split at h
      · cases h
      · split at h <;> cases h

theorem nextItem_item_sound (h : nextItem first text = .ok (.item rest)) :
    ∃ start, Lead first text start ∧ Blanks start rest := by
  have hb := blanks_dropBlank text
  unfold nextItem at h
  split at h
  · cases h
  · rename_i c tail he
    rw [he] at hb
    split at h
    · cases h
    · split at h
      · rename_i hfirst
        cases h
        rw [hfirst]
        exact ⟨text, .first text, hb⟩
      · rename_i hfirst
        split at h
        · subst c
          cases h
          rw [Bool.not_eq_true] at hfirst
          rw [hfirst]
          exact ⟨_, .comma hb, .here _⟩
        · cases h

theorem nextItem_of_close (h : Blanks text (']' :: rest)) :
    nextItem first text = .ok (.close rest) := by
  rw [nextItem, h.dropBlank_eq_cons rfl]
  rfl

theorem nextItem_of_lead {start : List Char} (hlead : Lead first text start)
    (hb : Blanks start body) (ht : Tells tree body behind) :
    ∃ tail, nextItem first text = .ok (.item tail) ∧ Blanks tail body ∧
      tail.length ≤ text.length := by
  obtain ⟨c, inside, hbody, hc, hbracket⟩ := ht.head
  cases hlead with
  | first =>
      refine ⟨body, ?_, .here _, hb.length_le⟩
      subst hbody
      rw [nextItem, hb.dropBlank_eq_cons hc]
      simp [hbracket]
  | comma hcomma =>
      refine ⟨start, ?_, hb, ?_⟩
      · rw [nextItem, hcomma.dropBlank_eq_cons rfl]
        rfl
      · have := hcomma.length_le
        rw [List.length_cons] at this
        omega

variable {item : Reader α} {items : List Tree} {values : List α}

theorem listBody_sound {means : Tree → α → Prop} (hitem : Sound item means)
    (h : listBody item first text = .ok (values, rest)) :
    ∃ items, ListText Tells first items text rest ∧ List.Forall₂ means items values := by
  fun_induction listBody item first text generalizing values rest with
  | case1 => cases h
  | case2 first text rest' hn =>
      cases h
      exact ⟨[], .close (nextItem_close_sound hn), .nil⟩
  | case3 => cases h
  | case4 first text text' hn value rest' hi ih =>
      obtain ⟨values, hl, rfl⟩ := Step.map_eq_ok.1 h
      obtain ⟨start, hlead, hstart⟩ := nextItem_item_sound hn
      obtain ⟨tree, body, hblanks, htells, hmeans⟩ := hitem hi
      obtain ⟨items, hitems, hall⟩ := ih hl
      exact ⟨tree :: items, .item hlead (hstart.trans hblanks) htells hitems, .cons hmeans hall⟩

theorem listBody_complete {length : Nat} (h : ListText Tells first items text rest)
    (hall : List.Forall₂ (Accepts item length) items values) (hlength : text.length ≤ length) :
    listBody item first text = .ok (values, rest) := by
  induction h generalizing values with
  | close hclose =>
      cases hall
      exact listBody_close (nextItem_of_close hclose)
  | item hlead hblanks htells hmore ih =>
      cases hall with
      | cons hone hall =>
          obtain ⟨tail, hnext, htail, hle⟩ := nextItem_of_lead hlead hblanks htells
          have hrun := hone (Nat.le_trans hle hlength) htail htells hmore.ends
          have hshorter := item.shorter hrun
          rw [listBody_item hnext hrun, ih hall (by omega)]
          rfl

end List

section Object

theorem openKey_sound (h : openKey text = .ok (.item rest)) : text = '"' :: rest := by
  unfold openKey at h
  split at h
  · cases h
    rfl
  · cases h

theorem nextKey_close_sound (h : nextKey first text = .ok (.close rest)) :
    Blanks text ('\x7d' :: rest) := by
  have hb := blanks_dropBlank text
  unfold nextKey at h
  split at h
  · cases h
  · rename_i c tail he
    rw [he] at hb
    split at h
    · subst c
      cases h
      exact hb
    · split at h
      · exact absurd h openKey_ne_close
      · split at h
        · exact absurd h openKey_ne_close
        · cases h

theorem nextKey_item_sound (h : nextKey first text = .ok (.item rest)) :
    ∃ start, Lead first text start ∧ Blanks start ('"' :: rest) := by
  have hb := blanks_dropBlank text
  unfold nextKey at h
  split at h
  · cases h
  · rename_i c tail he
    rw [he] at hb
    split at h
    · cases h
    · split at h
      · rename_i hfirst
        rw [openKey_sound h] at hb
        rw [hfirst]
        exact ⟨text, .first text, hb⟩
      · rename_i hfirst
        split at h
        · subst c
          have hkey := blanks_dropBlank tail
          rw [openKey_sound h] at hkey
          rw [Bool.not_eq_true] at hfirst
          rw [hfirst]
          exact ⟨tail, .comma hb, hkey⟩
        · cases h

theorem nextKey_of_close (h : Blanks text ('\x7d' :: rest)) :
    nextKey first text = .ok (.close rest) := by
  rw [nextKey, h.dropBlank_eq_cons rfl]
  rfl

theorem nextKey_of_lead {start : List Char} (hlead : Lead first text start)
    (hb : Blanks start ('"' :: rest)) : nextKey first text = .ok (.item rest) := by
  cases hlead with
  | first =>
      rw [nextKey, hb.dropBlank_eq_cons rfl]
      rfl
  | comma hcomma =>
      rw [nextKey, hcomma.dropBlank_eq_cons rfl]
      change openKey (dropBlank start) = _
      rw [hb.dropBlank_eq_cons rfl]
      rfl

theorem colon_sound (h : colon text = .ok ((), rest)) : Blanks text (':' :: rest) := by
  have hb := blanks_dropBlank text
  rw [word_rest h] at hb
  exact hb

theorem colon_complete (h : Blanks text (':' :: rest)) : colon text = .ok ((), rest) := by
  rw [colon, h.dropBlank_eq_cons rfl]
  rfl

-- What a member does to what has been read so far. Its key must say something.
def OnMember (reading : Reading) (effect : σ → String → Tree → σ → Prop) (state : σ)
    (member : Quoted × Tree) (next : σ) : Prop :=
  ∃ name, member.1.read reading = some name ∧ effect state name member.2 next

variable {reading : Reading} {member : Member σ} {state next result : σ}
  {members : List (Quoted × Tree)}

theorem objectBody_sound (effect : σ → String → Tree → σ → Prop)
    (hsound : ∀ {state name reader}, member state name = .ok reader →
      Sound reader (effect state name))
    (h : objectBody reading member state first text = .ok (result, rest)) :
    ∃ members, ObjectText Tells first members text rest ∧
      Folds (OnMember reading effect) state members result := by
  fun_induction objectBody reading member state first text generalizing result rest with
  | case1 => cases h
  | case2 _ _ _ _ hn =>
      cases h
      exact ⟨[], .close (nextKey_close_sound hn), .nil _⟩
  | case3 => cases h
  | case4 state _ _ _ hn next _ hm ih =>
      obtain ⟨start, hlead, hstart⟩ := nextKey_item_sound hn
      obtain ⟨chars, afterKey, hk, hafterKey⟩ := Step.andThen_eq_ok.1 hm
      obtain ⟨key, rfl, hread⟩ := exists_quoted hk
      split at hafterKey
      · cases hafterKey
      · rename_i reader hknown
        obtain ⟨_, afterColon, hc, hr⟩ := Step.andThen_eq_ok.1 hafterKey
        obtain ⟨tree, body, hblanks, htells, heffect⟩ := hsound hknown hr
        obtain ⟨members, hmembers, hfolds⟩ := ih h
        exact ⟨(key, tree) :: members,
          .member hlead hstart (colon_sound hc) hblanks htells hmembers,
          .cons ⟨_, hread, heffect⟩ hfolds⟩

theorem objectBody_complete {effect : σ → String → Tree → σ → Prop} {length : Nat}
    (h : ObjectText Tells first members text rest)
    (hfolds : Folds (OnMember reading effect) state members result)
    (hcomplete : ∀ {state name tree next}, effect state name tree next →
      ∃ reader, member state name = .ok reader ∧ Accepts reader length tree next)
    (hlength : text.length ≤ length) :
    objectBody reading member state first text = .ok (result, rest) := by
  induction h generalizing state with
  | close hclose =>
      cases hfolds
      exact objectBody_close (nextKey_of_close hclose)
  | @member first key value members text start colon afterColon body behind rest
      hlead hkey hcolon hblanks htells hmore ih =>
      obtain _ | ⟨⟨name, hread, heffect⟩, hfolds⟩ := hfolds
      obtain ⟨reader, hknown, haccepts⟩ := hcomplete heffect
      have hnext := nextKey_of_lead hlead hkey
      have hname : textBody reading (key.inside ++ '"' :: colon) = .ok (name.toList, colon) :=
        Quoted.textBody_of_read hread colon
      have hafterColon := colon_complete hcolon
      have hkeyLt := nextKey_lt hnext
      have hnameLt := textBody_shorter hname
      have hcolonLe := colon_le hafterColon
      have hrun := haccepts (by omega) hblanks htells hmore.ends
      have hvalueLt := reader.shorter hrun
      rw [objectBody_item hnext]
      · exact ih hfolds (by omega)
      · rw [memberBody, hname]
        simp only [Step.andThen, String.ofList_toList, hknown, hafterColon]
        exact hrun

end Object

end LiveReload.Json
