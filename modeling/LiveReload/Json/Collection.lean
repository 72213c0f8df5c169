import LiveReload.Json.Text

namespace LiveReload.Json

-- Where the next item begins, or what follows the closing bracket.
inductive Place where
  | item (text : List Char)
  | close (rest : List Char)

-- A comma must be followed by another item. This needs no test of its own: no reader takes a
-- closing bracket for an item, and each reports a text that ends too early.
def nextItem (first : Bool) (text : List Char) : Except Fault Place :=
  match dropBlank text with
  | [] => .error .endOfText
  | c :: rest =>
    if c = ']' then .ok (.close rest)
    else if first then .ok (.item (c :: rest))
    else if c = ',' then .ok (.item rest)
    else .error .malformed

def openKey (text : List Char) : Except Fault Place :=
  match text with
  | '"' :: rest => .ok (.item rest)
  | _ => .error (.unexpected text)

-- A member begins inside the quotes of its key.
def nextKey (first : Bool) (text : List Char) : Except Fault Place :=
  match dropBlank text with
  | [] => .error .endOfText
  | c :: rest =>
    if c = '\x7d' then .ok (.close rest)
    else if first then openKey (c :: rest)
    else if c = ',' then openKey (dropBlank rest)
    else .error .malformed

theorem nextItem_le {first : Bool} {text rest : List Char}
    (h : nextItem first text = .ok (.item rest)) : rest.length ≤ text.length := by
  have hb := length_dropBlank_le text
  unfold nextItem at h
  split at h
  · cases h
  · rename_i he
    rw [he, List.length_cons] at hb
    split at h
    · cases h
    · split at h
      · cases h
        exact hb
      · split at h
        · cases h
          omega
        · cases h

theorem nextItem_close_lt {first : Bool} {text rest : List Char}
    (h : nextItem first text = .ok (.close rest)) : rest.length < text.length := by
  have hb := length_dropBlank_le text
  unfold nextItem at h
  split at h
  · cases h
  · rename_i he
    rw [he, List.length_cons] at hb
    split at h
    · cases h
      omega
    · split at h
      · cases h
      · split at h <;> cases h

theorem openKey_lt {text rest : List Char} (h : openKey text = .ok (.item rest)) :
    rest.length < text.length := by
  unfold openKey at h
  split at h
  · cases h
    simp
  · cases h

theorem openKey_ne_close {text rest : List Char} : openKey text ≠ .ok (.close rest) := by
  unfold openKey
  split <;> simp

theorem nextKey_lt {first : Bool} {text rest : List Char}
    (h : nextKey first text = .ok (.item rest)) : rest.length < text.length := by
  have hb := length_dropBlank_le text
  unfold nextKey at h
  split at h
  · cases h
  · rename_i tail he
    rw [he] at hb
    split at h
    · cases h
    · split at h
      · exact Nat.lt_of_lt_of_le (openKey_lt h) hb
      · split at h
        · have := openKey_lt h
          have := length_dropBlank_le tail
          rw [List.length_cons] at hb
          omega
        · cases h

theorem nextKey_close_lt {first : Bool} {text rest : List Char}
    (h : nextKey first text = .ok (.close rest)) : rest.length < text.length := by
  have hb := length_dropBlank_le text
  unfold nextKey at h
  split at h
  · cases h
  · rename_i he
    rw [he, List.length_cons] at hb
    split at h
    · cases h
      omega
    · split at h
      · exact absurd h openKey_ne_close
      · split at h
        · exact absurd h openKey_ne_close
        · cases h

section List

variable {α : Type}

-- From behind the opening bracket to behind the closing one.
def listBody (item : Reader α) (first : Bool) (text : List Char) : Step (List α) :=
  match _h : nextItem first text with
  | .error fault => .error fault
  | .ok (.close rest) => .ok ([], rest)
  | .ok (.item text) =>
    match _h : item.run text with
    | .error fault => .error fault
    | .ok (value, rest) => (listBody item false rest).map (value :: ·)
termination_by text.length
decreasing_by
  have := nextItem_le ‹_›
  have := item.shorter ‹_›
  omega

theorem listBody_shorter {item : Reader α} {first : Bool} {text rest : List Char} {values : List α}
    (h : listBody item first text = .ok (values, rest)) : rest.length < text.length := by
  fun_induction listBody item first text generalizing values rest with
  | case1 => cases h
  | case2 first text rest' hn =>
      cases h
      exact nextItem_close_lt hn
  | case3 => cases h
  | case4 first text text' hn value rest' hi ih =>
      obtain ⟨_, hl, -⟩ := Step.map_eq_ok.1 h
      have := nextItem_le hn
      have := item.shorter hi
      have := ih hl
      omega

end List

section Object

variable {σ : Type}

-- How a member with a given key is read into what has been read so far. A key can be refused before
-- its value is looked at.
abbrev Member (σ : Type) := σ → String → Except Wire.Problem (Reader σ)

def colon (text : List Char) : Step Unit := word [':'] (dropBlank text)

theorem colon_le {text rest : List Char} (h : colon text = .ok ((), rest)) :
    rest.length ≤ text.length := by
  have := congrArg List.length (word_rest h)
  have := length_dropBlank_le text
  simp only [List.length_append] at *
  omega

-- From inside the quotes of the key.
def memberBody (reading : Reading) (member : Member σ) (state : σ) (text : List Char) : Step σ :=
  (textBody reading text).andThen fun key rest =>
    match member state (.ofList key) with
    | .error problem => .error (.problem problem)
    | .ok reader => (colon rest).andThen fun _ rest => reader.run rest

theorem memberBody_shorter {reading : Reading} {member : Member σ} {state value : σ}
    {text rest : List Char} (h : memberBody reading member state text = .ok (value, rest)) :
    rest.length < text.length := by
  obtain ⟨_, _, hk, h⟩ := Step.andThen_eq_ok.1 h
  have := textBody_shorter hk
  split at h
  · cases h
  · rename_i reader _
    obtain ⟨_, _, hc, h⟩ := Step.andThen_eq_ok.1 h
    have := colon_le hc
    have := reader.shorter h
    omega

def objectBody (reading : Reading) (member : Member σ) (state : σ) (first : Bool)
    (text : List Char) : Step σ :=
  match _h : nextKey first text with
  | .error fault => .error fault
  | .ok (.close rest) => .ok (state, rest)
  | .ok (.item text) =>
    match _h : memberBody reading member state text with
    | .error fault => .error fault
    | .ok (state, rest) => objectBody reading member state false rest
termination_by text.length
decreasing_by
  have := nextKey_lt ‹_›
  have := memberBody_shorter ‹_›
  omega

theorem objectBody_shorter {reading : Reading} {member : Member σ} {state value : σ} {first : Bool}
    {text rest : List Char} (h : objectBody reading member state first text = .ok (value, rest)) :
    rest.length < text.length := by
  fun_induction objectBody reading member state first text generalizing value rest with
  | case1 => cases h
  | case2 _ _ _ _ hn =>
      cases h
      exact nextKey_close_lt hn
  | case3 => cases h
  | case4 _ _ _ _ hn _ _ hm ih =>
      have := nextKey_lt hn
      have := memberBody_shorter hm
      have := ih h
      omega

end Object

end LiveReload.Json
