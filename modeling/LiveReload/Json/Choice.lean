import LiveReload.Json.Typed

namespace LiveReload.Json

open Wire (Problem)

def pick {α : Type} (choices : List (String × α)) (name : String) : Except Problem α :=
  match choices.find? (·.1 = name) with
  | some (_, value) => .ok value
  | none => .error (.unknownVariant name (choices.map Prod.fst))

section

variable {α : Type} (choices : List (String × α))

-- From inside the quotes of the name.
def chosen (text : List Char) : Step α :=
  (textValue text).andThen fun name rest =>
    match pick choices name with
    | .error problem => .error (.problem problem)
    | .ok value => .ok (value, rest)

def unit (text : List Char) : Step Unit :=
  match dropBlank text with
  | 'n' :: rest => word ['u', 'l', 'l'] rest
  | text => .error (mismatch "unit" text)

-- From behind the opening brace. A key that is no string is malformed text, not a value of another
-- type.
def chosenKey (text : List Char) : Step α :=
  match dropBlank text with
  | '"' :: rest =>
    (chosen choices rest).andThen fun value rest =>
      (colon rest).andThen fun _ rest =>
        (unit rest).andThen fun _ rest =>
          (word ['\x7d'] (dropBlank rest)).map fun _ => value
  | text => .error (.unexpected text)

variable {choices}

theorem chosen_shorter {text rest : List Char} {value : α}
    (h : chosen choices text = .ok (value, rest)) : rest.length < text.length := by
  obtain ⟨_, _, ht, h⟩ := Step.andThen_eq_ok.1 h
  split at h
  · cases h
  · cases h
    exact textValue_shorter ht

theorem unit_le {text rest : List Char} {value : Unit} (h : unit text = .ok (value, rest)) :
    rest.length ≤ text.length := by
  have hb := length_dropBlank_le text
  unfold unit at h
  split at h
  · rename_i he
    rw [he, word_rest h] at hb
    simp only [List.length_cons, List.length_append] at hb
    omega
  · cases h

theorem chosenKey_shorter {text rest : List Char} {value : α}
    (h : chosenKey choices text = .ok (value, rest)) : rest.length < text.length := by
  have hb := length_dropBlank_le text
  unfold chosenKey at h
  split at h
  · rename_i he
    rw [he, List.length_cons] at hb
    obtain ⟨_, _, hn, h⟩ := Step.andThen_eq_ok.1 h
    obtain ⟨_, _, hc, h⟩ := Step.andThen_eq_ok.1 h
    obtain ⟨_, tail, hu, h⟩ := Step.andThen_eq_ok.1 h
    obtain ⟨_, hw, -⟩ := Step.map_eq_ok.1 h
    have := congrArg List.length (word_rest hw)
    have := length_dropBlank_le tail
    have := chosen_shorter hn
    have := colon_le hc
    have := unit_le hu
    simp only [List.length_append] at *
    omega
  · cases h

end

-- A name, or an object that has the name for its only key and null for the value.
def Reader.choice {α : Type} (choices : List (String × α)) : Reader α :=
  ofBody
    (fun text =>
      match text with
      | [] => .error .endOfText
      | '"' :: rest => chosen choices rest
      | '\x7b' :: rest => chosenKey choices rest
      | _ => .error .malformed)
    (by
      intro text value rest h
      split at h
      · cases h
      · rename_i he
        have := chosen_shorter h
        rw [he, List.length_cons]
        omega
      · rename_i he
        have := chosenKey_shorter h
        rw [he, List.length_cons]
        omega
      · cases h)

end LiveReload.Json
