import LiveReload.Json.Collection
import LiveReload.Json.Number

namespace LiveReload.Json

open Wire (Found Problem Value)

def scalar {α : Type} (letters : List Char) (value : α) (text : List Char) : Step α :=
  (word letters text).map fun _ => value

theorem scalar_le {α : Type} {letters text rest : List Char} {value result : α}
    (h : scalar letters value text = .ok (result, rest)) : rest.length ≤ text.length := by
  obtain ⟨_, hw, -⟩ := Step.map_eq_ok.1 h
  have := congrArg List.length (word_rest hw)
  simp only [List.length_append] at this
  omega

def textValue (text : List Char) : Step String := (textBody .strict text).map .ofList

theorem textValue_shorter {text rest : List Char} {value : String}
    (h : textValue text = .ok (value, rest)) : rest.length < text.length := by
  obtain ⟨_, hb, -⟩ := Step.map_eq_ok.1 h
  exact textBody_shorter hb

-- What the text goes on with. Arrays and objects are not looked into.
def found (text : List Char) : Step Found :=
  match text with
  | 'n' :: rest => scalar ['u', 'l', 'l'] .null rest
  | 't' :: rest => scalar ['r', 'u', 'e'] (.bool true) rest
  | 'f' :: rest => scalar ['a', 'l', 's', 'e'] (.bool false) rest
  | '"' :: rest => (textValue rest).map .text
  | '[' :: rest => .ok (.sequence, rest)
  | '\x7b' :: rest => .ok (.map, rest)
  | c :: _ => if c = '-' || isDigit c then (number text).map Value.found else .error .malformed
  | [] => .error .endOfText

def mismatch (expected : String) (text : List Char) : Fault :=
  match found text with
  | .error fault => fault
  | .ok (found, _) => .problem (.invalidType found expected)

namespace Reader

variable {α : Type}

def string : Reader String :=
  ofBody
    (fun text =>
      match text with
      | '"' :: rest => textValue rest
      | _ => .error (mismatch "a string" text))
    (by
      intro text value rest h
      split at h
      · rename_i he
        have := textValue_shorter h
        rw [he, List.length_cons]
        omega
      · cases h)

def bool : Reader Bool :=
  ofBody
    (fun text =>
      match text with
      | 't' :: rest => scalar ['r', 'u', 'e'] true rest
      | 'f' :: rest => scalar ['a', 'l', 's', 'e'] false rest
      | _ => .error (mismatch "a boolean" text))
    (by
      intro text value rest h
      split at h
      · rename_i he
        have := scalar_le h
        rw [he, List.length_cons]
        omega
      · rename_i he
        have := scalar_le h
        rw [he, List.length_cons]
        omega
      · cases h)

-- An unsigned 64-bit integer.
def natural : Value → Except Problem Nat
  | .unsigned _ value => .ok value
  | .signed value => .error (.invalidValue (.integer value) "usize")
  | value => .error (.invalidType value.found "usize")

def word64 : Reader UInt64 :=
  ofBody
    (fun text =>
      match text with
      | c :: _ =>
        if c = '-' || isDigit c then
          (number text).andThen fun value rest =>
            match natural value with
            | .error problem => .error (.problem problem)
            | .ok value => .ok (.ofNat value, rest)
        else .error (mismatch "usize" text)
      | [] => .error .endOfText)
    (by
      intro text value rest h
      split at h
      · split at h
        · obtain ⟨_, _, hn, h⟩ := Step.andThen_eq_ok.1 h
          split at h
          · cases h
          · cases h
            exact number_shorter hn
        · cases h
      · cases h)

-- A null stands for nothing.
def optional (reader : Reader α) : Reader (Option α) :=
  ofBody
    (fun text =>
      match text with
      | 'n' :: rest => scalar ['u', 'l', 'l'] none rest
      | _ => (reader.run text).map some)
    (by
      intro text value rest h
      split at h
      · rename_i he
        have := scalar_le h
        rw [he, List.length_cons]
        omega
      · obtain ⟨_, hr, -⟩ := Step.map_eq_ok.1 h
        exact reader.shorter hr)

def listOf (item : Reader α) : Reader (List α) :=
  ofBody
    (fun text =>
      match text with
      | '[' :: rest => listBody item true rest
      | _ => .error (mismatch "a sequence" text))
    (by
      intro text value rest h
      split at h
      · rename_i he
        have := listBody_shorter h
        rw [he, List.length_cons]
        omega
      · cases h)

end Reader

end LiveReload.Json
