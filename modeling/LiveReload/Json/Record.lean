import LiveReload.Json.Skip
import LiveReload.Json.Typed

namespace LiveReload.Json

open Wire (Problem)

-- Reading a field changes the record read so far.
structure Field (σ : Type) where
  name : String
  reader : Reader (σ → σ)

structure Schema (σ α : Type) where
  -- What a sentence on a mismatch calls the record.
  name : String
  fields : List (Field σ)
  -- The record before anything is read.
  start : σ
  -- Whether an array may end before the last field.
  openEnded : Bool
  finish : σ → Except Problem α

namespace Schema

variable {σ α : Type}

-- With the record go the fields that have been met. A field that comes again is refused.
def member (schema : Schema σ α) : Member (List String × σ) := fun (met, state) key =>
  match schema.fields.find? (·.name = key) with
  | none => .ok (Reader.skip.map fun _ => (met, state))
  | some field =>
    if key ∈ met then .error (.duplicateField key)
    else .ok (field.reader.map fun update => (key :: met, update state))

-- Nothing may follow the last field but the closing bracket.
def closing (state : σ) (text : List Char) : Step σ :=
  match dropBlank text with
  | [] => .error .endOfText
  | ']' :: rest => .ok (state, rest)
  | _ => .error .malformed

def arrayProblem (schema : Schema σ α) (length : Nat) : Problem :=
  .invalidLength length (schema.name ++ " with " ++ toString schema.fields.length ++ " elements")

-- `length` fields have been read, and `fields` are to come.
def arrayBody (schema : Schema σ α) :
    (fields : List (Field σ)) → (length : Nat) → (state : σ) → List Char → Step σ
  | [], _, state, text => closing state text
  | field :: fields, length, state, text =>
    match nextItem (length = 0) text with
    | .error fault => .error fault
    | .ok (.close rest) =>
      if schema.openEnded then .ok (state, rest)
      else .error (.problem (schema.arrayProblem length))
    | .ok (.item text) =>
      (field.reader.run text).andThen fun update rest =>
        arrayBody schema fields (length + 1) (update state) rest

def finished (schema : Schema σ α) (step : Step σ) : Step α :=
  step.andThen fun state rest =>
    match schema.finish state with
    | .error problem => .error (.problem problem)
    | .ok value => .ok (value, rest)

-- An object whose members are the fields, in any order and among others, or an array of the fields
-- in their order of declaration.
def body (schema : Schema σ α) (text : List Char) : Step α :=
  match text with
  | '[' :: rest => schema.finished (schema.arrayBody schema.fields 0 schema.start rest)
  | '\x7b' :: rest =>
    schema.finished
      ((objectBody .strict schema.member ([], schema.start) true rest).map Prod.snd)
  | _ => .error (mismatch schema.name text)

theorem closing_lt {state value : σ} {text rest : List Char}
    (h : closing state text = .ok (value, rest)) : rest.length < text.length := by
  have hb := length_dropBlank_le text
  unfold closing at h
  split at h
  · cases h
  · rename_i he
    cases h
    rw [he, List.length_cons] at hb
    omega
  · cases h

theorem arrayBody_lt {schema : Schema σ α} {fields : List (Field σ)} {length : Nat}
    {state value : σ} {text rest : List Char}
    (h : schema.arrayBody fields length state text = .ok (value, rest)) :
    rest.length < text.length := by
  induction fields generalizing length state text with
  | nil => exact closing_lt h
  | cons field fields ih =>
      unfold arrayBody at h
      split at h
      · cases h
      · split at h
        · cases h
          exact nextItem_close_lt ‹_›
        · cases h
      · obtain ⟨_, _, hr, h⟩ := Step.andThen_eq_ok.1 h
        have := nextItem_le ‹_›
        have := field.reader.shorter hr
        have := ih h
        omega

theorem finished_eq_ok {schema : Schema σ α} {step : Step σ} {value : α} {rest : List Char}
    (h : schema.finished step = .ok (value, rest)) : ∃ state, step = .ok (state, rest) := by
  obtain ⟨state, _, hs, h⟩ := Step.andThen_eq_ok.1 h
  split at h
  · cases h
  · cases h
    exact ⟨state, hs⟩

theorem body_shorter {schema : Schema σ α} {text rest : List Char} {value : α}
    (h : schema.body text = .ok (value, rest)) : rest.length < text.length := by
  unfold body at h
  split at h
  · obtain ⟨_, h⟩ := finished_eq_ok h
    have := arrayBody_lt h
    simp only [List.length_cons]
    omega
  · obtain ⟨_, h⟩ := finished_eq_ok h
    obtain ⟨_, h, -⟩ := Step.map_eq_ok.1 h
    have := objectBody_shorter h
    simp only [List.length_cons]
    omega
  · cases h

def reader (schema : Schema σ α) : Reader α := .ofBody schema.body body_shorter

end Schema

end LiveReload.Json
