import LiveReload.Wire.Problem

namespace LiveReload.Json

inductive Fault where
  | endOfText
  | malformed
  | problem (problem : Wire.Problem)

-- The fault of a text that does not go on as it should.
def Fault.unexpected (text : List Char) : Fault := if text.isEmpty then .endOfText else .malformed

-- What a step over the text comes to: its result and the rest of the text.
abbrev Step (α : Type) := Except Fault (α × List Char)

namespace Step

variable {α β : Type}

def andThen (step : Step α) (next : α → List Char → Step β) : Step β :=
  match step with
  | .error fault => .error fault
  | .ok (value, rest) => next value rest

theorem andThen_eq_ok {step : Step α} {next : α → List Char → Step β} {result : β × List Char} :
    step.andThen next = .ok result ↔
      ∃ value rest, step = .ok (value, rest) ∧ next value rest = .ok result := by
  rcases step with fault | ⟨value, rest⟩
  · simp [andThen]
  · simp only [andThen, Except.ok.injEq, Prod.mk.injEq]
    exact ⟨fun h => ⟨value, rest, ⟨rfl, rfl⟩, h⟩, fun ⟨_, _, ⟨hv, hr⟩, h⟩ => hv ▸ hr ▸ h⟩

def map (step : Step α) (f : α → β) : Step β := step.andThen fun value rest => .ok (f value, rest)

theorem map_eq_ok {step : Step α} {f : α → β} {result : β} {rest : List Char} :
    step.map f = .ok (result, rest) ↔ ∃ value, step = .ok (value, rest) ∧ f value = result := by
  simp only [map, andThen_eq_ok, Except.ok.injEq, Prod.mk.injEq]
  exact ⟨fun ⟨value, _, h, hv, hr⟩ => ⟨value, hr ▸ h, hv⟩,
    fun ⟨value, h, hv⟩ => ⟨value, rest, h, hv, rfl⟩⟩

-- Refuses a value that does not do.
def ensure (step : Step α) (test : α → Bool) : Step α :=
  step.andThen fun value rest => if test value then .ok (value, rest) else .error .malformed

end Step

-- A reader takes a value off the front of the text. The rest is shorter, so that repetitions end.
structure Reader (α : Type) where
  run : List Char → Step α
  shorter : ∀ {text value rest}, run text = .ok (value, rest) → rest.length < text.length

def isBlank (c : Char) : Bool := c = ' ' || c = '\n' || c = '\t' || c = '\r'

def dropBlank (text : List Char) : List Char := text.dropWhile isBlank

theorem length_dropBlank_le (text : List Char) : (dropBlank text).length ≤ text.length :=
  (List.dropWhile_suffix isBlank).length_le

@[simp] theorem dropBlank_idem (text : List Char) : dropBlank (dropBlank text) = dropBlank text := by
  unfold dropBlank
  induction text with
  | nil => rfl
  | cons c text ih =>
      by_cases h : isBlank c = true <;> simp [h, ih]

-- Takes `letters` off the text.
def word : List Char → List Char → Step Unit
  | [], text => .ok ((), text)
  | _ :: _, [] => .error .endOfText
  | l :: letters, c :: text => if c = l then word letters text else .error .malformed

theorem word_rest {letters text rest : List Char} (h : word letters text = .ok ((), rest)) :
    text = letters ++ rest := by
  induction letters generalizing text with
  | nil => cases h; rfl
  | cons l letters ih =>
      cases text with
      | nil => cases h
      | cons c text =>
          unfold word at h
          split at h
          · subst c
            rw [ih h, List.cons_append]
          · cases h

namespace Reader

variable {α β : Type}

def map (reader : Reader α) (f : α → β) : Reader β where
  run text := (reader.run text).map f
  shorter h := by
    obtain ⟨value, hv, -⟩ := Step.map_eq_ok.1 h
    exact reader.shorter hv

-- Reads on from a first character that has been looked at already.
def ofBody (body : List Char → Step α)
    (progress : ∀ {text value rest}, body (dropBlank text) = .ok (value, rest) →
      rest.length < (dropBlank text).length) : Reader α where
  run text := body (dropBlank text)
  shorter h := Nat.lt_of_lt_of_le (progress h) (length_dropBlank_le _)

end Reader

-- The whole text is one value, with blanks around it.
def Reader.readAll {α : Type} (reader : Reader α) (text : String) : Except Fault α :=
  match reader.run text.toList with
  | .error fault => .error fault
  | .ok (value, rest) => if (dropBlank rest).isEmpty then .ok value else .error .malformed

end LiveReload.Json
