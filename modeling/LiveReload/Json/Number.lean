import LiveReload.Json.Reader

namespace LiveReload.Json

structure Numeral where
  negative : Bool
  whole : List Char
  fraction : List Char
  -- The sign and the digits of a written exponent.
  exponent : Option (Bool × List Char)

def isDigit (c : Char) : Bool := '0' ≤ c && c ≤ '9'

def digitsValue (digits : List Char) : Nat :=
  digits.foldl (fun value c => value * 10 + (c.toNat - '0'.toNat)) 0

-- At least one digit.
def digits (text : List Char) : Step (List Char) :=
  let taken := text.takeWhile isDigit
  if taken.isEmpty then .error (.unexpected text)
  else .ok (taken, text.dropWhile isDigit)

-- A zero stands alone.
def wholePart (text : List Char) : Step (List Char) :=
  (digits text).ensure fun digits => digits.head? ≠ some '0' || digits.length = 1

def fractionPart (text : List Char) : Step (List Char) :=
  match text with
  | '.' :: rest => digits rest
  | _ => .ok ([], text)

def exponentPart (text : List Char) : Step (Option (Bool × List Char)) :=
  let signed (negative : Bool) (rest : List Char) :=
    (digits rest).map fun digits => some (negative, digits)
  let afterMark (rest : List Char) :=
    match rest with
    | '-' :: rest => signed true rest
    | '+' :: rest => signed false rest
    | _ => signed false rest
  match text with
  | 'e' :: rest => afterMark rest
  | 'E' :: rest => afterMark rest
  | _ => .ok (none, text)

def unsignedNumeral (negative : Bool) (text : List Char) : Step Numeral :=
  (wholePart text).andThen fun whole text =>
    (fractionPart text).andThen fun fraction text =>
      (exponentPart text).map fun exponent => ⟨negative, whole, fraction, exponent⟩

def numeral (text : List Char) : Step Numeral :=
  match text with
  | '-' :: rest => unsignedNumeral true rest
  | _ => unsignedNumeral false text

theorem digits_shorter {text rest value : List Char} (h : digits text = .ok (value, rest)) :
    rest.length < text.length := by
  simp only [digits] at h
  split at h
  · cases h
  · rename_i hd
    cases h
    have hs := congrArg List.length (List.takeWhile_append_dropWhile (p := isDigit) (l := text))
    have hp := List.length_pos_iff.2 (mt List.isEmpty_iff.2 hd)
    rw [List.length_append] at hs
    omega

theorem fractionPart_le {text rest value : List Char} (h : fractionPart text = .ok (value, rest)) :
    rest.length ≤ text.length := by
  unfold fractionPart at h
  split at h
  · have := digits_shorter h
    simp only [List.length_cons]
    omega
  · cases h
    exact Nat.le_refl _

theorem exponentPart_le {text rest : List Char} {value : Option (Bool × List Char)}
    (h : exponentPart text = .ok (value, rest)) : rest.length ≤ text.length := by
  unfold exponentPart at h
  simp only at h
  split at h
  · split at h
    all_goals
      obtain ⟨_, hd, -⟩ := Step.map_eq_ok.1 h
      have := digits_shorter hd
      simp only [List.length_cons]
      omega
  · split at h
    all_goals
      obtain ⟨_, hd, -⟩ := Step.map_eq_ok.1 h
      have := digits_shorter hd
      simp only [List.length_cons]
      omega
  · cases h
    exact Nat.le_refl _

theorem unsignedNumeral_shorter {negative : Bool} {text rest : List Char} {value : Numeral}
    (h : unsignedNumeral negative text = .ok (value, rest)) : rest.length < text.length := by
  obtain ⟨_, _, hw, h⟩ := Step.andThen_eq_ok.1 h
  obtain ⟨_, _, hf, h⟩ := Step.andThen_eq_ok.1 h
  obtain ⟨_, he, -⟩ := Step.map_eq_ok.1 h
  obtain ⟨_, _, hd, hw⟩ := Step.andThen_eq_ok.1 hw
  split at hw
  · cases hw
    have := digits_shorter hd
    have := fractionPart_le hf
    have := exponentPart_le he
    omega
  · cases hw

theorem numeral_shorter {text rest : List Char} {value : Numeral}
    (h : numeral text = .ok (value, rest)) : rest.length < text.length := by
  unfold numeral at h
  split at h
  · have := unsignedNumeral_shorter h
    simp only [List.length_cons]
    omega
  · exact unsignedNumeral_shorter h

def maxSignificand : Nat := 0xffffffffffffffff

-- Takes digits into the significand as long as it fits 64 bits; tells how many were taken.
def takeDigits (significand : Nat) : List Char → Nat × Nat
  | [] => (significand, 0)
  | c :: digits =>
    let next := significand * 10 + (c.toNat - '0'.toNat)
    if maxSignificand < next then (significand, 0)
    else
      let (result, taken) := takeDigits next digits
      (result, taken + 1)

def powerOfTen (exponent : Nat) : Float := .ofScientific 1 false exponent

def maxPower : Nat := 308

-- Multiplies by a power of ten in floating-point steps. There is no result beyond the finite.
def scaled (value : Float) (exponent : Int) : Option Float :=
  if 0 ≤ exponent then
    if exponent ≤ maxPower then
      let result := value * powerOfTen exponent.toNat
      if result.isInf then none else some result
    else if value == 0 then some value
    else none
  else if -exponent ≤ maxPower then some (value / powerOfTen (-exponent).toNat)
  else if value == 0 then some value
  else scaled (value / powerOfTen maxPower) (exponent + maxPower)
termination_by (-exponent).toNat
decreasing_by
  simp only [maxPower] at *
  omega

namespace Numeral

-- Digits that the significand has no room for only count for the magnitude.
def float (numeral : Numeral) : Option Float :=
  let (whole, wholeTaken) := takeDigits 0 numeral.whole
  let (significand, fractionTaken) := takeDigits whole numeral.fraction
  let written : Int :=
    match numeral.exponent with
    | none => 0
    | some (true, digits) => -digitsValue digits
    | some (false, digits) => digitsValue digits
  let magnitude :=
    scaled (.ofNat significand) (numeral.whole.length - wholeTaken - fractionTaken + written)
  magnitude.map fun value => if numeral.negative then -value else value

def isInteger (numeral : Numeral) : Bool := numeral.fraction.isEmpty && numeral.exponent.isNone

-- An integer if the number is written as one and fits 64 bits, a floating-point number otherwise.
-- Minus zero is no integer: its sign would be lost.
def value (numeral : Numeral) : Except Fault Wire.Value :=
  let whole := digitsValue numeral.whole
  if numeral.isInteger && !numeral.negative && whole ≤ maxSignificand then
    .ok (.unsigned .bits64 whole)
  else if numeral.isInteger && numeral.negative && 0 < whole && whole ≤ 0x8000000000000000 then
    .ok (.signed (-whole))
  else
    match numeral.float with
    | some value => .ok (.float value)
    | none => .error .malformed

end Numeral

def number (text : List Char) : Step Wire.Value :=
  (numeral text).andThen fun numeral rest => numeral.value.map (·, rest)

theorem number_shorter {text rest : List Char} {value : Wire.Value}
    (h : number text = .ok (value, rest)) : rest.length < text.length := by
  obtain ⟨_, _, hn, h⟩ := Step.andThen_eq_ok.1 h
  have := numeral_shorter hn
  cases hv : Numeral.value ‹_› with
  | error fault => simp [hv, Except.map] at h
  | ok value =>
      simp only [hv, Except.map, Except.ok.injEq, Prod.mk.injEq] at h
      rw [← h.2]
      omega

end LiveReload.Json
