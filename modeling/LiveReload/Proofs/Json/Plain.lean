import LiveReload.Proofs.Json.Readers

namespace LiveReload.Json

open Wire (Value)

-- The numeral writes an integer that fits 64 bits, with or without a sign.
def Numeral.FitsWord (numeral : Numeral) : Prop :=
  numeral.isInteger = true ∧
    digitsValue numeral.whole ≤ if numeral.negative then 0x8000000000000000 else maxSignificand

-- A value that is kept whatever it is kept for. Half of a surrogate pair makes no string.
def Tree.IsPlain : Tree → Prop
  | .null => True
  | .bool _ => True
  | .number numeral => numeral.FitsWord
  | .string quoted => quoted.text?.isSome
  | .list _ => False
  | .object _ => False

theorem foldl_digits_eq_zero {digits : List Char} {start : Nat}
    (h : digits.foldl (fun value c => value * 10 + (c.toNat - '0'.toNat)) start = 0) :
    start = 0 ∧ ∀ c ∈ digits, c.toNat - '0'.toNat = 0 := by
  induction digits generalizing start with
  | nil => exact ⟨h, fun _ hm => nomatch hm⟩
  | cons c digits ih =>
      have hstart : start * 10 + (c.toNat - '0'.toNat) = 0 := (ih h).1
      have hdigits := (ih h).2
      refine ⟨by omega, fun other hm => ?_⟩
      rcases List.mem_cons.1 hm with rfl | hm
      · omega
      · exact hdigits other hm

theorem takeDigits_zeros {digits : List Char} (h : ∀ c ∈ digits, c.toNat - '0'.toNat = 0) :
    takeDigits 0 digits = (0, digits.length) := by
  induction digits with
  | nil => rfl
  | cons c digits ih =>
      have hzero := h c List.mem_cons_self
      simp only [takeDigits, hzero, ih fun other hm => h other (List.mem_cons_of_mem c hm)]
      rfl

theorem isSome_scaled_zero : (scaled (.ofNat 0) 0).isSome = true := by
  rw [scaled]
  decide +kernel

-- Minus zero is read as well, if as no integer.
theorem Numeral.FitsWord.exists_value {numeral : Numeral} (h : numeral.FitsWord) :
    ∃ value, numeral.value = .ok value := by
  obtain ⟨hinteger, hfits⟩ := h
  unfold Numeral.value
  cases hn : numeral.negative with
  | false =>
      rw [hn] at hfits
      refine ⟨.unsigned .bits64 (digitsValue numeral.whole), if_pos ?_⟩
      simpa [hinteger] using hfits
  | true =>
      rw [hn] at hfits
      by_cases hzero : digitsValue numeral.whole = 0
      · obtain ⟨-, hdigits⟩ := foldl_digits_eq_zero hzero
        obtain ⟨float, hfloat⟩ := Option.isSome_iff_exists.1 isSome_scaled_zero
        have hparts := hinteger
        simp only [isInteger, Bool.and_eq_true, List.isEmpty_iff,
          Option.isNone_iff_eq_none] at hparts
        have hmagnitude : numeral.float = some (-float) := by
          simp [Numeral.float, takeDigits_zeros hdigits, hparts, takeDigits, hfloat, hn]
        refine ⟨.float (-float), ?_⟩
        simp [hmagnitude, hzero]
      · refine ⟨.signed (-digitsValue numeral.whole), ?_⟩
        have hpos : 0 < digitsValue numeral.whole := Nat.pos_of_ne_zero hzero
        have hfits' : digitsValue numeral.whole ≤ 0x8000000000000000 := hfits
        simp [hinteger, hpos, hfits']

theorem exists_denotes_of_isPlain {tree : Tree} (h : tree.IsPlain) (depth : Nat) :
    ∃ value, Denotes depth tree value := by
  cases tree with
  | null => exact ⟨.null, denotes_null.2 rfl⟩
  | bool held => exact ⟨.bool held, denotes_bool.2 rfl⟩
  | number numeral =>
      obtain ⟨value, hvalue⟩ := h.exists_value
      exact ⟨value, denotes_number.2 hvalue⟩
  | string quoted =>
      obtain ⟨text, htext⟩ := Option.isSome_iff_exists.1 h
      exact ⟨.text text, denotes_string.2 ⟨text, htext, rfl⟩⟩
  | list items => exact h.elim
  | object members => exact h.elim

end LiveReload.Json
