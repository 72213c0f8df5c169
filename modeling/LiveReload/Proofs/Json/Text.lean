import LiveReload.Json.Printer
import LiveReload.Json.Typed

namespace LiveReload.Json

theorem hexValue?_hexDigit {n : Nat} (h : n < 16) : hexValue? (hexDigit n) = some n := by
  revert n
  decide

theorem codeUnit_hexDigit {n : Nat} (h : n < 256) (rest : List Char) :
    codeUnit ('0' :: '0' :: hexDigit (n / 16) :: hexDigit (n % 16) :: rest) = .ok (n, rest) := by
  have hzero : hexValue? '0' = some 0 := rfl
  rw [codeUnit, hzero, hexValue?_hexDigit (by omega), hexValue?_hexDigit (by omega)]
  simp only [Except.ok.injEq, Prod.mk.injEq, and_true]
  omega

theorem escape_control {c : Char} (h : c < ' ') (rest : List Char) :
    escape .strict
      ('u' :: '0' :: '0' :: hexDigit (c.toNat / 16) :: hexDigit (c.toNat % 16) :: rest) =
        .ok ([c], rest) := by
  have hc : c.toNat < 32 := h
  -- a unit this small is no half of a pair
  have ht : isTrailing c.toNat = false := by simp [isTrailing]; omega
  have hl : isLeading c.toNat = false := by simp [isLeading]; omega
  simp [escape, codeUnit_hexDigit (show c.toNat < 256 by omega), Step.andThen, ht, hl]

theorem textBody_escape {reading : Reading} {chars text rest : List Char}
    (h : escape reading text = .ok (chars, rest)) :
    textBody reading ('\\' :: text) = (textBody reading rest).map (chars ++ ·) := by
  rw [textBody]
  split <;> simp_all

theorem textBody_cons {reading : Reading} {c : Char} (hquote : c ≠ '"') (hslash : c ≠ '\\')
    (hc : ¬c < ' ') (text : List Char) :
    textBody reading (c :: text) = (textBody reading text).map (c :: ·) := by
  rw [textBody, if_neg hc]
  · simpa using hquote
  · simpa using hslash

theorem textBody_escapedChar (c : Char) (text : List Char) :
    textBody .strict (escapedChar c ++ text) = (textBody .strict text).map (c :: ·) := by
  unfold escapedChar
  split
  iterate 7
    exact textBody_escape (show escape .strict (_ :: text) = .ok ([_], text) from rfl)
  split
  · exact textBody_escape (escape_control ‹_› text)
  · exact textBody_cons ‹_› ‹_› ‹_› text

-- The characters between the quotes.
theorem textBody_flatMap_escapedChar (chars rest : List Char) :
    textBody .strict (chars.flatMap escapedChar ++ '"' :: rest) = .ok (chars, rest) := by
  induction chars with
  | nil => rw [List.flatMap_nil, List.nil_append, textBody]
  | cons c chars ih =>
      rw [List.flatMap_cons, List.append_assoc, textBody_escapedChar, ih]
      rfl

theorem textValue_printed (text : String) (rest : List Char) :
    textValue (text.toList.flatMap escapedChar ++ '"' :: rest) = .ok (text, rest) := by
  rw [textValue, textBody_flatMap_escapedChar, Step.map, Step.andThen, String.ofList_toList]

end LiveReload.Json
