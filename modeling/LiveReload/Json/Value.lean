import LiveReload.Json.Typed

namespace LiveReload.Json

open Wire (Value)

-- `inner` reads the items of an array or object.
def valueBody (inner : Option (Reader Value)) (text : List Char) : Step Value :=
  match text with
  | [] => .error .endOfText
  | '[' :: rest =>
    match inner with
    | none => .error .malformed
    | some inner => (listBody inner true rest).map .list
  | '\x7b' :: rest =>
    match inner with
    | none => .error .malformed
    | some inner =>
      (objectBody .strict
        (fun entries key => .ok (inner.map fun value => entries ++ [(.text key, value)]))
        [] true rest).map .map
  | '"' :: rest => (textValue rest).map .text
  | 'n' :: rest => scalar ['u', 'l', 'l'] .null rest
  | 't' :: rest => scalar ['r', 'u', 'e'] (.bool true) rest
  | 'f' :: rest => scalar ['a', 'l', 's', 'e'] (.bool false) rest
  | c :: rest => if c = '-' || isDigit c then number (c :: rest) else .error .malformed

theorem valueBody_shorter {inner : Option (Reader Value)} {text rest : List Char} {value : Value}
    (h : valueBody inner text = .ok (value, rest)) : rest.length < text.length := by
  unfold valueBody at h
  split at h
  · cases h
  · split at h
    · cases h
    · obtain ⟨_, hl, -⟩ := Step.map_eq_ok.1 h
      have := listBody_shorter hl
      simp only [List.length_cons]
      omega
  · split at h
    · cases h
    · obtain ⟨_, ho, -⟩ := Step.map_eq_ok.1 h
      have := objectBody_shorter ho
      simp only [List.length_cons]
      omega
  · obtain ⟨_, ht, -⟩ := Step.map_eq_ok.1 h
    have := textValue_shorter ht
    simp only [List.length_cons]
    omega
  · have := scalar_le h
    simp only [List.length_cons]
    omega
  · have := scalar_le h
    simp only [List.length_cons]
    omega
  · have := scalar_le h
    simp only [List.length_cons]
    omega
  · split at h
    · exact number_shorter h
    · cases h

-- Reads a value with at most `depth` brackets open at a time.
def Reader.value : Nat → Reader Value
  | 0 => .ofBody (valueBody none) valueBody_shorter
  | depth + 1 => .ofBody (valueBody (some (Reader.value depth))) valueBody_shorter

end LiveReload.Json
