import LiveReload.Json.Collection
import LiveReload.Json.Number

namespace LiveReload.Json

-- An unfinished number is malformed here even where the text ends.
def skipNumber (text : List Char) : Step Unit :=
  match numeral text with
  | .error _ => .error .malformed
  | .ok (_, rest) => .ok ((), rest)

-- What is skipped must be grammatical and nothing more: numbers may be out of range, strings may
-- hold half a surrogate pair, and nesting may go as deep as the text allows.
-- `inner` skips the items of an array or object.
def skipBody (inner : Option (Reader Unit)) (text : List Char) : Step Unit :=
  match text with
  | [] => .error .endOfText
  | '[' :: rest =>
    match inner with
    | none => .error .malformed
    | some inner => (listBody inner true rest).map fun _ => ()
  | '\x7b' :: rest =>
    match inner with
    | none => .error .malformed
    | some inner => objectBody .skipping (fun _ _ => .ok inner) () true rest
  | '"' :: rest => (textBody .skipping rest).map fun _ => ()
  | 'n' :: rest => word ['u', 'l', 'l'] rest
  | 't' :: rest => word ['r', 'u', 'e'] rest
  | 'f' :: rest => word ['a', 'l', 's', 'e'] rest
  | text => skipNumber text

theorem skipBody_shorter {inner : Option (Reader Unit)} {text rest : List Char} {value : Unit}
    (h : skipBody inner text = .ok (value, rest)) : rest.length < text.length := by
  unfold skipBody at h
  split at h
  · cases h
  · split at h
    · cases h
    · obtain ⟨_, hl, -⟩ := Step.map_eq_ok.1 h
      have := listBody_shorter hl
      simp only [List.length_cons]
      omega
  · split at h
    · cases h
    · have := objectBody_shorter h
      simp only [List.length_cons]
      omega
  · obtain ⟨_, ht, -⟩ := Step.map_eq_ok.1 h
    have := textBody_shorter ht
    simp only [List.length_cons]
    omega
  · rw [word_rest h]
    simp only [List.length_cons, List.length_append]
    omega
  · rw [word_rest h]
    simp only [List.length_cons, List.length_append]
    omega
  · rw [word_rest h]
    simp only [List.length_cons, List.length_append]
    omega
  · simp only [skipNumber] at h
    split at h
    · cases h
    · cases h
      exact numeral_shorter ‹_›

def skipNested : Nat → Reader Unit
  | 0 => .ofBody (skipBody none) skipBody_shorter
  | depth + 1 => .ofBody (skipBody (some (skipNested depth))) skipBody_shorter

-- No text nests deeper than it is long.
def Reader.skip : Reader Unit where
  run text := (skipNested text.length).run text
  shorter h := (skipNested _).shorter h

end LiveReload.Json
