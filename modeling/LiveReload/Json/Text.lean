import LiveReload.Json.Reader

namespace LiveReload.Json

-- A string that is read must be text; one that is skipped may hold halves of surrogate pairs.
inductive Reading where
  | strict
  | skipping
deriving DecidableEq

def hexValue? (c : Char) : Option Nat :=
  if '0' ≤ c ∧ c ≤ '9' then some (c.toNat - '0'.toNat)
  else if 'a' ≤ c ∧ c ≤ 'f' then some (c.toNat - 'a'.toNat + 10)
  else if 'A' ≤ c ∧ c ≤ 'F' then some (c.toNat - 'A'.toNat + 10)
  else none

def byteLength (text : List Char) : Nat := (String.ofList text).utf8ByteSize

-- Four hexadecimal digits. The text ends too early if it has fewer than four bytes left, whatever
-- they are.
def codeUnit (text : List Char) : Step Nat :=
  match text with
  | a :: b :: c :: d :: rest =>
    match hexValue? a, hexValue? b, hexValue? c, hexValue? d with
    | some a, some b, some c, some d => .ok (((a * 16 + b) * 16 + c) * 16 + d, rest)
    | _, _, _, _ => .error .malformed
  | _ => if byteLength text < 4 then .error .endOfText else .error .malformed

def isLeading (unit : Nat) : Bool := 0xd800 ≤ unit && unit < 0xdc00

def isTrailing (unit : Nat) : Bool := 0xdc00 ≤ unit && unit < 0xe000

def joinSurrogates (leading trailing : Nat) : Char :=
  .ofNat (0x10000 + (leading - 0xd800) * 0x400 + (trailing - 0xdc00))

-- The second half of a surrogate pair, with the escape that introduces it.
def trailingUnit (text : List Char) : Step Nat :=
  (word ['\\', 'u'] text).andThen fun _ text => (codeUnit text).ensure isTrailing

-- What follows a backslash. A half of a pair stands for no character.
def escape (reading : Reading) (text : List Char) : Step (List Char) :=
  match text with
  | [] => .error .endOfText
  | '"' :: rest => .ok (['"'], rest)
  | '\\' :: rest => .ok (['\\'], rest)
  | '/' :: rest => .ok (['/'], rest)
  | 'b' :: rest => .ok (['\x08'], rest)
  | 'f' :: rest => .ok (['\x0c'], rest)
  | 'n' :: rest => .ok (['\n'], rest)
  | 'r' :: rest => .ok (['\r'], rest)
  | 't' :: rest => .ok (['\t'], rest)
  | 'u' :: rest =>
    (codeUnit rest).andThen fun unit rest =>
      match reading with
      | .skipping => .ok ([], rest)
      | .strict =>
        if isTrailing unit then .error .malformed
        else if isLeading unit then
          (trailingUnit rest).map fun trailing => [joinSurrogates unit trailing]
        else .ok ([.ofNat unit], rest)
  | _ => .error .malformed

theorem codeUnit_shorter {text rest : List Char} {unit : Nat}
    (h : codeUnit text = .ok (unit, rest)) : rest.length < text.length := by
  unfold codeUnit at h
  split at h
  · split at h
    · cases h
      simp only [List.length_cons]
      omega
    · cases h
  · split at h <;> cases h

theorem trailingUnit_shorter {text rest : List Char} {unit : Nat}
    (h : trailingUnit text = .ok (unit, rest)) : rest.length < text.length := by
  obtain ⟨_, tail, hw, hu⟩ := Step.andThen_eq_ok.1 h
  obtain ⟨_, _, hc, hu⟩ := Step.andThen_eq_ok.1 hu
  split at hu
  · cases hu
    have := codeUnit_shorter hc
    simp only [word_rest hw, List.length_append]
    omega
  · cases hu

theorem escape_shorter {reading : Reading} {text rest chars : List Char}
    (h : escape reading text = .ok (chars, rest)) : rest.length < text.length := by
  unfold escape at h
  split at h
  case h_10 =>
    obtain ⟨unit, tail, hc, h⟩ := Step.andThen_eq_ok.1 h
    have hu := codeUnit_shorter hc
    simp only [List.length_cons]
    split at h
    · cases h
      omega
    · split at h
      · cases h
      · split at h
        · obtain ⟨_, ht, -⟩ := Step.map_eq_ok.1 h
          have := trailingUnit_shorter ht
          omega
        · cases h
          omega
  all_goals first | (cases h; simp) | cases h

-- The characters up to the closing quote.
def textBody (reading : Reading) (text : List Char) : Step (List Char) :=
  match text with
  | [] => .error .endOfText
  | '"' :: rest => .ok ([], rest)
  | '\\' :: rest =>
    match _h : escape reading rest with
    | .error fault => .error fault
    | .ok (chars, rest) => (textBody reading rest).map (chars ++ ·)
  | c :: rest =>
    if c < ' ' then .error .malformed
    else (textBody reading rest).map (c :: ·)
termination_by text.length
decreasing_by
  · have := escape_shorter ‹_›
    simp only [List.length_cons]
    omega
  · simp

theorem textBody_shorter {reading : Reading} {text rest chars : List Char}
    (h : textBody reading text = .ok (chars, rest)) : rest.length < text.length := by
  fun_induction textBody reading text generalizing chars rest with
  | case1 => cases h
  | case2 => cases h; simp
  | case3 => cases h
  | case4 _ _ _ he ih =>
      obtain ⟨_, hb, -⟩ := Step.map_eq_ok.1 h
      have := ih hb
      have := escape_shorter he
      simp only [List.length_cons]
      omega
  | case5 => cases h
  | case6 _ _ _ _ _ ih =>
      obtain ⟨_, hb, -⟩ := Step.map_eq_ok.1 h
      have := ih hb
      simp only [List.length_cons]
      omega

end LiveReload.Json
