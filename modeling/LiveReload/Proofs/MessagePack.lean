import LiveReload.MessagePack.Reader
import LiveReload.MessagePack.Writer
import Mathlib.Algebra.GroupWithZero.Nat
import Mathlib.Data.List.Forall2

namespace LiveReload.MessagePack

open Wire (Value)

section Bytes

theorem take_append (bytes rest : List UInt8) :
    take bytes.length (bytes ++ rest) = some (bytes, rest) := by
  induction bytes with
  | nil => rfl
  | cons byte bytes ih =>
      rw [List.length_cons, List.cons_append, take, ih]
      rfl

@[simp] theorem length_bigEndian (width n : Nat) : (bigEndian width n).length = width := by
  induction width with
  | zero => rfl
  | succ width ih => rw [bigEndian, List.length_cons, ih]

theorem toNat_ofNat {n : Nat} (h : n < 256) : (UInt8.ofNat n).toNat = n :=
  UInt8.toNat_ofNat_of_lt' h

-- The digits read so far are shifted by those that follow.
theorem foldl_bigEndian (width n high : Nat) :
    (bigEndian width n).foldl (fun value byte => value * 256 + byte.toNat) high =
      high * 256 ^ width + n % 256 ^ width := by
  induction width generalizing high with
  | zero => simp [bigEndian, Nat.mod_one]
  | succ width ih =>
      have hshift : n >>> (8 * width) = n / 256 ^ width := by
        rw [Nat.shiftRight_eq_div_pow, Nat.pow_mul]
      rw [bigEndian, hshift, List.foldl_cons, ih, toNat_ofNat (Nat.mod_lt _ (by decide)),
        Nat.pow_succ, Nat.mod_mul, Nat.add_mul, Nat.mul_assoc, Nat.mul_comm 256 (256 ^ width),
        Nat.mul_comm (n / 256 ^ width % 256)]
      omega

theorem natural_bigEndian {width n : Nat} (h : n < 256 ^ width) (rest : List UInt8) :
    natural width (bigEndian width n ++ rest) = some (n, rest) := by
  have htake := take_append (bigEndian width n) rest
  rw [length_bigEndian] at htake
  rw [natural, htake, Option.map_some, ofBigEndian, foldl_bigEndian, Nat.mod_eq_of_lt h,
    Nat.zero_mul, Nat.zero_add]

theorem natural_bind {width n : Nat} (h : n < 256 ^ width) (rest : List UInt8)
    (next : Nat → List UInt8 → Step Value) :
    (natural width (bigEndian width n ++ rest)).bind (fun step => next step.1 step.2) =
      next n rest := by
  rw [natural_bigEndian h]
  rfl

theorem textOrBytes_utf8 (text : String) : textOrBytes (utf8 text) = .text text := by
  have h : String.fromUTF8? ⟨(utf8 text).toArray⟩ = some text := dif_pos text.isValidUTF8
  rw [textOrBytes, h]

end Bytes

section Headers

variable {length : Nat}

theorem body_textHeader (h : length < 2 ^ 32) (inner : Option (List UInt8 → Step Value))
    (rest : List UInt8) : body inner (textHeader length ++ rest) = fixedText length rest := by
  unfold textHeader
  split_ifs with hfix h8 h16
  · simp only [body, List.cons_append, List.nil_append,
      toNat_ofNat (show 0xa0 + length < 256 by omega)]
    rw [if_neg (by omega), if_neg (by omega), if_neg (by omega), if_pos (by omega),
      Nat.add_sub_cancel_left]
  · exact natural_bind (show length < 256 ^ 1 from h8) rest fixedText
  · exact natural_bind (show length < 256 ^ 2 from h16) rest fixedText
  · exact natural_bind (show length < 256 ^ 4 from h) rest fixedText

variable (item : List UInt8 → Step Value)

theorem body_listHeader (h : length < 2 ^ 32) (rest : List UInt8) :
    body (some item) (listHeader length ++ rest) = list item length rest := by
  unfold listHeader
  split_ifs with hfix h16
  · simp only [body, List.cons_append, List.nil_append,
      toNat_ofNat (show 0x90 + length < 256 by omega)]
    rw [if_neg (by omega), if_neg (by omega), if_pos (by omega), Nat.add_sub_cancel_left]
    rfl
  · exact natural_bind (show length < 256 ^ 2 from h16) rest (list item)
  · exact natural_bind (show length < 256 ^ 4 from h) rest (list item)

theorem body_mapHeader (h : length < 2 ^ 32) (rest : List UInt8) :
    body (some item) (mapHeader length ++ rest) = map item length rest := by
  unfold mapHeader
  split_ifs with hfix h16
  · simp only [body, List.cons_append, List.nil_append,
      toNat_ofNat (show 0x80 + length < 256 by omega)]
    rw [if_neg (by omega), if_pos (by omega), Nat.add_sub_cancel_left]
    rfl
  · exact natural_bind (show length < 256 ^ 2 from h16) rest (map item)
  · exact natural_bind (show length < 256 ^ 4 from h) rest (map item)

end Headers

section Values

variable {α : Type} {depth : Nat} {item : List UInt8 → Step Value}

-- The reader takes `bytes` for the value, whatever follows.
def Decodes (item : List UInt8 → Step Value) (bytes : List UInt8) (value : Value) : Prop :=
  ∀ rest, item (bytes ++ rest) = some (value, rest)

theorem decodes_text {text : String} (h : text.utf8ByteSize < 2 ^ 32) (depth : Nat) :
    Decodes (value depth) (writeText text) (.text text) := by
  intro rest
  have hbody (inner : Option (List UInt8 → Step Value)) :
      body inner (writeText text ++ rest) = some (.text text, rest) := by
    have hlength : (utf8 text).length < 2 ^ 32 := h
    rw [writeText, List.append_assoc, body_textHeader hlength, fixedText, take_append,
      Option.map_some, textOrBytes_utf8]
  cases depth with
  | zero => exact hbody none
  | succ depth => exact hbody (some (value depth))

theorem items_flatten {write : α → List UInt8} {read : α → Value} {ones : List α}
    (h : ∀ one ∈ ones, Decodes item (write one) (read one)) (rest : List UInt8) :
    items item ones.length ((ones.map write).flatten ++ rest) = some (ones.map read, rest) := by
  induction ones with
  | nil => rfl
  | cons one ones ih =>
      rw [List.length_cons, List.map_cons, List.flatten_cons, List.append_assoc, items,
        h one List.mem_cons_self, Option.bind_some]
      simp only [ih fun other hm => h other (List.mem_cons_of_mem one hm)]
      rfl

theorem decodes_list {write : α → List UInt8} {read : α → Value} {ones : List α}
    (hl : ones.length < 2 ^ 32) (h : ∀ one ∈ ones, Decodes (value depth) (write one) (read one)) :
    Decodes (value (depth + 1)) (writeList (ones.map write)) (.list (ones.map read)) := by
  intro rest
  rw [value, writeList, List.append_assoc, List.length_map, body_listHeader _ hl, list,
    items_flatten h]
  rfl

-- A member is written as its key and its value.
def Entry (item : List UInt8 → Step Value) (member : String × List UInt8) (entry : Value × Value) :
    Prop :=
  Decodes item (writeText member.1) entry.1 ∧ Decodes item member.2 entry.2

theorem Entry.of_decodes {key : String} {bytes : List UInt8} {content : Value}
    (hk : key.utf8ByteSize < 2 ^ 32) (h : Decodes (value depth) bytes content) :
    Entry (value depth) (key, bytes) (.text key, content) :=
  ⟨decodes_text hk depth, h⟩

theorem entry_text {key text : String} (hk : key.utf8ByteSize < 2 ^ 32)
    (ht : text.utf8ByteSize < 2 ^ 32) (depth : Nat) :
    Entry (value depth) (key, writeText text) (.text key, .text text) :=
  .of_decodes hk (decodes_text ht depth)

theorem entries_flatMap {members : List (String × List UInt8)} {all : List (Value × Value)}
    (h : List.Forall₂ (Entry item) members all) (rest : List UInt8) :
    entries item members.length
      ((members.flatMap fun member => writeText member.1 ++ member.2) ++ rest) =
        some (all, rest) := by
  induction h with
  | nil => rfl
  | cons hentry _ ih =>
      rw [List.length_cons, List.flatMap_cons, List.append_assoc, List.append_assoc, entries,
        hentry.1, Option.bind_some]
      simp only [hentry.2 _, Option.bind_some, ih]
      rfl

theorem decodes_map {members : List (String × List UInt8)} {all : List (Value × Value)}
    (hl : members.length < 2 ^ 32) (h : List.Forall₂ (Entry (value depth)) members all) :
    Decodes (value (depth + 1)) (writeMap members) (.map all) := by
  intro rest
  rw [value, writeMap, List.append_assoc, body_mapHeader _ hl, map, entries_flatMap h]
  rfl

end Values

end LiveReload.MessagePack
