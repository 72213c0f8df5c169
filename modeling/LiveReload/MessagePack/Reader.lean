import LiveReload.Wire.Value

namespace LiveReload.MessagePack

open Wire (Value Width)

-- A value and the bytes behind it, or nothing if the bytes are no value.
abbrev Step (α : Type) := Option (α × List UInt8)

def take : Nat → List UInt8 → Step (List UInt8)
  | 0, bytes => some ([], bytes)
  | _ + 1, [] => none
  | count + 1, byte :: bytes => (take count bytes).map fun step => (byte :: step.1, step.2)

def ofBigEndian (bytes : List UInt8) : Nat := bytes.foldl (fun n byte => n * 256 + byte.toNat) 0

def natural (width : Nat) (bytes : List UInt8) : Step Nat :=
  (take width bytes).map fun step => (ofBigEndian step.1, step.2)

-- In two's complement.
def integer (width : Nat) (bytes : List UInt8) : Step Int :=
  (natural width bytes).map fun step =>
    let range := 1 <<< (8 * width)
    (if 2 * step.1 < range then step.1 else (step.1 : Int) - range, step.2)

-- Bytes that are no text stay bytes.
def textOrBytes (bytes : List UInt8) : Value :=
  match String.fromUTF8? ⟨bytes.toArray⟩ with
  | some text => .text text
  | none => .bytes bytes

def sized (width : Nat) (make : List UInt8 → Value) (bytes : List UInt8) : Step Value :=
  (natural width bytes).bind fun (length, bytes) =>
    (take length bytes).map fun step => (make step.1, step.2)

def fixedText (length : Nat) (bytes : List UInt8) : Step Value :=
  (take length bytes).map fun step => (textOrBytes step.1, step.2)

def extension (length : Nat) (bytes : List UInt8) : Step Value :=
  (take 1 bytes).bind fun (type, bytes) =>
    (take length bytes).map fun step => (.extension (type.headD 0) step.1, step.2)

section Containers

variable (item : List UInt8 → Step Value)

def items : Nat → List UInt8 → Step (List Value)
  | 0, bytes => some ([], bytes)
  | count + 1, bytes =>
    (item bytes).bind fun (value, bytes) =>
      (items count bytes).map fun step => (value :: step.1, step.2)

def entries : Nat → List UInt8 → Step (List (Value × Value))
  | 0, bytes => some ([], bytes)
  | count + 1, bytes =>
    (item bytes).bind fun (key, bytes) =>
      (item bytes).bind fun (value, bytes) =>
        (entries count bytes).map fun step => ((key, value) :: step.1, step.2)

def list (count : Nat) (bytes : List UInt8) : Step Value :=
  (items item count bytes).map fun step => (.list step.1, step.2)

def map (count : Nat) (bytes : List UInt8) : Step Value :=
  (entries item count bytes).map fun step => (.map step.1, step.2)

end Containers

-- `inner` reads what is inside a container; without it there may be none. An extension counts as
-- a container.
def body (inner : Option (List UInt8 → Step Value)) (bytes : List UInt8) : Step Value :=
  match bytes with
  | [] => none
  | marker :: rest =>
    let code := marker.toNat
    let unsigned (width : Nat) (bits : Width) :=
      (natural width rest).map fun step => (Value.unsigned bits step.1, step.2)
    let signed (width : Nat) :=
      (integer width rest).map fun step => (Value.signed step.1, step.2)
    let counted (width : Nat)
        (container : (List UInt8 → Step Value) → Nat → List UInt8 → Step Value) :=
      inner.bind fun inner => (natural width rest).bind fun step => container inner step.1 step.2
    let fixed (length : Nat) := inner.bind fun _ => extension length rest
    let typed (width : Nat) :=
      inner.bind fun _ => (natural width rest).bind fun step => extension step.1 step.2
    if code < 0x80 then some (.unsigned .bits8 code, rest)
    else if code < 0x90 then inner.bind fun inner => map inner (code - 0x80) rest
    else if code < 0xa0 then inner.bind fun inner => list inner (code - 0x90) rest
    else if code < 0xc0 then fixedText (code - 0xa0) rest
    else if 0xe0 ≤ code then some (.signed ((code : Int) - 0x100), rest)
    else
      match code with
      | 0xc0 => some (.null, rest)
      | 0xc2 => some (.bool false, rest)
      | 0xc3 => some (.bool true, rest)
      | 0xc4 => sized 1 .bytes rest
      | 0xc5 => sized 2 .bytes rest
      | 0xc6 => sized 4 .bytes rest
      | 0xc7 => typed 1
      | 0xc8 => typed 2
      | 0xc9 => typed 4
      | 0xca =>
        (natural 4 rest).map fun step => (.float (Float32.ofBits (.ofNat step.1)).toFloat, step.2)
      | 0xcb => (natural 8 rest).map fun step => (.float (Float.ofBits (.ofNat step.1)), step.2)
      | 0xcc => unsigned 1 .bits8
      | 0xcd => unsigned 2 .bits16
      | 0xce => unsigned 4 .bits32
      | 0xcf => unsigned 8 .bits64
      | 0xd0 => signed 1
      | 0xd1 => signed 2
      | 0xd2 => signed 4
      | 0xd3 => signed 8
      | 0xd4 => fixed 1
      | 0xd5 => fixed 2
      | 0xd6 => fixed 4
      | 0xd7 => fixed 8
      | 0xd8 => fixed 16
      | 0xd9 => sized 1 textOrBytes rest
      | 0xda => sized 2 textOrBytes rest
      | 0xdb => sized 4 textOrBytes rest
      | 0xdc => counted 2 list
      | 0xdd => counted 4 list
      | 0xde => counted 2 map
      | 0xdf => counted 4 map
      | _ => none

-- Reads a value with at most `depth` containers open at a time.
def value : Nat → List UInt8 → Step Value
  | 0, bytes => body none bytes
  | depth + 1, bytes => body (some (value depth)) bytes

end LiveReload.MessagePack
