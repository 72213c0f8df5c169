namespace LiveReload.MessagePack

-- The low `width` bytes of `n`, the highest first.
def bigEndian : Nat → Nat → List UInt8
  | 0, _ => []
  | width + 1, n => .ofNat (n >>> (8 * width) % 256) :: bigEndian width n

def utf8 (text : String) : List UInt8 := text.toUTF8.data.toList

-- Each header is as small as it can be.
def textHeader (length : Nat) : List UInt8 :=
  if length < 32 then [.ofNat (0xa0 + length)]
  else if length < 0x100 then 0xd9 :: bigEndian 1 length
  else if length < 0x10000 then 0xda :: bigEndian 2 length
  else 0xdb :: bigEndian 4 length

def writeText (text : String) : List UInt8 := textHeader (utf8 text).length ++ utf8 text

def listHeader (length : Nat) : List UInt8 :=
  if length < 16 then [.ofNat (0x90 + length)]
  else if length < 0x10000 then 0xdc :: bigEndian 2 length
  else 0xdd :: bigEndian 4 length

-- The items are written already.
def writeList (items : List (List UInt8)) : List UInt8 := listHeader items.length ++ items.flatten

def mapHeader (length : Nat) : List UInt8 :=
  if length < 16 then [.ofNat (0x80 + length)]
  else if length < 0x10000 then 0xde :: bigEndian 2 length
  else 0xdf :: bigEndian 4 length

def writeMap (members : List (String × List UInt8)) : List UInt8 :=
  mapHeader members.length ++ members.flatMap fun member => writeText member.1 ++ member.2

end LiveReload.MessagePack
