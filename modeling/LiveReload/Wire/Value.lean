namespace LiveReload.Wire

-- How many bits an unsigned integer was written with.
inductive Width where
  | bits8
  | bits16
  | bits32
  | bits64
deriving DecidableEq

inductive Value where
  | null
  | bool (value : Bool)
  | unsigned (width : Width) (value : Nat)
  | signed (value : Int)
  | float (value : Float)
  | text (value : String)
  | bytes (value : List UInt8)
  | list (items : List Value)
  | map (entries : List (Value × Value))
  -- A typed blob whose meaning is private to its writer.
  | extension (type : UInt8) (payload : List UInt8)
deriving Inhabited

end LiveReload.Wire
