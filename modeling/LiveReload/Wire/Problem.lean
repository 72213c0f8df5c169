import LiveReload.Decimal.Layout
import LiveReload.Text.Quoted
import LiveReload.Wire.Value

namespace LiveReload.Wire

-- What stood in the place of the expected thing.
inductive Found where
  | null
  | bool (value : Bool)
  | integer (value : Int)
  | float (value : Float)
  | text (value : String)
  | bytes
  | sequence
  | map
  | extension

inductive Problem where
  | invalidType (found : Found) (expected : String)
  | invalidValue (found : Found) (expected : String)
  | invalidLength (length : Nat) (expected : String)
  | unknownVariant (name : String) (known : List String)
  | missingField (name : String)
  | duplicateField (name : String)

-- Numbers from a hundred-thousandth up to ten million billions are written positionally.
def Found.floatLayout : Decimal.Layout := ⟨-5, 15⟩

def Found.describe : Found → String
  | null => "null"
  | bool value => "boolean `" ++ toString value ++ "`"
  | integer value => "integer `" ++ toString value ++ "`"
  | float value => "floating point `" ++ floatLayout.float value ++ "`"
  | text value => "string " ++ Text.quoted value
  | bytes => "byte array"
  | sequence => "sequence"
  | map => "map"
  | extension => "newtype struct"

def Value.found : Value → Found
  | .null => .null
  | .bool value => .bool value
  | .unsigned _ value => .integer value
  | .signed value => .integer value
  | .float value => .float value
  | .text value => .text value
  | .bytes _ => .bytes
  | .list _ => .sequence
  | .map _ => .map
  | .extension _ _ => .extension

namespace Problem

def ticked (name : String) : String := "`" ++ name ++ "`"

-- Two names are joined by "or"; more are listed.
def oneOf (names : List String) : String :=
  match names with
  | [] => "there are no variants"
  | [a] => "expected " ++ ticked a
  | [a, b] => "expected " ++ ticked a ++ " or " ++ ticked b
  | _ => "expected one of " ++ ", ".intercalate (names.map ticked)

def message : Problem → String
  | invalidType found expected => "invalid type: " ++ found.describe ++ ", expected " ++ expected
  | invalidValue found expected => "invalid value: " ++ found.describe ++ ", expected " ++ expected
  | invalidLength length expected =>
    "invalid length " ++ toString length ++ ", expected " ++ expected
  | unknownVariant name known => "unknown variant " ++ ticked name ++ ", " ++ oneOf known
  | missingField name => "missing field " ++ ticked name
  | duplicateField name => "duplicate field " ++ ticked name

end Problem

def required {α : Type} (name : String) : Option α → Except Problem α
  | some value => .ok value
  | none => .error (.missingField name)

end LiveReload.Wire
