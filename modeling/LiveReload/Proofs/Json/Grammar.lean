import LiveReload.Json.Number
import LiveReload.Json.Text

namespace LiveReload.Json

-- `rest` stands behind some blanks.
inductive Blanks : List Char → List Char → Prop where
  | here (rest : List Char) : Blanks rest rest
  | blank {c : Char} {text rest : List Char} :
      isBlank c = true → Blanks text rest → Blanks (c :: text) rest

def isHexDigit (c : Char) : Bool :=
  '0' ≤ c && c ≤ '9' || 'a' ≤ c && c ≤ 'f' || 'A' ≤ c && c ≤ 'F'

def shortEscapes : List Char := ['"', '\\', '/', 'b', 'f', 'n', 'r', 't']

-- What may stand between quotes.
inductive Inside : List Char → Prop where
  | nil : Inside []
  | plain {c : Char} {text : List Char} :
      c ≠ '"' → c ≠ '\\' → ¬c < ' ' → Inside text → Inside (c :: text)
  | short {c : Char} {text : List Char} :
      c ∈ shortEscapes → Inside text → Inside ('\\' :: c :: text)
  | unit {digits text : List Char} :
      digits.length = 4 → digits.all isHexDigit → Inside text →
        Inside ('\\' :: 'u' :: (digits ++ text))

structure Quoted where
  inside : List Char
  grammatical : Inside inside

def Digits (digits : List Char) : Prop := digits ≠ [] ∧ digits.all isDigit

inductive FractionText : List Char → List Char → List Char → Prop where
  | absent (rest : List Char) : FractionText [] rest rest
  | present {digits rest : List Char} :
      Digits digits → FractionText digits ('.' :: (digits ++ rest)) rest

inductive ExponentText : Option (Bool × List Char) → List Char → List Char → Prop where
  | absent (rest : List Char) : ExponentText none rest rest
  | unsigned {mark : Char} {digits rest : List Char} :
      mark = 'e' ∨ mark = 'E' → Digits digits →
        ExponentText (some (false, digits)) (mark :: (digits ++ rest)) rest
  | positive {mark : Char} {digits rest : List Char} :
      mark = 'e' ∨ mark = 'E' → Digits digits →
        ExponentText (some (false, digits)) (mark :: '+' :: (digits ++ rest)) rest
  | negative {mark : Char} {digits rest : List Char} :
      mark = 'e' ∨ mark = 'E' → Digits digits →
        ExponentText (some (true, digits)) (mark :: '-' :: (digits ++ rest)) rest

-- A zero stands alone before the point.
inductive UnsignedText (numeral : Numeral) (text rest : List Char) : Prop where
  | mk {fraction exponent : List Char} :
      Digits numeral.whole → (numeral.whole.head? = some '0' → numeral.whole.length = 1) →
        text = numeral.whole ++ fraction → FractionText numeral.fraction fraction exponent →
          ExponentText numeral.exponent exponent rest → UnsignedText numeral text rest

inductive NumeralText (numeral : Numeral) : List Char → List Char → Prop where
  | unsigned {text rest : List Char} :
      numeral.negative = false → UnsignedText numeral text rest → NumeralText numeral text rest
  | signed {text rest : List Char} :
      numeral.negative = true → UnsignedText numeral text rest →
        NumeralText numeral ('-' :: text) rest

inductive Tree where
  | null
  | bool (value : Bool)
  | number (numeral : Numeral)
  | string (quoted : Quoted)
  | list (items : List Tree)
  | object (members : List (Quoted × Tree))

-- Every item but the first has a comma before it.
inductive Lead : Bool → List Char → List Char → Prop where
  | first (text : List Char) : Lead true text text
  | comma {text rest : List Char} : Blanks text (',' :: rest) → Lead false text rest

-- Items up to the closing bracket, which `rest` follows. The text of one item is given by `tells`.
inductive ListText (tells : Tree → List Char → List Char → Prop) :
    Bool → List Tree → List Char → List Char → Prop where
  | close {first : Bool} {text rest : List Char} :
      Blanks text (']' :: rest) → ListText tells first [] text rest
  | item {first : Bool} {item : Tree} {items : List Tree}
      {text start body behind rest : List Char} :
      Lead first text start → Blanks start body → tells item body behind →
        ListText tells false items behind rest → ListText tells first (item :: items) text rest

inductive ObjectText (tells : Tree → List Char → List Char → Prop) :
    Bool → List (Quoted × Tree) → List Char → List Char → Prop where
  | close {first : Bool} {text rest : List Char} :
      Blanks text ('\x7d' :: rest) → ObjectText tells first [] text rest
  | member {first : Bool} {key : Quoted} {value : Tree} {members : List (Quoted × Tree)}
      {text start colon afterColon body behind rest : List Char} :
      Lead first text start → Blanks start ('"' :: (key.inside ++ '"' :: colon)) →
        Blanks colon (':' :: afterColon) → Blanks afterColon body → tells value body behind →
          ObjectText tells false members behind rest →
            ObjectText tells first ((key, value) :: members) text rest

-- The text tells the tree, with `rest` behind it.
inductive Tells : Tree → List Char → List Char → Prop where
  | null (rest : List Char) : Tells .null ('n' :: 'u' :: 'l' :: 'l' :: rest) rest
  | yes (rest : List Char) : Tells (.bool true) ('t' :: 'r' :: 'u' :: 'e' :: rest) rest
  | no (rest : List Char) : Tells (.bool false) ('f' :: 'a' :: 'l' :: 's' :: 'e' :: rest) rest
  | number {numeral : Numeral} {text rest : List Char} :
      NumeralText numeral text rest → Tells (.number numeral) text rest
  | string (quoted : Quoted) (rest : List Char) :
      Tells (.string quoted) ('"' :: (quoted.inside ++ '"' :: rest)) rest
  | list {items : List Tree} {text rest : List Char} :
      ListText Tells true items text rest → Tells (.list items) ('[' :: text) rest
  | object {members : List (Quoted × Tree)} {text rest : List Char} :
      ObjectText Tells true members text rest → Tells (.object members) ('\x7b' :: text) rest

end LiveReload.Json
