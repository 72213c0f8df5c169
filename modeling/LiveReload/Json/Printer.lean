namespace LiveReload.Json

def hexDigit (n : Nat) : Char := if n < 10 then .ofNat ('0'.toNat + n) else .ofNat ('a'.toNat + (n - 10))

-- Only what must be escaped is.
-- Controls without a short escape are written by their two low hexadecimal digits.
def escapedChar (c : Char) : List Char :=
  match c with
  | '"' => ['\\', '"']
  | '\\' => ['\\', '\\']
  | '\x08' => ['\\', 'b']
  | '\x0c' => ['\\', 'f']
  | '\n' => ['\\', 'n']
  | '\r' => ['\\', 'r']
  | '\t' => ['\\', 't']
  | c =>
    if c < ' ' then ['\\', 'u', '0', '0', hexDigit (c.toNat / 16), hexDigit (c.toNat % 16)]
    else [c]

def printText (text : String) : List Char := '"' :: text.toList.flatMap escapedChar ++ ['"']

def separated (items : List (List Char)) : List Char := List.intercalate [','] items

def printList (items : List (List Char)) : List Char := '[' :: separated items ++ [']']

-- The values are printed already.
def printObject (members : List (String × List Char)) : List Char :=
  '\x7b' :: separated (members.map fun member => printText member.1 ++ ':' :: member.2) ++ ['\x7d']

end LiveReload.Json
