import DataGrid.Json.Basic

/-
The compact text of a JSON value: no blanks, fields in the order in which
the value has them, and in strings only quotes, backslashes and control
characters below U+0020 escaped.
-/

namespace DataGrid.Json

def hexDigit (n : Nat) : Char :=
  if n < 10 then Char.ofNat ('0'.toNat + n) else Char.ofNat ('a'.toNat + (n - 10))

/-- How one character stands inside a string literal. -/
def escapeChar (c : Char) : List Char :=
  if c = '"' then ['\\', '"']
  else if c = '\\' then ['\\', '\\']
  else if c = '\n' then ['\\', 'n']
  else if c = '\r' then ['\\', 'r']
  else if c = '\t' then ['\\', 't']
  else if c.toNat = 8 then ['\\', 'b']
  else if c.toNat = 12 then ['\\', 'f']
  else if c.toNat < 32 then
    ['\\', 'u', '0', '0', hexDigit (c.toNat / 16), hexDigit (c.toNat % 16)]
  else [c]

def quote (s : List Char) : List Char := '"' :: s.flatMap escapeChar ++ ['"']

def digits (n : Nat) : List Char := Nat.toDigits 10 n

def intText : Int → List Char
  | .ofNat n => digits n
  | .negSucc n => '-' :: digits (n + 1)

/-- The pieces with commas between them. -/
def commaSeparated : List (List Char) → List Char
  | [] => []
  | [p] => p
  | p :: r => p ++ ',' :: commaSeparated r

mutual

def chars : Json → List Char
  | .null => "null".toList
  | .bool true => "true".toList
  | .bool false => "false".toList
  | .int n => intText n
  | .fraction => "0.0".toList
  | .text s => quote s.toList
  | .broken => "\"\\ud800\"".toList
  | .array items => '[' :: commaSeparated (itemChars items) ++ [']']
  | .object fields => '\x7b' :: commaSeparated (fieldChars fields) ++ ['\x7d']

def itemChars : List Json → List (List Char)
  | [] => []
  | j :: r => chars j :: itemChars r

def fieldChars : List (String × Json) → List (List Char)
  | [] => []
  | (k, j) :: r => (quote k.toList ++ ':' :: chars j) :: fieldChars r

end

def render (j : Json) : String := String.ofList (chars j)

end DataGrid.Json
