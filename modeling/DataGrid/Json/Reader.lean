import DataGrid.Json.Basic

/-
Reading a JSON text. The whole text must be one value with nothing but
white space around it; numbers have no leading zeros, and a string holds
control characters only as escapes.

`scanText` splits a string literal into units and `joinUnits` puts the
surrogate pairs among them together. `readValue` spends one unit of fuel on
each value or separator it enters, so the length of the text is enough.
-/

namespace DataGrid.Json

def isBlank (c : Char) : Bool := c = ' ' || c = '\n' || c = '\t' || c = '\r'

def skipBlanks (cs : List Char) : List Char := cs.dropWhile isBlank

/-! ## String literals -/

/-- What a string literal is made of: characters, and numbers given by a `\u` escape. -/
inductive TextUnit
  | plain (c : Char)
  | escaped (n : Nat)

def hexValue (c : Char) : Option Nat :=
  if '0' ≤ c ∧ c ≤ '9' then some (c.toNat - '0'.toNat)
  else if 'a' ≤ c ∧ c ≤ 'f' then some (c.toNat - 'a'.toNat + 10)
  else if 'A' ≤ c ∧ c ≤ 'F' then some (c.toNat - 'A'.toNat + 10)
  else none

def hexNumber (cs : List Char) : Option Nat :=
  cs.foldl (fun acc c => do return (← acc) * 16 + (← hexValue c)) (some 0)

/-- The character a backslash and a letter stand for. -/
def shortEscape (c : Char) : Option Char :=
  if c = '"' ∨ c = '\\' ∨ c = '/' then some c
  else if c = 'b' then some (Char.ofNat 8)
  else if c = 'f' then some (Char.ofNat 12)
  else if c = 'n' then some '\n'
  else if c = 'r' then some '\r'
  else if c = 't' then some '\t'
  else none

/-- The units up to the closing quote, and what follows it. -/
def scanText : List Char → Option (List TextUnit × List Char)
  | [] => none
  | '"' :: r => some ([], r)
  | '\\' :: 'u' :: a :: b :: c :: d :: r => do
    let n ← hexNumber [a, b, c, d]
    let (units, rest) ← scanText r
    return (.escaped n :: units, rest)
  | '\\' :: e :: r => do
    let c ← shortEscape e
    let (units, rest) ← scanText r
    return (.plain c :: units, rest)
  | c :: r => do
    if c.toNat < 32 then none
    let (units, rest) ← scanText r
    return (.plain c :: units, rest)

def isHighSurrogate (n : Nat) : Bool := 0xd800 ≤ n && n ≤ 0xdbff
def isLowSurrogate (n : Nat) : Bool := 0xdc00 ≤ n && n ≤ 0xdfff

/-- The text of the units; none if a surrogate stands alone. -/
def joinUnits : List TextUnit → Option (List Char)
  | [] => some []
  | .plain c :: r => (joinUnits r).map (c :: ·)
  | .escaped h :: .escaped l :: r =>
    if isHighSurrogate h then
      if isLowSurrogate l then
        (joinUnits r).map (Char.ofNat (0x10000 + (h - 0xd800) * 0x400 + (l - 0xdc00)) :: ·)
      else none
    else if isLowSurrogate h then none
    else (joinUnits (.escaped l :: r)).map (Char.ofNat h :: ·)
  | .escaped h :: r =>
    if isHighSurrogate h || isLowSurrogate h then none
    else (joinUnits r).map (Char.ofNat h :: ·)

/-! ## Numbers -/

def digitValue (cs : List Char) : Nat :=
  cs.foldl (fun n c => n * 10 + (c.toNat - '0'.toNat)) 0

/-- Skip one or more digits. -/
def skipDigits (cs : List Char) : Option (List Char) :=
  match cs with
  | c :: r => if c.isDigit then some (r.dropWhile Char.isDigit) else none
  | [] => none

/-- What follows the integer part of a number: the rest, and whether it stayed an integer. -/
def readTail (cs : List Char) : Option (Bool × List Char) := do
  let (whole, cs) ← match cs with
    | '.' :: r => (skipDigits r).map (false, ·)
    | _ => some (true, cs)
  match cs with
  | 'e' :: r | 'E' :: r =>
    let r := match r with
      | '+' :: r' | '-' :: r' => r'
      | _ => r
    (skipDigits r).map (false, ·)
  | _ => return (whole, cs)

def readNumber (cs : List Char) : Option (Json × List Char) := do
  let (negative, body) := match cs with
    | '-' :: r => (true, r)
    | _ => (false, cs)
  let ds := body.takeWhile Char.isDigit
  if ds = [] then none
  if ds.length > 1 ∧ ds.head? = some '0' then none
  let (whole, rest) ← readTail (body.dropWhile Char.isDigit)
  let n := digitValue ds
  if ¬ whole ∨ (negative ∧ n = 0) then return (.fraction, rest)
  return (.int (if negative then -n else n), rest)

/-! ## Values -/

def readWord (word : List Char) (value : Json) (cs : List Char) : Option (Json × List Char) :=
  if cs.take word.length = word then some (value, cs.drop word.length) else none

/-- The object of these fields, where a name may be broken. -/
def objectOf (fields : List (Option String × Json)) : Json :=
  match fields.mapM fun f => f.1.map (·, f.2) with
  | some fields => .object fields
  | none => .broken

mutual

/-- One value at the start of the text, and what follows it. -/
def readValue : Nat → List Char → Option (Json × List Char)
  | 0, _ => none
  | fuel + 1, cs =>
    match skipBlanks cs with
    | '\x7b' :: r =>
      match skipBlanks r with
      | '\x7d' :: r' => some (.object [], r')
      | r' => (readFields fuel r').map fun (fields, rest) => (objectOf fields, rest)
    | '[' :: r =>
      match skipBlanks r with
      | ']' :: r' => some (.array [], r')
      | r' => (readItems fuel r').map fun (items, rest) => (.array items, rest)
    | '"' :: r => do
      let (units, rest) ← scanText r
      match joinUnits units with
      | some s => return (.text (String.ofList s), rest)
      | none => return (.broken, rest)
    | 't' :: r => readWord "rue".toList (.bool true) r
    | 'f' :: r => readWord "alse".toList (.bool false) r
    | 'n' :: r => readWord "ull".toList .null r
    | cs' => readNumber cs'

/-- The items of an array that has at least one, up to its closing bracket. -/
def readItems : Nat → List Char → Option (List Json × List Char)
  | 0, _ => none
  | fuel + 1, cs => do
    let (item, rest) ← readValue fuel cs
    match skipBlanks rest with
    | ',' :: r =>
      let (items, rest') ← readItems fuel r
      return (item :: items, rest')
    | ']' :: r => return ([item], r)
    | _ => none

/-- The fields of an object that has at least one, up to its closing brace. -/
def readFields : Nat → List Char → Option (List (Option String × Json) × List Char)
  | 0, _ => none
  | fuel + 1, cs =>
    match skipBlanks cs with
    | '"' :: r => do
      let (units, rest) ← scanText r
      let name := (joinUnits units).map String.ofList
      match skipBlanks rest with
      | ':' :: r' =>
        let (value, rest') ← readValue fuel r'
        match skipBlanks rest' with
        | ',' :: r'' =>
          let (fields, rest'') ← readFields fuel r''
          return ((name, value) :: fields, rest'')
        | '\x7d' :: r'' => return ([(name, value)], r'')
        | _ => none
      | _ => none
    | _ => none

end

def ofChars (cs : List Char) : Option Json := do
  let (value, rest) ← readValue (cs.length + 1) cs
  if skipBlanks rest = [] then some value else none

/-- The value a text stands for, if it is a JSON text. -/
def parse (s : String) : Option Json := ofChars s.toList

end DataGrid.Json
