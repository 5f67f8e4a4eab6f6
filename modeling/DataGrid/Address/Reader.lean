import DataGrid.Address.Basic

/-
Reading an address. Numbers of a four byte address have one to three digits
and no leading zero. Of eight groups, each with one to four hexadecimal
digits, one run of zeros may be left out as `::`, and the last two may be
written as a four byte address. Nothing may follow, so no zone is accepted.

A reader takes the characters still to come and answers what it read and
what is left, or none and has then read nothing.
-/

namespace DataGrid.Address

def digitIn (base : Nat) (c : Char) : Option Nat :=
  let value :=
    if '0' ≤ c ∧ c ≤ '9' then some (c.toNat - '0'.toNat)
    else if 'a' ≤ c ∧ c ≤ 'z' then some (c.toNat - 'a'.toNat + 10)
    else if 'A' ≤ c ∧ c ≤ 'Z' then some (c.toNat - 'A'.toNat + 10)
    else none
  value.filter (· < base)

/-- A number of at most `most` digits, all those that stand there. -/
def readNumber (base most : Nat) (cs : List Char) : Option (Nat × List Char) :=
  let ds := cs.takeWhile fun c => (digitIn base c).isSome
  if ds = [] ∨ most < ds.length then none
  else some ((ds.filterMap (digitIn base)).foldl (fun n d => n * base + d) 0,
    cs.drop ds.length)

/-- One part of a four byte address. -/
def readByte (cs : List Char) : Option (UInt8 × List Char) := do
  let (n, rest) ← readNumber 10 3 cs
  if cs.head? = some '0' ∧ cs.length ≠ rest.length + 1 then none
  if 255 < n then none
  return (UInt8.ofNat n, rest)

def readSign (c : Char) : List Char → Option (List Char)
  | c' :: r => if c' = c then some r else none
  | [] => none

def readDotted (cs : List Char) : Option ((UInt8 × UInt8 × UInt8 × UInt8) × List Char) := do
  let (a, cs) ← readByte cs
  let (b, cs) ← readByte (← readSign '.' cs)
  let (c, cs) ← readByte (← readSign '.' cs)
  let (d, cs) ← readByte (← readSign '.' cs)
  return ((a, b, c, d), cs)

def joinBytes (high low : UInt8) : UInt16 := high.toUInt16 <<< 8 ||| low.toUInt16

/-- The characters after the colon that separates groups; the first group has none before it. -/
def afterColon (first : Bool) (cs : List Char) : Option (List Char) :=
  if first then some cs else readSign ':' cs

/-- As many groups as stand there, at most `room`: the groups, whether the last two were written
as a four byte address, and what is left. -/
def readGroups : Nat → Bool → List Char → List UInt16 × Bool × List Char
  | 0, _, cs => ([], false, cs)
  | room + 1, first, cs =>
    match (if room = 0 then none else (afterColon first cs).bind readDotted) with
    | some ((a, b, c, d), rest) => ([joinBytes a b, joinBytes c d], true, rest)
    | none =>
      match (afterColon first cs).bind (readNumber 16 4) with
      | some (n, rest) =>
        let (groups, dottedEnd, rest') := readGroups room false rest
        (UInt16.ofNat n :: groups, dottedEnd, rest')
      | none => ([], false, cs)

def ofGroups (groups : List UInt16) : Option Address :=
  if h : groups.length = 8 then some (.v6 ⟨groups.toArray, by simp [h]⟩) else none

def readV6 (cs : List Char) : Option (Address × List Char) := do
  let (head, dottedEnd, rest) := readGroups 8 true cs
  if head.length = 8 then return (← ofGroups head, rest)
  if dottedEnd then none
  let rest ← readSign ':' (← readSign ':' rest)
  let (tail, _, rest) := readGroups (7 - head.length) true rest
  let zeros := List.replicate (8 - head.length - tail.length) 0
  return (← ofGroups (head ++ zeros ++ tail), rest)

def read (cs : List Char) : Option (Address × List Char) :=
  match readDotted cs with
  | some ((a, b, c, d), rest) => some (.v4 a b c d, rest)
  | none => readV6 cs

/-- The address a text stands for. -/
def parse (s : String) : Option Address := do
  let (address, rest) ← read s.toList
  if rest = [] then some address else none

end DataGrid.Address
