/-
Network addresses, four bytes or eight groups of sixteen bits, and their texts.
Four bytes are written in decimal with dots. Groups are written in hexadecimal
without leading zeros; the leftmost of the longest runs of at least two zero
groups becomes `::`, and an address that embeds a four byte address is written
as `::ffff:` and that address.
-/

namespace DataGrid

inductive Address
  | v4 (a b c d : UInt8)
  | v6 (groups : Vector UInt16 8)
deriving DecidableEq, Repr

namespace Address

def localhost : Address := .v4 127 0 0 1

/-- The two bytes of a group, the high one first. -/
def groupBytes (g : UInt16) : List UInt8 := [(g >>> 8).toUInt8, g.toUInt8]

/-- The bytes of an address, first group first and high byte first. -/
def octets : Address → List UInt8
  | .v4 a b c d => [a, b, c, d]
  | .v6 groups => groups.toList.flatMap groupBytes

/-! ## The text -/

def decimal (n : Nat) : List Char := Nat.toDigits 10 n
def hexadecimal (n : Nat) : List Char := Nat.toDigits 16 n

def dotted (a b c d : UInt8) : List Char :=
  decimal a.toNat ++ '.' :: decimal b.toNat ++ '.' :: decimal c.toNat ++ '.' :: decimal d.toNat

/-- Groups with colons between them. -/
def colonSeparated : List UInt16 → List Char
  | [] => []
  | [g] => hexadecimal g.toNat
  | g :: r => hexadecimal g.toNat ++ ':' :: colonSeparated r

/-- Number of zero groups at the start. -/
def leadingZeros (groups : List UInt16) : Nat := (groups.takeWhile (· == 0)).length

/-- Place and length of the leftmost longest run of zero groups. -/
def longestZeros : Nat → List UInt16 → Nat × Nat
  | _, [] => (0, 0)
  | place, g :: r =>
    let here := leadingZeros (g :: r)
    let later := longestZeros (place + 1) r
    if here ≠ 0 ∧ later.2 ≤ here then (place, here) else later

def groupsText (groups : List UInt16) : List Char :=
  match groups with
  | [0, 0, 0, 0, 0, 0xffff, g, h] =>
    "::ffff:".toList
      ++ dotted (g >>> 8).toUInt8 g.toUInt8 (h >>> 8).toUInt8 h.toUInt8
  | _ =>
    let (start, length) := longestZeros 0 groups
    if 2 ≤ length then
      colonSeparated (groups.take start) ++ "::".toList
        ++ colonSeparated (groups.drop (start + length))
    else colonSeparated groups

def chars : Address → List Char
  | .v4 a b c d => dotted a b c d
  | .v6 groups => groupsText groups.toList

def text (a : Address) : String := String.ofList a.chars

end Address
end DataGrid
