/-
Identifiers of 128 bits, written as 26 digits of base 32. The digits are the
decimal ones and the capital letters without I, L, O and U; small letters are
read as well. Of the 130 bits that the digits can hold the top two are
dropped.
-/

namespace DataGrid

structure Ulid where
  bits : BitVec 128
deriving DecidableEq, Repr

namespace Ulid

def digits : List Char := "0123456789ABCDEFGHJKMNPQRSTVWXYZ".toList

/-- The number of digits. -/
def width : Nat := 26

def text (u : Ulid) : String :=
  String.ofList ((List.range width).map fun i =>
    digits.getD ((u.bits.toNat >>> (5 * (width - 1 - i))) % 32) '0')

def digitValue? (c : Char) : Option Nat := digits.findIdx? (· == c.toUpper)

/-- The identifier whose digits are the given numbers. -/
def ofDigits (ds : List Nat) : Ulid :=
  ⟨ds.foldl (fun bits d => (bits <<< 5) ||| BitVec.ofNat 128 d) 0⟩

def parse (s : String) : Option Ulid :=
  if s.toList.length = width then (s.toList.mapM digitValue?).map ofDigits else none

end Ulid
end DataGrid
