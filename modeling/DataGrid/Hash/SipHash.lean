/-
The keyed hash SipHash-1-3 over bytes: one mixing round per block of eight
bytes and three at the end. Keys of a region are spread over its buckets by
this hash under the zero key.
-/

namespace DataGrid.SipHash

/-- The four words of the running state. -/
structure State where
  v0 : UInt64
  v1 : UInt64
  v2 : UInt64
  v3 : UInt64

def rotateLeft (x : UInt64) (n : UInt64) : UInt64 := (x <<< n) ||| (x >>> (64 - n))

/-- The state for the key `(k0, k1)`. -/
def State.start (k0 k1 : UInt64) : State where
  v0 := k0 ^^^ 0x736f6d6570736575
  v1 := k1 ^^^ 0x646f72616e646f6d
  v2 := k0 ^^^ 0x6c7967656e657261
  v3 := k1 ^^^ 0x7465646279746573

def State.round (s : State) : State :=
  let v0 := s.v0 + s.v1
  let v1 := rotateLeft s.v1 13 ^^^ v0
  let v0 := rotateLeft v0 32
  let v2 := s.v2 + s.v3
  let v3 := rotateLeft s.v3 16 ^^^ v2
  let v0 := v0 + v3
  let v3 := rotateLeft v3 21 ^^^ v0
  let v2 := v2 + v1
  let v1 := rotateLeft v1 17 ^^^ v2
  let v2 := rotateLeft v2 32
  ⟨v0, v1, v2, v3⟩

/-- Mix one block of eight bytes into the state. -/
def State.absorb (s : State) (block : UInt64) : State :=
  let s := ({ s with v3 := s.v3 ^^^ block } : State).round
  { s with v0 := s.v0 ^^^ block }

def State.finish (s : State) : UInt64 :=
  let s := ({ s with v2 := s.v2 ^^^ 0xff } : State).round.round.round
  s.v0 ^^^ s.v1 ^^^ s.v2 ^^^ s.v3

/-- The number whose bytes, least first, are `bytes`. -/
def littleEndian : List UInt8 → UInt64
  | [] => 0
  | b :: r => b.toUInt64 ||| (littleEndian r <<< 8)

/-- The blocks of a message: the last holds what is left and, in its top byte, the length. -/
def blocks (length : Nat) : List UInt8 → List UInt64
  | a :: b :: c :: d :: e :: f :: g :: h :: r =>
    littleEndian [a, b, c, d, e, f, g, h] :: blocks length r
  | r => [littleEndian r ||| (UInt64.ofNat length <<< 56)]

def hash (k0 k1 : UInt64) (bytes : List UInt8) : UInt64 :=
  ((blocks bytes.length bytes).foldl State.absorb (.start k0 k1)).finish

end DataGrid.SipHash

namespace DataGrid

/-- The low `n` bytes of a number, least first. -/
def bytesOf (n : Nat) (value : Nat) : List UInt8 :=
  (List.range n).map fun i => UInt8.ofNat (value >>> (8 * i))

/-- A text as fed to a hash: its UTF-8 bytes, closed by a byte no text contains. -/
def textBytes (s : String) : List UInt8 := s.toUTF8.toList ++ [0xff]

/-- The hash under the zero key. -/
def plainHash (bytes : List UInt8) : UInt64 := SipHash.hash 0 0 bytes

end DataGrid
