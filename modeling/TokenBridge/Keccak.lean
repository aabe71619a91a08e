import TokenBridge.Bytes

/-!
# Keccak-256

The state is five planes of five lanes, a lane being a word of 64 bits. A round is the composition
of the five step mappings `theta`, `rho` and `pi` (done together), `chi` and `iota`; the
permutation is twenty-four rounds that differ only in the constant that `iota` adds.

The sponge has a rate of 136 bytes and the padding `01 00 … 00 80`, whose first and last byte may
fall together as `81`. The digest is the first 32 bytes of the final state, each lane with its least
significant byte first.
-/

namespace TokenBridge

/-! ## The permutation on 1600 bits -/

namespace Keccak

/-- Five lanes with one vertical coordinate. -/
structure Plane where
  (a b c d e : UInt64)
  deriving DecidableEq

/-- Five planes. -/
structure State where
  (p q r s t : Plane)
  deriving DecidableEq

/-- A word turned left by fewer than 64 places. -/
def rotate (word places : UInt64) : UInt64 :=
  word <<< places ||| word >>> (64 - places)

namespace Plane

/-- Five zero lanes. -/
def zero : Plane := ⟨0, 0, 0, 0, 0⟩

/-- Lane by lane. -/
def xor (x y : Plane) : Plane :=
  ⟨x.a ^^^ y.a, x.b ^^^ y.b, x.c ^^^ y.c, x.d ^^^ y.d, x.e ^^^ y.e⟩

/-- For each column, the parity of the column before it and the turned parity of the one after. -/
def neighbours (parity : Plane) : Plane :=
  ⟨parity.e ^^^ rotate parity.b 1, parity.a ^^^ rotate parity.c 1, parity.b ^^^ rotate parity.d 1,
    parity.c ^^^ rotate parity.e 1, parity.d ^^^ rotate parity.a 1⟩

/-- The only non-linear step: a lane is flipped where the next is zero and the one after it one. -/
def chi (x : Plane) : Plane :=
  ⟨x.a ^^^ (~~~x.b &&& x.c), x.b ^^^ (~~~x.c &&& x.d), x.c ^^^ (~~~x.d &&& x.e),
    x.d ^^^ (~~~x.e &&& x.a), x.e ^^^ (~~~x.a &&& x.b)⟩

end Plane

namespace State

/-- The state before anything is absorbed. -/
def zero : State := ⟨.zero, .zero, .zero, .zero, .zero⟩

/-- One function on every plane. -/
def map (f : Plane → Plane) (x : State) : State :=
  ⟨f x.p, f x.q, f x.r, f x.s, f x.t⟩

/-- Lane by lane. -/
def xor (x y : State) : State :=
  ⟨x.p.xor y.p, x.q.xor y.q, x.r.xor y.r, x.s.xor y.s, x.t.xor y.t⟩

/-- Adds to every lane the parities of the two neighbouring columns. -/
def theta (x : State) : State :=
  let effect := ((((x.p.xor x.q).xor x.r).xor x.s).xor x.t).neighbours
  x.map (·.xor effect)

/-- Turns every lane by its own offset and moves it to its new place. -/
def rhoPi (x : State) : State :=
  ⟨⟨x.p.a, rotate x.q.b 44, rotate x.r.c 43, rotate x.s.d 21, rotate x.t.e 14⟩,
    ⟨rotate x.p.d 28, rotate x.q.e 20, rotate x.r.a 3, rotate x.s.b 45, rotate x.t.c 61⟩,
    ⟨rotate x.p.b 1, rotate x.q.c 6, rotate x.r.d 25, rotate x.s.e 8, rotate x.t.a 18⟩,
    ⟨rotate x.p.e 27, rotate x.q.a 36, rotate x.r.b 10, rotate x.s.c 15, rotate x.t.d 56⟩,
    ⟨rotate x.p.c 62, rotate x.q.d 55, rotate x.r.e 39, rotate x.s.a 41, rotate x.t.b 2⟩⟩

/-- Adds a round constant to the first lane. -/
def iota (x : State) (constant : UInt64) : State :=
  { x with p := { x.p with a := x.p.a ^^^ constant } }

/-- One round. -/
def round (x : State) (constant : UInt64) : State :=
  (x.theta.rhoPi.map Plane.chi).iota constant

/-- The constants of the twenty-four rounds. -/
def roundConstants : List UInt64 :=
  [0x0000000000000001, 0x0000000000008082, 0x800000000000808A, 0x8000000080008000,
    0x000000000000808B, 0x0000000080000001, 0x8000000080008081, 0x8000000000008009,
    0x000000000000008A, 0x0000000000000088, 0x0000000080008009, 0x000000008000000A,
    0x000000008000808B, 0x800000000000008B, 0x8000000000008089, 0x8000000000008003,
    0x8000000000008002, 0x8000000000000080, 0x000000000000800A, 0x800000008000000A,
    0x8000000080008081, 0x8000000000008080, 0x0000000080000001, 0x8000000080008008]

/-- All rounds. -/
def permute (x : State) : State :=
  roundConstants.foldl round x

end State

end Keccak

/-! ## The sponge -/

namespace Keccak

/-- Bytes absorbed between two permutations. -/
def rate : Nat := 136

/-- A word from at most eight bytes, least significant first. -/
def word (bytes : Bytes) : UInt64 :=
  bytes.foldr (fun b high => high <<< 8 ||| b.toUInt64) 0

/-- A plane from the first forty bytes; missing bytes are zero. -/
def Plane.ofBytes (bytes : Bytes) : Plane :=
  ⟨word (bytes.take 8), word ((bytes.drop 8).take 8), word ((bytes.drop 16).take 8),
    word ((bytes.drop 24).take 8), word ((bytes.drop 32).take 8)⟩

/-- A state from the first two hundred bytes; missing bytes are zero. -/
def State.ofBytes (bytes : Bytes) : State :=
  ⟨.ofBytes bytes, .ofBytes (bytes.drop 40), .ofBytes (bytes.drop 80), .ofBytes (bytes.drop 120),
    .ofBytes (bytes.drop 160)⟩

/-- Fills the message up to a positive multiple of the rate. -/
def pad (message : Bytes) : Bytes :=
  match rate - 1 - message.length % rate with
  | 0 => message ++ [0x81]
  | gap + 1 => message ++ 0x01 :: (List.replicate gap 0x00 ++ [0x80])

/-- Cuts into pieces of `rate` bytes. -/
def blocks (bytes : Bytes) : List Bytes :=
  if bytes = [] then [] else bytes.take rate :: blocks (bytes.drop rate)
termination_by bytes.length
decreasing_by
  have : bytes.length ≠ 0 := by simpa
  simp only [List.length_drop, rate]
  omega

/-- Mixes one block into the state. -/
def absorb (state : State) (block : Bytes) : State :=
  (state.xor (.ofBytes block)).permute

/-- Eight bytes, least significant first. -/
def wordBytes (w : UInt64) : Bytes :=
  (bigEndian 8 w.toNat).reverse

/-- The first four lanes. -/
def squeeze (state : State) : Word256 where
  bytes := wordBytes state.p.a ++ wordBytes state.p.b ++ wordBytes state.p.c ++ wordBytes state.p.d
  length_bytes := by simp [wordBytes]

end Keccak

/-- The Keccak-256 digest of a byte string. -/
def keccak256 (message : Bytes) : Word256 :=
  Keccak.squeeze ((Keccak.blocks (Keccak.pad message)).foldl Keccak.absorb .zero)

end TokenBridge
