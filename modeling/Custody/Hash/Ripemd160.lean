import Custody.Hash.Sha256

/-! # RIPEMD-160

The hash of a byte string in 20 bytes, and its use on a SHA-256 digest, which names public keys
and scripts. Two lines of eighty rounds run over each block; their results are added crosswise.
-/

namespace Custody.Ripemd160

def rotl (x : UInt32) (n : UInt32) : UInt32 :=
  (x <<< n) ||| (x >>> (32 - n))

structure State where
  a : UInt32
  b : UInt32
  c : UInt32
  d : UInt32
  e : UInt32
deriving DecidableEq

def initial : State :=
  ⟨0x67452301, 0xefcdab89, 0x98badcfe, 0x10325476, 0xc3d2e1f0⟩

/-- Word index of each left round. -/
def leftIndex : List Nat := [
  0, 1, 2, 3, 4, 5, 6, 7, 8, 9, 10, 11, 12, 13, 14, 15,
  7, 4, 13, 1, 10, 6, 15, 3, 12, 0, 9, 5, 2, 14, 11, 8,
  3, 10, 14, 4, 9, 15, 8, 1, 2, 7, 0, 6, 13, 11, 5, 12,
  1, 9, 11, 10, 0, 8, 12, 4, 13, 3, 7, 15, 14, 5, 6, 2,
  4, 0, 5, 9, 7, 12, 2, 10, 14, 1, 3, 8, 11, 6, 15, 13]

def rightIndex : List Nat := [
  5, 14, 7, 0, 9, 2, 11, 4, 13, 6, 15, 8, 1, 10, 3, 12,
  6, 11, 3, 7, 0, 13, 5, 10, 14, 15, 8, 12, 4, 9, 1, 2,
  15, 5, 1, 3, 7, 14, 6, 9, 11, 8, 12, 2, 10, 0, 4, 13,
  8, 6, 4, 1, 3, 11, 15, 0, 5, 12, 2, 13, 9, 7, 10, 14,
  12, 15, 10, 4, 1, 5, 8, 7, 6, 2, 13, 14, 0, 3, 9, 11]

/-- Rotation of each left round. -/
def leftShift : List UInt32 := [
  11, 14, 15, 12, 5, 8, 7, 9, 11, 13, 14, 15, 6, 7, 9, 8,
  7, 6, 8, 13, 11, 9, 7, 15, 7, 12, 15, 9, 11, 7, 13, 12,
  11, 13, 6, 7, 14, 9, 13, 15, 14, 8, 13, 6, 5, 12, 7, 5,
  11, 12, 14, 15, 14, 15, 9, 8, 9, 14, 5, 6, 8, 6, 5, 12,
  9, 15, 5, 11, 6, 8, 13, 12, 5, 12, 13, 14, 11, 8, 5, 6]

def rightShift : List UInt32 := [
  8, 9, 9, 11, 13, 15, 15, 5, 7, 7, 8, 11, 14, 14, 12, 6,
  9, 13, 15, 7, 12, 8, 9, 11, 7, 7, 12, 7, 6, 15, 13, 11,
  9, 7, 15, 11, 8, 6, 6, 14, 12, 13, 5, 14, 13, 13, 7, 5,
  15, 5, 8, 11, 14, 14, 6, 14, 6, 9, 12, 9, 12, 5, 15, 8,
  8, 5, 12, 9, 12, 5, 14, 6, 8, 13, 6, 5, 15, 13, 11, 11]

/-- A mixing function of three words, with the constant added beside it. -/
structure Stage where
  mix : UInt32 → UInt32 → UInt32 → UInt32
  constant : UInt32

/-- The five mixing functions, each with a constant. -/
def stages (constants : List UInt32) : List Stage :=
  List.zipWith Stage.mk
    [fun x y z => x ^^^ y ^^^ z,
     fun x y z => (x &&& y) ||| (~~~x &&& z),
     fun x y z => (x ||| ~~~y) ^^^ z,
     fun x y z => (x &&& z) ||| (y &&& ~~~z),
     fun x y z => x ^^^ (y ||| ~~~z)]
    constants

/-- Each stage sixteen times over. -/
def perRound (stages : List Stage) : List Stage :=
  stages.flatMap (List.replicate 16)

def leftStages : List Stage :=
  perRound (stages [0, 0x5a827999, 0x6ed9eba1, 0x8f1bbcdc, 0xa953fd4e])

/-- Stages of the right line, whose mixing functions run in the opposite order. -/
def rightStages : List Stage :=
  perRound (stages [0, 0x7a6d76e9, 0x6d703ef3, 0x5c4dd124, 0x50a28be6]).reverse

def round (s : State) (stage : Stage) (word shift : UInt32) : State :=
  ⟨s.e, rotl (s.a + stage.mix s.b s.c s.d + word + stage.constant) shift + s.e,
    s.b, rotl s.c 10, s.d⟩

/-- The rounds of one line over a block. -/
def line (block : Array UInt32) (s : State) : List Stage → List Nat → List UInt32 → State
  | stage :: stages, index :: indices, shift :: shifts =>
    line block (round s stage (block.getD index 0) shift) stages indices shifts
  | _, _, _ => s

/-- The word of four bytes, least significant first. -/
def word (a b c d : UInt8) : UInt32 :=
  Sha256.word d c b a

def words : Bytes → List UInt32
  | a :: b :: c :: d :: rest => word a b c d :: words rest
  | _ => []

/-- Takes one block of 64 bytes into the state. -/
def compress (s : State) (block : Bytes) : State :=
  let w := (words block).toArray
  let l := line w s leftStages leftIndex leftShift
  let r := line w s rightStages rightIndex rightShift
  ⟨s.b + l.c + r.d, s.c + l.d + r.e, s.d + l.e + r.a, s.e + l.a + r.b, s.a + l.b + r.c⟩

/-- Takes the blocks of a padded message into the state. -/
def absorb (s : State) : Bytes → State
  | [] => s
  | b :: rest => absorb (compress s (b :: rest.take 63)) (rest.drop 63)
termination_by message => message.length
decreasing_by simp only [List.length_drop, List.length_cons]; omega

/-- A message with a one bit, zeros up to 8 bytes short of a block, and its length in bits. -/
def pad (message : Bytes) : Bytes :=
  let zeros := (119 - message.length % 64) % 64
  message ++ 0x80 :: (List.replicate zeros 0 ++ Bytes.ofNatLE 8 (8 * message.length))

/-- The bytes of a state, each word least significant byte first. -/
def State.bytes (s : State) : Bytes :=
  (Sha256.wordBytes s.a).reverse ++ (Sha256.wordBytes s.b).reverse
    ++ (Sha256.wordBytes s.c).reverse ++ (Sha256.wordBytes s.d).reverse
    ++ (Sha256.wordBytes s.e).reverse

def hash (message : Bytes) : Bytes :=
  (absorb initial (pad message)).bytes

/-- The digest of the SHA-256 digest. -/
def hash160 (message : Bytes) : Bytes :=
  hash (Sha256.hash message)

@[simp] theorem length_hash (message : Bytes) : (hash message).length = 20 := rfl

@[simp] theorem length_hash160 (message : Bytes) : (hash160 message).length = 20 := rfl

end Custody.Ripemd160
