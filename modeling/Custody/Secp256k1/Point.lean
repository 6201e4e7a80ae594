import Custody.Bytes

/-! # Points of the curve secp256k1

The curve is `y² = x³ + 7` over the integers modulo `fieldPrime`, with a generator of prime order
`order`. Sums are computed in Jacobian coordinates, where `(X, Y, Z)` stands for the point
`(X / Z², Y / Z³)` and `Z = 0` for the neutral element. The module also holds the encodings of a
point as 33 bytes (one coordinate and the parity of the other) and as 65 bytes.
-/

namespace Custody.Secp256k1

/-- The number of elements of the coordinate field. -/
def fieldPrime : Nat :=
  0xFFFFFFFFFFFFFFFFFFFFFFFFFFFFFFFFFFFFFFFFFFFFFFFFFFFFFFFEFFFFFC2F

/-- The order of the generator. -/
def order : Nat :=
  0xFFFFFFFFFFFFFFFFFFFFFFFFFFFFFFFEBAAEDCE6AF48A03BBFD25E8CD0364141

theorem order_pos : 0 < order := by decide

theorem one_lt_order : 1 < order := by decide

def powMod (modulus base exponent : Nat) : Nat :=
  if exponent = 0 then 1 % modulus
  else
    let root := powMod modulus (base * base % modulus) (exponent / 2)
    if exponent % 2 = 1 then base * root % modulus else root
termination_by exponent
decreasing_by omega

/-- The inverse of a number modulo a prime, and zero for multiples of the prime. -/
def invMod (prime n : Nat) : Nat :=
  powMod prime n (prime - 2)

def fieldSub (a b : Nat) : Nat :=
  (a + (fieldPrime - b)) % fieldPrime

/-- A pair of coordinates. -/
structure Point where
  x : Nat
  y : Nat
deriving DecidableEq, Inhabited

structure Jacobian where
  x : Nat
  y : Nat
  z : Nat

namespace Jacobian

def neutral : Jacobian := ⟨1, 1, 0⟩

def double (p : Jacobian) : Jacobian :=
  if p.z = 0 || p.y = 0 then neutral
  else
    let a := p.x * p.x % fieldPrime
    let b := p.y * p.y % fieldPrime
    let c := b * b % fieldPrime
    let d := 4 * p.x * b % fieldPrime
    let e := 3 * a
    let x := fieldSub (e * e % fieldPrime) (2 * d % fieldPrime)
    let y := fieldSub (e * fieldSub d x % fieldPrime) (8 * c % fieldPrime)
    ⟨x, y, 2 * p.y * p.z % fieldPrime⟩

def add (p q : Jacobian) : Jacobian :=
  if p.z = 0 then q
  else if q.z = 0 then p
  else
    let pz2 := p.z * p.z % fieldPrime
    let qz2 := q.z * q.z % fieldPrime
    let u := p.x * qz2 % fieldPrime
    let h := fieldSub (q.x * pz2 % fieldPrime) u
    let s := p.y * (q.z * qz2 % fieldPrime) % fieldPrime
    let r := fieldSub (q.y * (p.z * pz2 % fieldPrime) % fieldPrime) s
    if h = 0 then if r = 0 then double p else neutral
    else
      let h2 := h * h % fieldPrime
      let h3 := h * h2 % fieldPrime
      let v := u * h2 % fieldPrime
      let x := fieldSub (r * r % fieldPrime) ((h3 + 2 * v) % fieldPrime)
      let y := fieldSub (r * fieldSub v x % fieldPrime) (s * h3 % fieldPrime)
      ⟨x, y, h * (p.z * q.z % fieldPrime) % fieldPrime⟩

/-- The `n`-fold sum of a point. -/
def mul (n : Nat) (p : Jacobian) : Jacobian :=
  if n = 0 then neutral
  else
    let twice := (mul (n / 2) p).double
    if n % 2 = 1 then twice.add p else twice
termination_by n
decreasing_by omega

/-- The coordinates of a point other than the neutral element. -/
def toPoint? (p : Jacobian) : Option Point :=
  if p.z = 0 then none
  else
    let i := invMod fieldPrime p.z
    let i2 := i * i % fieldPrime
    some ⟨p.x * i2 % fieldPrime, p.y * (i * i2 % fieldPrime) % fieldPrime⟩

end Jacobian

namespace Point

def generator : Point :=
  ⟨0x79BE667EF9DCBBAC55A06295CE870B07029BFCDB2DCE28D959F2815B16F81798,
   0x483ADA7726A3C4655DA4FBFC0E1108A8FD17B448A68554199C47D08FFB10D4B8⟩

def toJacobian (p : Point) : Jacobian := ⟨p.x, p.y, 1⟩

/-- The right side of the curve's equation. -/
def curveRight (x : Nat) : Nat :=
  (x * x % fieldPrime * x + 7) % fieldPrime

/-- Whether both coordinates are field elements that satisfy the curve's equation. -/
def isOnCurve (p : Point) : Bool :=
  p.x < fieldPrime && p.y < fieldPrime && p.y * p.y % fieldPrime = curveRight p.x

/-- The point with a given first coordinate and parity of the second, if there is one. -/
def lift? (x : Nat) (odd : Bool) : Option Point :=
  let root := powMod fieldPrime (curveRight x) ((fieldPrime + 1) / 4)
  let y := if (root % 2 = 1) = odd then root else fieldPrime - root
  let p : Point := ⟨x, y⟩
  if p.isOnCurve then some p else none

/-- The encoding in 33 bytes: 2 or 3 by the parity of `y`, then `x`. -/
def compress (p : Point) : Bytes :=
  (if p.y % 2 = 1 then 3 else 2) :: Bytes.ofNatBE 32 p.x

/-- The point that 33 bytes encode. -/
def decompress? (bytes : Bytes) : Option Point :=
  match bytes with
  | tag :: x =>
    if x.length = 32 && (tag = 2 || tag = 3) then lift? (Bytes.toNatBE x) (tag = 3) else none
  | [] => none

/-- The point that 33 or 65 bytes encode. In the long form the tag is 4, or 6 or 7 by the parity
of `y`. -/
def decode? (bytes : Bytes) : Option Point :=
  match bytes with
  | tag :: coordinates =>
    if coordinates.length = 64 then
      let p : Point :=
        ⟨Bytes.toNatBE (coordinates.take 32), Bytes.toNatBE (coordinates.drop 32)⟩
      let tagged := tag = 4 || (tag = 6 && p.y % 2 = 0) || (tag = 7 && p.y % 2 = 1)
      if tagged && p.isOnCurve then some p else none
    else decompress? bytes
  | [] => none

theorem length_of_decompress? {bytes : Bytes} {point : Point}
    (read : decompress? bytes = some point) : bytes.length = 33 := by
  unfold decompress? at read
  split at read
  · simp only [Option.ite_none_right_eq_some, Bool.and_eq_true, decide_eq_true_eq] at read
    rw [List.length_cons, read.1.1]
  · cases read

/-- An encoding of a point has one of two lengths. -/
theorem length_of_decode? {bytes : Bytes} {point : Point} (read : decode? bytes = some point) :
    bytes.length = 33 ∨ bytes.length = 65 := by
  unfold decode? at read
  split at read
  · split at read
    · rename_i long
      exact .inr (by rw [List.length_cons, long])
    · exact .inl (length_of_decompress? read)
  · cases read

end Point

/-- The sum `a · generator + b · p`, unless it is the neutral element. -/
def combine (a b : Nat) (p : Point) : Option Point :=
  ((Point.generator.toJacobian.mul a).add (p.toJacobian.mul b)).toPoint?

end Custody.Secp256k1
