import Dnssec.Arith.Modular

/-!
# `Dnssec.Curve.Basic` — the NIST prime curves P-256 and P-384

A curve `y² = x³ + a·x + b` over the integers modulo a prime `p`, with a generator `G` of prime
order `n`.  Field elements are naturals below `p`.

Arithmetic runs in Jacobian coordinates, where `(X, Y, Z)` stands for the affine point
`(X / Z², Y / Z³)` and `Z = 0` is the point at infinity, so that a scalar multiplication needs a
single field inversion, at the end (`JPoint.toAffine`).

* `Curve.params` — the domain parameters of SEC 2 / FIPS 186-4.
* `Curve.onCurve x y` — both coordinates are field elements and satisfy the equation.
* `Curve.mul k P` — the multiple `k·P` by double-and-add.
-/

namespace Dnssec

/-- The elliptic curves of the DNSSEC ECDSA algorithms. -/
inductive Curve
  | p256
  | p384
  deriving DecidableEq, Repr

/-- Short-Weierstrass domain parameters. -/
structure CurveParams where
  /-- The width of a field element in bytes. -/
  width : Nat
  /-- The field prime. -/
  p : Nat
  /-- The coefficient `a`. -/
  a : Nat
  /-- The coefficient `b`. -/
  b : Nat
  /-- The generator's `x`. -/
  gx : Nat
  /-- The generator's `y`. -/
  gy : Nat
  /-- The order of the generator. -/
  n : Nat

namespace Curve

/-- The domain parameters of each curve. -/
def params : Curve → CurveParams
  | p256 => {
      width := 32
      p := 0xffffffff00000001000000000000000000000000ffffffffffffffffffffffff
      a := 0xffffffff00000001000000000000000000000000fffffffffffffffffffffffc
      b := 0x5ac635d8aa3a93e7b3ebbd55769886bc651d06b0cc53b0f63bce3c3e27d2604b
      gx := 0x6b17d1f2e12c4247f8bce6e563a440f277037d812deb33a0f4a13945d898c296
      gy := 0x4fe342e2fe1a7f9b8ee7eb4a7c0f9e162bce33576b315ececbb6406837bf51f5
      n := 0xffffffff00000000ffffffffffffffffbce6faada7179e84f3b9cac2fc632551 }
  | p384 => {
      width := 48
      p := 0xfffffffffffffffffffffffffffffffffffffffffffffffffffffffffffffffeffffffff0000000000000000ffffffff
      a := 0xfffffffffffffffffffffffffffffffffffffffffffffffffffffffffffffffeffffffff0000000000000000fffffffc
      b := 0xb3312fa7e23ee7e4988e056be3f82d19181d9c6efe8141120314088f5013875ac656398d8a2ed19d2a85c8edd3ec2aef
      gx := 0xaa87ca22be8b05378eb1c71ef320ad746e1d3b628ba79b9859f741e082542a385502f25dbf55296c3a545e3872760ab7
      gy := 0x3617de4a96262c6f5d9e98bf9292dc29f8f41dbd289a147ce9da3113b5f0b8c00a60b1ce1d7e819d7a431d7c90ea0e5f
      n := 0xffffffffffffffffffffffffffffffffffffffffffffffffc7634d81f4372ddf581a0db248b0a77aecec196accc52973 }

/-- The width of a field element, and so of each coordinate and signature half, in bytes. -/
def width (c : Curve) : Nat := c.params.width

/-- The curve's name as DNSSEC texts write it. -/
def name : Curve → String
  | p256 => "P256"
  | p384 => "P384"

/-- `(x, y)` is a point of the curve: both coordinates are field elements and
`y² = x³ + a·x + b (mod p)`. -/
def onCurve (c : Curve) (x y : Nat) : Bool :=
  let P := c.params
  x < P.p && y < P.p && (y * y % P.p == (x * x * x + P.a * x + P.b) % P.p)

end Curve

/-- A curve point in Jacobian coordinates; `z = 0` is the point at infinity. -/
structure JPoint where
  x : Nat
  y : Nat
  z : Nat

namespace JPoint

/-- The point at infinity. -/
def infinity : JPoint := ⟨1, 1, 0⟩

/-- The affine point `(x, y)`. -/
def ofAffine (x y : Nat) : JPoint := ⟨x, y, 1⟩

/-- `2·P` over the field `P.p` with coefficient `P.a`. -/
def double (C : CurveParams) (q : JPoint) : JPoint :=
  let p := C.p
  if q.z % p = 0 || q.y % p = 0 then infinity
  else
    let yy := q.y * q.y % p
    let s := 4 * q.x * yy % p
    let zz := q.z * q.z % p
    let m := (3 * q.x * q.x + C.a * (zz * zz % p)) % p
    let x' := (m * m + 2 * (p - s)) % p
    let y' := (m * ((s + p - x') % p) + 8 * (p - yy * yy % p)) % p
    let z' := 2 * q.y * q.z % p
    ⟨x', y', z'⟩

/-- `P + Q` over the field `C.p`. -/
def add (C : CurveParams) (q r : JPoint) : JPoint :=
  let p := C.p
  if q.z % p = 0 then r
  else if r.z % p = 0 then q
  else
    let z1z1 := q.z * q.z % p
    let z2z2 := r.z * r.z % p
    let u1 := q.x * z2z2 % p
    let u2 := r.x * z1z1 % p
    let s1 := q.y * (r.z * z2z2 % p) % p
    let s2 := r.y * (q.z * z1z1 % p) % p
    if u1 = u2 then
      if s1 = s2 then double C q else infinity
    else
      let h := (u2 + p - u1) % p
      let rr := (s2 + p - s1) % p
      let hh := h * h % p
      let hhh := h * hh % p
      let v := u1 * hh % p
      let x' := (rr * rr + (p - hhh) + 2 * (p - v)) % p
      let y' := (rr * ((v + p - x') % p) + (p - s1 * hhh % p)) % p
      let z' := h * (q.z * r.z % p) % p
      ⟨x', y', z'⟩

/-- The multiple `k·P`, by halving `k`: `k·P = (k / 2)·(2·P) + (k % 2)·P`. -/
def mul (C : CurveParams) (k : Nat) (q : JPoint) : JPoint :=
  if k = 0 then infinity
  else
    let rest := mul C (k / 2) (double C q)
    if k % 2 = 1 then add C rest q else rest
termination_by k
decreasing_by omega

/-- The affine coordinates of a point, or `none` for the point at infinity. -/
def toAffine (C : CurveParams) (q : JPoint) : Option (Nat × Nat) :=
  match Nat.invMod? q.z C.p with
  | none => none
  | some zi =>
    let zi2 := zi * zi % C.p
    some (q.x * zi2 % C.p, q.y * (zi2 * zi % C.p) % C.p)

end JPoint

namespace Curve

/-- The generator in Jacobian coordinates. -/
def generator (c : Curve) : JPoint := JPoint.ofAffine c.params.gx c.params.gy

/-- `k·G` in affine coordinates, or `none` when it is the point at infinity. -/
def mulBase (c : Curve) (k : Nat) : Option (Nat × Nat) :=
  (JPoint.mul c.params k c.generator).toAffine c.params

end Curve

end Dnssec
