import Dnssec.Hash.Hmac
import Dnssec.Arith.Modular

/-!
# `Dnssec.Signature.Nonce` — deterministic signature nonces (RFC 6979)

DSA and ECDSA need a fresh secret `k` below the group order `q` for every signature.  Following
RFC 6979, `k` is drawn from an HMAC generator seeded with the private key and the message hash:
blocks of the order's byte length are read from the generator until one, as a number, lies in
`(0, q)` and is invertible modulo `q`.  The search gives up after `fuel` blocks.
-/

namespace Dnssec.Nonce

/-- The first nonce candidate from `d` of `size` bytes that lies in `(0, q)` and is invertible
modulo `q`, with its inverse. -/
def search (q size : Nat) : Nat → Drbg → Option (Nat × Nat)
  | 0, _ => none
  | fuel + 1, d =>
    let (block, d) := d.generate size
    let k := Bytes.toNat block
    match Nat.invMod? k q with
    | some inv => if 0 < k && k < q then some (k, inv) else search q size fuel d
    | none => search q size fuel d

/-- How many candidates are tried before giving up. -/
def attempts : Nat := 1000

end Dnssec.Nonce
