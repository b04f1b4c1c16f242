import Dnssec.Hash.Function

/-!
# `Dnssec.Hash.Hmac` — HMAC (RFC 2104) and the HMAC deterministic bit generator

`hmac h key msg` is the keyed hash `H((K ⊕ opad) ‖ H((K ⊕ ipad) ‖ msg))`, the key first hashed
when longer than a block and then padded with zeros to a block.

`Drbg` is HMAC_DRBG without reseeding (NIST SP 800-90A, as used by RFC 6979 section 3.2 to derive
signature nonces): a key `K` and a value `V`, both one digest long, seeded from entropy, nonce and
personalisation bytes, and producing output one `V` at a time, with `K` and `V` refreshed after
each request.
-/

namespace Dnssec

/-- HMAC of `msg` under `key` with hash function `h`. -/
def hmac (h : HashFunction) (key msg : Bytes) : Bytes :=
  let k := if key.length > h.blockSize then h.digest key else key
  let k := k ++ List.replicate (h.blockSize - k.length) 0
  let inner := h.digest (k.map (· ^^^ 0x36) ++ msg)
  h.digest (k.map (· ^^^ 0x5c) ++ inner)

/-- The state of an HMAC deterministic random bit generator. -/
structure Drbg where
  /-- The underlying hash function. -/
  hash : HashFunction
  /-- The HMAC key `K`. -/
  key : Bytes
  /-- The chaining value `V`. -/
  value : Bytes

namespace Drbg

/-- One seeding round: `K ← HMAC(K, V ‖ round ‖ seed)`, then `V ← HMAC(K, V)`. -/
def absorb (d : Drbg) (round : UInt8) (seed : Bytes) : Drbg :=
  let key := hmac d.hash d.key (d.value ++ [round] ++ seed)
  { d with key, value := hmac d.hash key d.value }

/-- A generator seeded from `entropy`, `nonce` and `personal`, starting from `K = 00…00` and
`V = 01…01`. -/
def init (h : HashFunction) (entropy nonce personal : Bytes) : Drbg :=
  let start : Drbg := ⟨h, List.replicate h.digestSize 0, List.replicate h.digestSize 1⟩
  let seed := entropy ++ nonce ++ personal
  (start.absorb 0 seed).absorb 1 seed

/-- `count` successive values `V ← HMAC(K, V)`, concatenated, and the state after them. -/
def blocks (d : Drbg) : Nat → Bytes × Drbg
  | 0 => ([], d)
  | count + 1 =>
    let value := hmac d.hash d.key d.value
    let (rest, d') := blocks { d with value } count
    (value ++ rest, d')

/-- The next `n` output bytes and the state after the request, whose key and value are
refreshed by `K ← HMAC(K, V ‖ 00)`, `V ← HMAC(K, V)`. -/
def generate (d : Drbg) (n : Nat) : Bytes × Drbg :=
  let size := d.hash.digestSize
  let (out, d') := d.blocks ((n + size - 1) / size)
  let key := hmac d.hash d'.key (d'.value ++ [0])
  (out.take n, { d' with key, value := hmac d.hash key d'.value })

end Drbg

end Dnssec
