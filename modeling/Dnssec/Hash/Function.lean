import Dnssec.Hash.Md5
import Dnssec.Hash.Sha1
import Dnssec.Hash.Sha256
import Dnssec.Hash.Sha512

/-!
# `Dnssec.Hash.Function` — the message digests DNSSEC signs with

Each signing algorithm hashes its signed data with one of five functions.  `HashFunction` names
them; `digest`, `blockSize` and `digestSize` give what HMAC and the signature schemes need.

`HashFunction.Context` is the streaming form in which a hash library takes its input: data is
fed in pieces by `update`, and `finish` gives the digest of everything fed, in order.
-/

namespace Dnssec

/-- A message digest used by a DNSSEC algorithm. -/
inductive HashFunction
  | md5
  | sha1
  | sha256
  | sha384
  | sha512
  deriving DecidableEq, Repr

namespace HashFunction

/-- The digest of a message. -/
def digest : HashFunction → Bytes → Bytes
  | md5, m => Hash.Md5.digest m
  | sha1, m => Hash.Sha1.digest m
  | sha256, m => Hash.Sha256.digest m
  | sha384, m => Hash.Sha512.digest384 m
  | sha512, m => Hash.Sha512.digest512 m

/-- The input block size in bytes. -/
def blockSize : HashFunction → Nat
  | md5 | sha1 | sha256 => 64
  | sha384 | sha512 => 128

/-- The digest size in bytes. -/
def digestSize : HashFunction → Nat
  | md5 => 16
  | sha1 => 20
  | sha256 => 32
  | sha384 => 48
  | sha512 => 64

/-- A digest being computed: the function, and the bytes fed to it so far. -/
structure Context where
  hash : HashFunction
  absorbed : Bytes

/-- A computation that has been fed nothing yet. -/
def Context.new (h : HashFunction) : Context := ⟨h, []⟩

/-- Feeds more data. -/
def Context.update (c : Context) (data : Bytes) : Context := ⟨c.hash, c.absorbed ++ data⟩

/-- The digest of all the data fed. -/
def Context.finish (c : Context) : Bytes := c.hash.digest c.absorbed

@[simp] theorem Context.absorbed_new (h : HashFunction) : (Context.new h).absorbed = [] := rfl

@[simp] theorem Context.hash_new (h : HashFunction) : (Context.new h).hash = h := rfl

@[simp] theorem Context.absorbed_update (c : Context) (data : Bytes) :
    (c.update data).absorbed = c.absorbed ++ data := rfl

@[simp] theorem Context.hash_update (c : Context) (data : Bytes) :
    (c.update data).hash = c.hash := rfl

theorem Context.finish_eq (c : Context) : c.finish = c.hash.digest c.absorbed := rfl

/-- The conventional upper-case name of the function. -/
def name : HashFunction → String
  | md5 => "MD5"
  | sha1 => "SHA1"
  | sha256 => "SHA256"
  | sha384 => "SHA384"
  | sha512 => "SHA512"

end HashFunction

end Dnssec
