import Dnssec.Bytes
import Dnssec.Hash.Block
import Dnssec.Hash.Md5
import Dnssec.Hash.Sha1
import Dnssec.Hash.Sha256
import Dnssec.Hash.Sha512
import Dnssec.Hash.Function
import Dnssec.Hash.Hmac
import Dnssec.Arith.Modular
import Dnssec.Curve.Basic
import Dnssec.Text.Hex
import Dnssec.Error
import Dnssec.Name
import Dnssec.Algorithm
import Dnssec.Record
import Dnssec.RRset
import Dnssec.Key.Public
import Dnssec.Signature.Format
import Dnssec.Key.Private
import Dnssec.Signature.Rsa
import Dnssec.Signature.Nonce
import Dnssec.Signature.Dsa
import Dnssec.Signature.Ecdsa
import Dnssec.Message
import Dnssec.SignedData
import Dnssec.Validation
import Dnssec.Proofs.BigEndian
import Dnssec.Proofs.PowMod
import Dnssec.Proofs.Name
import Dnssec.Proofs.CanonicalOrder
import Dnssec.Proofs.SignedData
import Dnssec.Proofs.Except
import Dnssec.Proofs.SigFormat
import Dnssec.Proofs.KeyField
import Dnssec.Proofs.Rsa
import Dnssec.Proofs.Signing
import Dnssec.Proofs.Sig0
import Dnssec.Proofs.Append
import Dnssec.Proofs.SignedMessage
import Dnssec.Proofs.KeyCodec
import Dnssec.Proofs.VerifyOrder
import Dnssec.Proofs.SignedPrefix
import Dnssec.Proofs.NameText
import Dnssec.Proofs.TxtRdata
import Dnssec.Proofs.KeyTag
import Dnssec.Proofs.DerGrammar
import Dnssec.Proofs.RRset
import Dnssec.Proofs.DsRecord
import Dnssec.Proofs.NamePrint
import Dnssec.Proofs.NameWire
import Dnssec.Proofs.NaturalCodec
