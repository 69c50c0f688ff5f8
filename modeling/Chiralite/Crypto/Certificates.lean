import Chiralite.Protocol.Messages

/-!
# Keys and certificates

`crypto/certificates.py`, and what this program uses of the `cryptography` package. Keys,
signatures and certificates are the package's own objects; the model keeps what the program
reads of them. The package itself is the parameter `CryptoLib`, whose fields carry the
documented laws the program relies on: a signature verifies under the public key of its
signer, the two sides of an X25519 exchange agree, and HKDF answers with the length it is
asked for.

Every exception of `verify_chain` and `get_cn` is a `CertificateError`; the answers here are
their texts.
-/

namespace Chiralite

open Py

/-! ### Objects of the package -/

/-- A hash algorithm, as far as the program distinguishes them. -/
inductive HashAlgorithm where
  | sha256
  | other (name : Str)
  deriving DecidableEq

/-- A public key: Ed25519, elliptic curve, or a type the program does not support, by the name
of its Python class. -/
inductive PublicKey where
  | ed25519 (raw : Bytes)
  | ec (raw : Bytes)
  | other (typeName : Str)
  deriving DecidableEq

/-- A private key. -/
inductive PrivateKey where
  | ed25519 (raw : Bytes)
  | ec (raw : Bytes)
  | other (typeName : Str)
  deriving DecidableEq

/-- An X.509 certificate: what the program reads of it. A common name that is not a string is
`none`. -/
structure Certificate where
  notValidBeforeUtc : Int
  notValidAfterUtc : Int
  commonNames : List (Option Str)
  signature : Bytes
  tbsCertificateBytes : Bytes
  signatureHashAlgorithm : Option HashAlgorithm
  publicKey : PublicKey
  deriving DecidableEq

/-- The `cryptography` package, and `repr` of a string. -/
structure CryptoLib where
  /-- `Ed25519PrivateKey.public_key`. -/
  ed25519Public : Bytes → Bytes
  /-- `Ed25519PrivateKey.sign(data)`. -/
  ed25519Sign : Bytes → Bytes → Bytes
  /-- `Ed25519PublicKey.verify(signature, data)` does not raise. -/
  ed25519Verify : Bytes → Bytes → Bytes → Bool
  /-- `EllipticCurvePrivateKey.public_key`. -/
  ecPublic : Bytes → Bytes
  /-- `EllipticCurvePrivateKey.sign(data, ECDSA(algorithm))`. -/
  ecSign : Bytes → HashAlgorithm → Bytes → Bytes
  /-- `EllipticCurvePublicKey.verify(signature, data, ECDSA(algorithm))` does not raise. -/
  ecVerify : Bytes → HashAlgorithm → Bytes → Bytes → Bool
  /-- `load_pem_x509_certificate`, or the text of its exception. -/
  loadPem : Str → Except Str Certificate
  /-- `public_bytes(Encoding.PEM).decode()`. -/
  toPem : Certificate → Str
  /-- The raw public bytes of an X25519 private key. -/
  x25519Public : Bytes → Bytes
  /-- `X25519PrivateKey.exchange`; `none` where it raises. -/
  x25519Exchange : Bytes → Bytes → Option Bytes
  /-- HKDF-SHA256 of a secret with a salt and an info string, to 32 bytes. -/
  hkdf : Bytes → Bytes → Bytes → Bytes
  /-- `repr` of a string. -/
  reprStr : Str → Str
  ed25519_verify_sign : ∀ k data, ed25519Verify (ed25519Public k) (ed25519Sign k data) data = true
  ec_verify_sign : ∀ k alg data, ecVerify (ecPublic k) alg (ecSign k alg data) data = true
  length_x25519Public : ∀ k, (x25519Public k).length = 32
  x25519Exchange_comm : ∀ a b, x25519Exchange a (x25519Public b) = x25519Exchange b (x25519Public a)
  length_hkdf : ∀ secret salt info, (hkdf secret salt info).length = 32

/-! ### `certificates.py` -/

/-- `get_cn`. -/
def getCn (cert : Certificate) : Except Str Str :=
  match cert.commonNames with
  | [] => .error (lit "certificate has no Common Name")
  | none :: _ => .error (lit "certificate CN is not a string")
  | some cn :: _ => .ok cn

/-- A validity error names the certificate; reading the name can itself fail. -/
def validityError (L : CryptoLib) (text : String) (cert : Certificate) : Str :=
  match getCn cert with
  | .error err => err
  | .ok cn => lit text ++ lit " (CN=" ++ L.reprStr cn ++ lit ")"

/-- `verify_chain`, at the given time. -/
def verifyChain (L : CryptoLib) (now : Int) (cert caCert : Certificate) : Except Str Unit :=
  if cert.notValidBeforeUtc > now then
    .error (validityError L "certificate not yet valid" cert)
  else if cert.notValidAfterUtc < now then
    .error (validityError L "certificate has expired" cert)
  else
    match caCert.publicKey with
    | .ed25519 raw =>
      if L.ed25519Verify raw cert.signature cert.tbsCertificateBytes then .ok ()
      else .error (lit "signature verification failed")
    | .ec raw =>
      match cert.signatureHashAlgorithm with
      | none => .error (lit "ECDSA-signed cert is missing a hash algorithm")
      | some alg =>
        if L.ecVerify raw alg cert.signature cert.tbsCertificateBytes then .ok ()
        else .error (lit "signature verification failed")
    | .other typeName => .error (lit "unsupported CA key type: " ++ typeName)

end Chiralite
