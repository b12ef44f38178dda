import AwsKms.Proofs.Reach

/-!
# A host to run the provider on

The provider runs on any host, and a statement about it is best tried on one
that answers like a real libcrypto does. This one knows four digests and four
public keys, with their real encodings, and answers for them what libcrypto
answers on the few messages the runs of this development feed it: digests of
`abc`, the `mu` of `abc` under two context strings and an all-zero ML-DSA-44
key, one ECDSA and one Ed25519 signature, and one RSA-PSS signature with a
20-byte salt.
-/

namespace AwsKms.Model

open AwsKms.Lib

namespace Bench

def abc : Bytes := ascii "abc"

def sha256Abc : Bytes := [
  0xba, 0x78, 0x16, 0xbf, 0x8f, 0x01, 0xcf, 0xea, 0x41, 0x41, 0x40, 0xde,
  0x5d, 0xae, 0x22, 0x23, 0xb0, 0x03, 0x61, 0xa3, 0x96, 0x17, 0x7a, 0x9c,
  0xb4, 0x10, 0xff, 0x61, 0xf2, 0x00, 0x15, 0xad]

def sha384Abc : Bytes := [
  0xcb, 0x00, 0x75, 0x3f, 0x45, 0xa3, 0x5e, 0x8b, 0xb5, 0xa0, 0x3d, 0x69,
  0x9a, 0xc6, 0x50, 0x07, 0x27, 0x2c, 0x32, 0xab, 0x0e, 0xde, 0xd1, 0x63,
  0x1a, 0x8b, 0x60, 0x5a, 0x43, 0xff, 0x5b, 0xed, 0x80, 0x86, 0x07, 0x2b,
  0xa1, 0xe7, 0xcc, 0x23, 0x58, 0xba, 0xec, 0xa1, 0x34, 0xc8, 0x25, 0xa7]

def sha3_256Abc : Bytes := [
  0x3a, 0x98, 0x5d, 0xa7, 0x4f, 0xe2, 0x25, 0xb2, 0x04, 0x5c, 0x17, 0x2d,
  0x6b, 0xd3, 0x90, 0xbd, 0x85, 0x5f, 0x08, 0x6e, 0x3e, 0x9d, 0x52, 0x5b,
  0x46, 0xbf, 0xe2, 0x45, 0x11, 0x43, 0x15, 0x32]

/-- An EC public key on P-256. -/
def ecSpki : Bytes := [
  0x30, 0x59, 0x30, 0x13, 0x06, 0x07, 0x2a, 0x86, 0x48, 0xce, 0x3d, 0x02,
  0x01, 0x06, 0x08, 0x2a, 0x86, 0x48, 0xce, 0x3d, 0x03, 0x01, 0x07, 0x03,
  0x42, 0x00, 0x04, 0x60, 0xfe, 0xd4, 0xba, 0x25, 0x5a, 0x9d, 0x31, 0xc9,
  0x61, 0xeb, 0x74, 0xc6, 0x35, 0x6d, 0x68, 0xc0, 0x49, 0xb8, 0x92, 0x3b,
  0x61, 0xfa, 0x6c, 0xe6, 0x69, 0x62, 0x2e, 0x60, 0xf2, 0x9f, 0xb6, 0x79,
  0x03, 0xfe, 0x10, 0x08, 0xb8, 0xbc, 0x99, 0xa4, 0x1a, 0xe9, 0xe9, 0x56,
  0x28, 0xbc, 0x64, 0xf2, 0xf1, 0xb2, 0x0c, 0x2d, 0x7e, 0x9f, 0x51, 0x77,
  0xa3, 0xc2, 0x94, 0xd4, 0x46, 0x22, 0x99]

/-- A signature of the SHA-256 of `abc` under that key. -/
def ecSig : Bytes := [
  0x30, 0x46, 0x02, 0x21, 0x00, 0xd6, 0x1a, 0xe0, 0x11, 0x1b, 0xe5, 0x10,
  0x26, 0xe8, 0x40, 0x08, 0xb5, 0x17, 0xa0, 0x35, 0x18, 0xc3, 0x8d, 0x02,
  0xf5, 0xf1, 0x55, 0x7e, 0xad, 0x24, 0x9f, 0x60, 0x74, 0xc9, 0xdc, 0xaf,
  0x6c, 0x02, 0x21, 0x00, 0xe2, 0xbf, 0x07, 0x31, 0xe1, 0xfd, 0x33, 0xb5,
  0x7a, 0x5e, 0x64, 0x9e, 0x4b, 0x67, 0x12, 0x69, 0x19, 0x3d, 0x19, 0xd8,
  0x98, 0xbb, 0x34, 0x77, 0x8e, 0x58, 0x3b, 0xf1, 0xcc, 0xaa, 0x6d, 0x2a]

def edSpki : Bytes := [
  0x30, 0x2a, 0x30, 0x05, 0x06, 0x03, 0x2b, 0x65, 0x70, 0x03, 0x21, 0x00,
  0x3d, 0x40, 0x17, 0xc3, 0xe8, 0x43, 0x89, 0x5a, 0x92, 0xb7, 0x0a, 0xa7,
  0x4d, 0x1b, 0x7e, 0xbc, 0x9c, 0x98, 0x2c, 0xcf, 0x2e, 0xc4, 0x96, 0x8c,
  0xc0, 0xcd, 0x55, 0xf1, 0x2a, 0xf4, 0x66, 0x0c]

/-- The signature of the one-byte message 72 under that key. -/
def edSig : Bytes := [
  0x92, 0xa0, 0x09, 0xa9, 0xf0, 0xd4, 0xca, 0xb8, 0x72, 0x0e, 0x82, 0x0b,
  0x5f, 0x64, 0x25, 0x40, 0xa2, 0xb2, 0x7b, 0x54, 0x16, 0x50, 0x3f, 0x8f,
  0xb3, 0x76, 0x22, 0x23, 0xeb, 0xdb, 0x69, 0xda, 0x08, 0x5a, 0xc1, 0xe4,
  0x3e, 0x15, 0x99, 0x6e, 0x45, 0x8f, 0x36, 0x13, 0xd0, 0xf1, 0x1d, 0x8c,
  0x38, 0x7b, 0x2e, 0xae, 0xb4, 0x30, 0x2a, 0xee, 0xb0, 0x0d, 0x29, 0x16,
  0x12, 0xbb, 0x0c, 0x00]

def rsaSpki : Bytes := [
  0x30, 0x82, 0x01, 0x22, 0x30, 0x0d, 0x06, 0x09, 0x2a, 0x86, 0x48, 0x86,
  0xf7, 0x0d, 0x01, 0x01, 0x01, 0x05, 0x00, 0x03, 0x82, 0x01, 0x0f, 0x00,
  0x30, 0x82, 0x01, 0x0a, 0x02, 0x82, 0x01, 0x01, 0x00, 0xb5, 0x10, 0x96,
  0x49, 0x6b, 0xe4, 0x5d, 0xff, 0x4e, 0x77, 0x4d, 0xcb, 0xe7, 0x2d, 0x72,
  0x25, 0x13, 0x37, 0x6e, 0x3c, 0xc2, 0x6e, 0x22, 0x87, 0x6e, 0x92, 0xe1,
  0x85, 0x3a, 0xd3, 0x45, 0xe5, 0xc7, 0x7a, 0xda, 0x60, 0x21, 0x31, 0xc4,
  0xfe, 0x54, 0x62, 0xbd, 0x02, 0xf3, 0xfb, 0x89, 0x1e, 0x0a, 0x3b, 0x93,
  0xae, 0x2c, 0x23, 0x11, 0xaf, 0x83, 0xe6, 0x25, 0x7f, 0xf8, 0xe7, 0x65,
  0x80, 0xb6, 0x05, 0x5a, 0x26, 0xc4, 0xb1, 0x28, 0xce, 0xde, 0x05, 0xf3,
  0x95, 0x8e, 0xf4, 0x80, 0x65, 0xa8, 0x93, 0x59, 0xc2, 0x27, 0x46, 0x72,
  0xe9, 0x92, 0xa5, 0x7e, 0xfb, 0x85, 0x04, 0x97, 0x1c, 0x33, 0x80, 0xb4,
  0x33, 0x0d, 0xff, 0x4c, 0xc3, 0x2c, 0xef, 0xf8, 0x8e, 0xe0, 0x44, 0xe7,
  0x4b, 0x2c, 0xd9, 0xb7, 0x11, 0x2b, 0x08, 0x1f, 0x89, 0x8a, 0x24, 0x03,
  0xb6, 0xfc, 0xf5, 0xc3, 0xca, 0x64, 0xf2, 0x1f, 0x6d, 0x82, 0xaa, 0xf9,
  0x54, 0xdd, 0x22, 0x59, 0x09, 0xe1, 0x20, 0x65, 0x67, 0x6c, 0xe7, 0x15,
  0xf4, 0xb0, 0xe3, 0x05, 0xc3, 0xe8, 0x9f, 0xec, 0xf7, 0x92, 0xed, 0x0b,
  0x6a, 0xa5, 0xbd, 0x75, 0xde, 0x8b, 0x80, 0x14, 0xf1, 0x3a, 0xf8, 0xe2,
  0xac, 0xe4, 0x9f, 0x5d, 0x87, 0xc1, 0xcb, 0x18, 0x17, 0x8a, 0x9b, 0x49,
  0xaa, 0xf6, 0x6b, 0x9b, 0xf1, 0x01, 0xdd, 0xc9, 0x79, 0xaf, 0xc3, 0xb8,
  0x81, 0x41, 0xcc, 0x54, 0x49, 0x1a, 0x08, 0x8d, 0x32, 0x09, 0x16, 0xdc,
  0xd8, 0xf6, 0x2f, 0x8b, 0x91, 0x0b, 0x82, 0xbb, 0xba, 0x2b, 0x22, 0x4a,
  0x59, 0x38, 0xf3, 0xc4, 0x57, 0x46, 0xea, 0xb1, 0x2b, 0xae, 0x39, 0x71,
  0x06, 0xe2, 0x52, 0xa9, 0x86, 0x14, 0x7a, 0x7e, 0x77, 0x8f, 0xea, 0x94,
  0x12, 0xc6, 0x47, 0xe8, 0x4d, 0x58, 0xc4, 0x75, 0xbe, 0xb3, 0xd6, 0x6d,
  0xe9, 0x02, 0x03, 0x01, 0x00, 0x01]

/-- An RSA-PSS signature over the SHA-256 of `abc`, with 20 bytes of salt. -/
def rsaSig : Bytes := [
  0xa1, 0x78, 0xa0, 0x8e, 0xbb, 0xee, 0x66, 0xba, 0x3e, 0x17, 0xe9, 0x94,
  0xe1, 0x04, 0x77, 0x01, 0xf2, 0xa4, 0xaf, 0x3d, 0x46, 0xfd, 0x9f, 0x53,
  0x99, 0x14, 0xd4, 0x3c, 0xd3, 0x77, 0xea, 0xd1, 0x6b, 0x09, 0x8f, 0xc9,
  0x9f, 0x6f, 0x1a, 0x28, 0xec, 0x35, 0x21, 0x70, 0x1a, 0xa5, 0xd7, 0x1c,
  0x95, 0xc3, 0x41, 0x29, 0x07, 0x44, 0x59, 0x05, 0xb9, 0xdc, 0x12, 0xfa,
  0x59, 0x2c, 0x82, 0xd4, 0xf0, 0x34, 0x89, 0x90, 0xbf, 0x8c, 0x51, 0x0f,
  0xe9, 0x0a, 0x8a, 0xd8, 0x56, 0xdb, 0x6b, 0xb1, 0x68, 0xd4, 0xea, 0x2e,
  0xb9, 0x7e, 0xb7, 0x11, 0xbc, 0x9d, 0xde, 0xdc, 0x62, 0x8a, 0x73, 0x0a,
  0x7b, 0xea, 0x1d, 0x83, 0x01, 0x18, 0x36, 0x92, 0xf5, 0xab, 0x85, 0x1c,
  0xd1, 0x8c, 0xed, 0xd0, 0xc7, 0xfa, 0xd6, 0xd6, 0xd4, 0x89, 0xde, 0x7a,
  0xf5, 0x3f, 0xec, 0xaf, 0x30, 0xf0, 0x24, 0x4d, 0x5b, 0xc4, 0xd3, 0xc1,
  0x30, 0x4e, 0xeb, 0xdb, 0xbf, 0xcb, 0x08, 0x51, 0xdd, 0x06, 0xce, 0x5d,
  0x21, 0x01, 0xf5, 0xf2, 0x9b, 0xe8, 0x33, 0x79, 0x5e, 0x2f, 0x56, 0xc8,
  0x15, 0x27, 0xb8, 0x7d, 0xed, 0xa6, 0x8f, 0x3b, 0x35, 0x6f, 0x9c, 0xd0,
  0x49, 0x9d, 0x44, 0xca, 0x4b, 0x68, 0x62, 0x1b, 0x84, 0x3f, 0x64, 0xd1,
  0x7a, 0x5e, 0x08, 0xd3, 0x8c, 0x8e, 0xf1, 0x8d, 0x07, 0xfd, 0xb3, 0xf8,
  0x6c, 0xf9, 0x4b, 0x66, 0x73, 0x25, 0xf6, 0xa1, 0x6e, 0xad, 0x1d, 0x0c,
  0x03, 0x5a, 0xbb, 0x67, 0x2a, 0x90, 0x6e, 0xce, 0x94, 0xad, 0xf3, 0xfe,
  0x21, 0x54, 0x35, 0xa7, 0xd1, 0xec, 0xc0, 0xb8, 0x99, 0xf4, 0x6b, 0x58,
  0x80, 0x0f, 0xc3, 0xb6, 0xa2, 0x37, 0xf7, 0xdf, 0xb3, 0x5e, 0x9a, 0x57,
  0x29, 0xfd, 0x6d, 0xf5, 0xdd, 0x8f, 0x5b, 0x9d, 0xf1, 0x0c, 0x15, 0xda,
  0xc5, 0xfa, 0x69, 0x56]

/-- The all-zero ML-DSA-44 public key. -/
def mlDsaRaw : Bytes := List.replicate 1312 0

def mlDsaSpki : Bytes :=
  [
  0x30, 0x82, 0x05, 0x32, 0x30, 0x0b, 0x06, 0x09, 0x60, 0x86, 0x48, 0x01,
  0x65, 0x03, 0x04, 0x03, 0x11, 0x03, 0x82, 0x05, 0x21, 0x00] ++ mlDsaRaw

def mlDsaTr : Bytes := [
  0x00, 0x28, 0xad, 0xcd, 0x94, 0x1e, 0x9a, 0x73, 0x9a, 0x27, 0xca, 0xd3,
  0x08, 0x6c, 0x6e, 0x53, 0x70, 0x6e, 0xfa, 0xd6, 0x6b, 0xe7, 0x3c, 0x58,
  0xb0, 0xca, 0x78, 0x52, 0xa0, 0xc8, 0x73, 0x31, 0x49, 0x91, 0x86, 0xa5,
  0xc3, 0xff, 0x26, 0x2c, 0x35, 0x52, 0x6f, 0x0b, 0x58, 0x28, 0xe1, 0xca,
  0x01, 0x3f, 0x6a, 0xd6, 0xcd, 0xde, 0x81, 0xd1, 0xd1, 0xb5, 0x73, 0xd6,
  0x56, 0x1c, 0xf5, 0xf4]

/-- `mu` of `abc` under the context string `A`. -/
def muA : Bytes := [
  0x17, 0x30, 0xa8, 0x05, 0x66, 0x83, 0xcf, 0x72, 0xb7, 0x13, 0x13, 0x6f,
  0xb1, 0xb5, 0x78, 0xf2, 0x47, 0xe0, 0x5a, 0x5c, 0xb9, 0x6f, 0x12, 0xae,
  0x2d, 0x5b, 0x14, 0xf3, 0x75, 0x50, 0xc8, 0xa5, 0xa5, 0x5e, 0x52, 0x6c,
  0x26, 0x1d, 0xad, 0xf8, 0x86, 0x76, 0x8d, 0x37, 0x4a, 0xef, 0x58, 0x58,
  0x36, 0xe6, 0x69, 0xb3, 0x1c, 0xf6, 0x83, 0x45, 0x26, 0xf8, 0x0c, 0xc4,
  0x37, 0xe5, 0xdf, 0xe0]

/-- `mu` of `abc` under the context string `B`. -/
def muB : Bytes := [
  0x1c, 0xcf, 0xbf, 0xa5, 0xe8, 0x5c, 0xac, 0x61, 0x7d, 0xb4, 0x6e, 0x62,
  0xb3, 0x07, 0x9c, 0xa3, 0x22, 0xdf, 0xce, 0x03, 0x0c, 0x6b, 0xca, 0xc8,
  0xa9, 0xb4, 0x33, 0xc8, 0xef, 0x49, 0x91, 0xb7, 0x90, 0xc8, 0x76, 0xf1,
  0x16, 0xfe, 0x36, 0x47, 0xe7, 0xab, 0x56, 0x40, 0x56, 0xdb, 0x4d, 0x19,
  0x50, 0x15, 0x35, 0xff, 0x9e, 0x0e, 0xb0, 0x25, 0x52, 0x22, 0xf6, 0x4c,
  0xaa, 0xfa, 0xfe, 0xd4]

inductive Digest where
  | sha256
  | sha384
  | sha3_256
  | shake256
  deriving DecidableEq, Repr

inductive PubKey where
  | ec
  | ed25519
  | rsa
  | mlDsa
  /-- the curve of `ec`, with no point -/
  | ecDomain
  deriving DecidableEq, Repr

def Digest.names : Digest → List String
  | .sha256 => ["SHA2-256", "SHA-256", "SHA256"]
  | .sha384 => ["SHA2-384", "SHA-384", "SHA384"]
  | .sha3_256 => ["SHA3-256"]
  | .shake256 => ["SHAKE-256", "SHAKE256"]

def Digest.isA (alg : Digest) (name : Bytes) : Bool :=
  alg.names.any fun n => awskmsAsciiEqual name (ascii n)

def Digest.hash (alg : Digest) (msg : Bytes) : Bytes :=
  if msg = abc then
    match alg with
    | .sha256 => sha256Abc
    | .sha384 => sha384Abc
    | .sha3_256 => sha3_256Abc
    | .shake256 => []
  else []

def shake256 (msg : Bytes) : Bytes :=
  if msg = mlDsaRaw then mlDsaTr
  else if msg = muInput mlDsaTr (ascii "A") abc then muA
  else if msg = muInput mlDsaTr (ascii "B") abc then muB
  else List.replicate 64 0

def host : Host Digest PubKey where
  longBits := 64
  mdIsA := Digest.isA
  mdName alg := ascii (alg.names.headD "")
  mdXof alg := alg = .shake256
  hash := Digest.hash
  shake256 := shake256
  pkeyIsA
    | .ec, "EC" | .ecDomain, "EC" | .ed25519, "ED25519" | .rsa, "RSA"
    | .mlDsa, "ML-DSA-44" => true
    | _, _ => false
  pkeyGroup
    | .ec | .ecDomain => some "prime256v1"
    | _ => none
  pkeyBits
    | .ec | .ecDomain => 256
    | .ed25519 => 256
    | .rsa => 2048
    | .mlDsa => 10496
  pkeySize
    | .ec | .ecDomain => 72
    | .ed25519 => 64
    | .rsa => 256
    | .mlDsa => 2420
  pkeyPub
    | .ec => some (ecSpki.drop 26)
    | .ed25519 => some (edSpki.drop 12)
    | .mlDsa => some mlDsaRaw
    | .rsa | .ecDomain => none
  pkeyHasN key := key = .rsa
  pkeyDomain
    | .ec => some .ecDomain
    | _ => none
  pkeyEq a b := a = b
  pkeyParametersEq a b := a = b || (a = .ec && b = .ecDomain) ||
    (a = .ecDomain && b = .ec)
  verify
    | .rsa, params, sig, tbs => params.padding = some .pss &&
        params.saltlen = some 20 && params.md = some .sha256 && sig = rsaSig &&
        tbs = sha256Abc
    | .ec, params, sig, tbs => params.md = some .sha256 && sig = ecSig &&
        tbs = sha256Abc
    | _, _, _, _ => false
  digestVerify key params sig msg := key = .ed25519 &&
    params.context = none && sig = edSig && msg = [0x72]
  adaParse s := ⟨true, s.take 8, s.drop 8, [], []⟩
  adaSearchParams _ := []

/-- The key material behind a key id. -/
def material (keyId : Option Bytes) : Option AwskmsPublicKey :=
  if keyId = some (ascii "alias/ec") then some ⟨"ECC_NIST_P256", ecSpki⟩
  else if keyId = some (ascii "alias/ed") then
    some ⟨"ECC_NIST_EDWARDS25519", edSpki⟩
  else if keyId = some (ascii "alias/rsa") then some ⟨"RSA_2048", rsaSpki⟩
  else if keyId = some (ascii "alias/mldsa") then
    some ⟨"ML_DSA_44", mlDsaSpki⟩
  else none

def notFound : ProviderError := ⟨.keyNotFound, "%s", []⟩

/-- An environment in which nothing fails. The signature it answers with is
the real one where there is one above, and otherwise stands for one of the
right length. -/
def env : Env Digest PubKey where
  ok _ := true
  defaultFips := false
  mdFetch name _ :=
    [Digest.sha256, .sha384, .sha3_256, .shake256].find? fun alg => alg.isA name
  d2iPubkey der _ :=
    if der = ecSpki then some (.ec, ecSpki.length)
    else if der = edSpki then some (.ed25519, edSpki.length)
    else if der = rsaSpki then some (.rsa, rsaSpki.length)
    else if der = mlDsaSpki then some (.mlDsa, mlDsaSpki.length)
    else none
  getPublicKey uri _ :=
    match material uri.keyId with
    | some answer => .ok answer
    | none => .error notFound
  sign req :=
    match material req.uri.keyId with
    | some answer =>
        if answer.keySpec = "ECC_NIST_EDWARDS25519" then .ok edSig
        else if answer.keySpec = "ECC_NIST_P256" then .ok (List.replicate 70 1)
        else if answer.keySpec = "RSA_2048" then .ok rsaSig
        else .ok (List.replicate 2420 1)
    | none => .error notFound

/-- The raw public value in a SubjectPublicKeyInfo. -/
def rawOf (der : Bytes) : Bytes :=
  if der = mlDsaSpki then mlDsaRaw
  else if der = edSpki then edSpki.drop 12
  else ecSpki.drop 26

/-- A call on the first context. -/
def onCtx (sc : SigCall) : Call := .sig 0 sc

/-- Opens a store on a key id, loads the key, and makes a context. -/
def opening (keyId : String) (table : SigTable) : List Call := [
  .storeOpen (some (ascii ("aws-kms:key-id=" ++ keyId))),
  .storeLoad 0 ⟨true, true⟩,
  .sigNewctx table none]

/-- A large enough output buffer. -/
def buf : SigBuf := ⟨false, false, 4096⟩

/-- A string parameter. -/
def strParam (key value : String) : OsslParam :=
  ⟨key, .utf8String (some (ascii value))⟩

/-- The calls, in that environment. -/
def inputs (calls : List Call) : List (Input Digest PubKey) :=
  calls.map fun call => ⟨call, env⟩

/-- The records the calls make from the start. -/
def runOf (calls : List Call) :
    List (Rec (Sys Digest PubKey) (Input Digest PubKey) Event) :=
  (provider host).records (provider host).start (inputs calls)

/-- The state they leave. -/
def stateOf (calls : List Call) : Sys Digest PubKey :=
  (provider host).drive (provider host).start (inputs calls)

/-- The record a call makes after some others. -/
def recOf (calls : List Call) (call : Call) :
    Rec (Sys Digest PubKey) (Input Digest PubKey) Event :=
  (provider host).recordAfter (inputs calls) ⟨call, env⟩

theorem recOf_pre (calls : List Call) (call : Call) :
    (recOf calls call).pre = stateOf calls := rfl

theorem runOf_snoc (calls : List Call) (call : Call) :
    runOf (calls ++ [call]) = runOf calls ++ [recOf calls call] := by
  rw [runOf, inputs, List.map_append, Machine.records_append]
  rfl

theorem run_runOf {calls : List Call}
    (ha : (provider host).AllowedAll (provider host).start (inputs calls)) :
    (provider host).Run (runOf calls) (stateOf calls) :=
  Machine.run_records ha

theorem runOf_env {calls : List Call}
    {e : Rec (Sys Digest PubKey) (Input Digest PubKey) Event}
    (he : e ∈ runOf calls) : e.input.env = env := by
  obtain ⟨call, _, hcall⟩ := List.mem_map.mp (Machine.records_input he)
  rw [← hcall]

theorem shake256_length (m : Bytes) : (host.shake256 m).length = 64 := by
  change (shake256 m).length = 64
  unfold shake256
  split
  · rfl
  · split
    · rfl
    · split
      · rfl
      · rfl

end Bench

end AwsKms.Model
