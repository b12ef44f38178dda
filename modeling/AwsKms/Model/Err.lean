import AwsKms.Model.Host

/-!
# Provider errors

`AWSKMS_raise` takes a reason, a format and its arguments, and puts one error
on libcrypto's queue. The model keeps all three as the source spells them, so
that a statement about a refusal can name the refusal.
-/

namespace AwsKms.Model

/-- The reason codes of `err.h`. -/
inductive Reason where
  | invalidUri
  | noRegion
  | regionConflict
  | getPublicKeyFailed
  | signFailed
  | keyNotFound
  | keyDisabled
  | invalidKeyUsage
  | unsupportedKeySpec
  | accessDenied
  | throttled
  | noCredentials
  | unsupportedSaltLength
  | unsupportedDigest
  | unsupportedPadding
  | digestLengthMismatch
  | messageTooLarge
  | emptyMessage
  | privateKeyNotExportable
  | unsupportedParameter
  | malformedPublicKey
  | internalError
  | outputBufferTooSmall
  | fipsRouting
  | invalidKeyState
  deriving DecidableEq, Repr

/-- A `printf` argument. -/
inductive FmtArg where
  | bytes (b : Bytes)
  | text (s : String)
  | num (n : Int)
  deriving DecidableEq, Repr

/-- One error on the queue. -/
structure ProviderError where
  reason : Reason
  fmt : String
  args : List FmtArg
  deriving DecidableEq, Repr

end AwsKms.Model
