import AwsKms.Model.Client

/-!
# Where a setting comes from

The order in which the documentation has a profile, a region and an endpoint
looked for. The first value present wins, and an empty value is not present.
The profile comes first, since it decides which sections of the shared files
the other two are looked for in.
-/

namespace AwsKms.Spec

open AwsKms.Model

/-- The endpoint settings of the shared files. -/
structure SharedEndpoints where
  /-- the environment or the profile has them ignored, with those of the
  environment -/
  ignored : Bytes → Bool
  kms : Bytes → Bytes
  global : Bytes → Bytes

section

variable {Rest : Type}

/-- The SDK looks where it says it does. -/
structure DocumentedSdk (sdk : Sdk Rest) (shared : SharedEndpoints) : Prop where
  configProfileName : sdk.getConfigProfileName = firstNonEmpty
    [sdk.getEnv "AWS_DEFAULT_PROFILE", sdk.getEnv "AWS_PROFILE", ascii "default"]
  endpointSource : ∀ profile, sdk.endpointSource "kms" profile =
    if shared.ignored profile then []
    else firstNonEmpty [sdk.getEnv "AWS_ENDPOINT_URL_KMS",
      sdk.getEnv "AWS_ENDPOINT_URL", shared.kms profile, shared.global profile]

variable (q : ClientRequest Rest)

def documentedProfile : Bytes :=
  firstNonEmpty [ofPointer q.uri.profile, q.sdk.getEnv "AWS_DEFAULT_PROFILE",
    q.sdk.getEnv "AWS_PROFILE",
    if profileExists q.sdk (ascii "default") then ascii "default" else [],
    ofPointer q.provctx.profile, ascii "default"]

/-- The last source is the SDK's default, whatever it makes of the profile. -/
def documentedRegion : Bytes :=
  firstNonEmpty [ofPointer q.uri.region, q.sdk.getEnv "AWS_DEFAULT_REGION",
    q.sdk.getEnv "AWS_REGION", profileRegion q.sdk (documentedProfile q),
    ofPointer q.provctx.region,
    (q.sdk.clientConfiguration (pointerOf (documentedProfile q))).region]

/-- Empty where the SDK is left to take the region's own endpoint. -/
def documentedEndpoint (shared : SharedEndpoints) : Bytes :=
  let profile := documentedProfile q
  let aws := [q.sdk.getEnv "AWS_ENDPOINT_URL_KMS",
    q.sdk.getEnv "AWS_ENDPOINT_URL", shared.kms profile, shared.global profile]
  firstNonEmpty (ofPointer q.uri.endpoint ::
    ((if shared.ignored profile then [] else aws) ++
      [ofPointer q.provctx.endpoint]))

/-- A client built for the call goes where the documentation says; without an
endpoint the SDK's own is left in place. -/
structure GoesTo (shared : SharedEndpoints) (config : ClientConfiguration Rest) :
    Prop where
  profile : config.profileName = documentedProfile q ∧
    config.credentialProviderConfig.profile = documentedProfile q
  region : config.region = documentedRegion q ∧
    config.credentialProviderConfig.region = documentedRegion q
  endpoint : config.endpointOverride =
    if documentedEndpoint q shared = [] then
      (q.sdk.clientConfiguration (pointerOf (documentedProfile q))).endpointOverride
    else documentedEndpoint q shared
  fips : config.useFIPS = q.fipsRequired

end

/-- The region is one of China's, in whatever case. -/
def startsWithCn (region : Bytes) : Bool :=
  (region.take 3).map asciiLower = ascii "cn-"

end AwsKms.Spec
