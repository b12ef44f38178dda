import AwsKms.Lib.Text
import AwsKms.Model.Uri

/-!
# The `aws-kms:` URI scheme

What a URI of the scheme names, over the pieces a URL parser cuts it into. The
attributes are a list, but nothing said of them depends on its order: a field
of the result is an attribute that is there, and an attribute is there once at
most.
-/

namespace AwsKms.Spec

open AwsKms.Lib AwsKms.Model

/-- The `;`-separated items of an opaque path that are not empty. -/
def pathAttrs (pathname : Bytes) : List Bytes :=
  (pathname.splitOn 59).filter (· ≠ [])

/-- The item is `name=value`, and these are its name and its decoded value. -/
def IsAttr (item : Bytes) (attr : Bytes × Bytes) : Prop :=
  61 ∉ attr.1 ∧ ∃ value, item = attr.1 ++ 61 :: value ∧
    PercentDecodes value attr.2

/-- Every name is one of two, and occurs once at most. -/
structure EachOnce (name name' : String) (attrs : List (Bytes × Bytes)) :
    Prop where
  known : ∀ attr ∈ attrs, attr.1 = ascii name ∨ attr.1 = ascii name'
  once : (attrs.map (·.1)).Nodup

/-- A KMS key ARN, and the region it names. -/
def ArnRegion (id region : Bytes) : Prop :=
  region ≠ [] ∧ 58 ∉ region ∧ ∃ partition account rest, 58 ∉ partition ∧
    58 ∉ account ∧ id = ascii "arn:" ++ (partition ++ 58 :: (ascii "kms" ++
      58 :: (region ++ 58 :: (account ++ 58 :: rest))))

/-- What a URL with these path attributes and query pairs names. -/
structure Names (url : AdaUrl) (attrs pairs : List (Bytes × Bytes))
    (uri : AwskmsUri) : Prop where
  valid : url.valid = true
  scheme : url.protocol = ascii "aws-kms:"
  fragment : url.hash = []
  path : List.Forall₂ IsAttr (pathAttrs url.pathname) attrs
  pathNames : EachOnce "key-id" "region" attrs
  queryNames : EachOnce "profile" "endpoint" pairs
  queryValues : ∀ pair ∈ pairs, 0 ∉ pair.2
  keyId : ∃ id, id ≠ [] ∧ uri.keyId = some id ∧ (ascii "key-id", id) ∈ attrs ∧
    (∀ arn region, ArnRegion id arn → (ascii "region", region) ∈ attrs →
      region = arn) ∧
    ∀ region, uri.region = some region ↔
      (ascii "region", region) ∈ attrs ∨ ArnRegion id region
  profile : ∀ v, uri.profile = some v ↔ (ascii "profile", v) ∈ pairs
  endpoint : ∀ v, uri.endpoint = some v ↔ (ascii "endpoint", v) ∈ pairs

/-- The URI a URL names under the scheme. -/
def UriOf (url : AdaUrl) (pairs : List (Bytes × Bytes)) (uri : AwskmsUri) :
    Prop :=
  ∃ attrs, Names url attrs pairs uri

end AwsKms.Spec
