import AwsKms.Model.Key

/-!
# The store loader

A store context owns a key object from the moment it is opened and hands out
a reference to it at most once. The routines below work on the context and
its key together, because they write both.
-/

namespace AwsKms.Model

open AwsKms.Lib

/-- `AWSKMS_STORE_CTX`, less the provider pointer. -/
structure AwskmsStoreCtx where
  key : KeyRef
  emitted : Bool
  expect : Int
  deriving DecidableEq, Repr

/-- `OSSL_STORE_INFO_PKEY`. -/
def ossl_STORE_INFO_PKEY : Int := 4

/-- A store context and the key it owns. -/
structure StoreState (Key : Type) where
  ctx : AwskmsStoreCtx
  key : AwskmsKey Key

/-- What libcrypto's object callback does: whether it loads the reference
through our keymgmt, and what it returns. -/
structure ObjectCb where
  loads : Bool
  ret : Bool
  deriving DecidableEq, Repr

section

variable {Alg Key : Type} (h : Host Alg Key) (env : Env Alg Key)

/-- The property query among the parameters: `none` when the parameter is not
a string, `some none` when there is no query. -/
def storePropq (params : Option (List OsslParam)) : Option (Option Bytes) :=
  match params.bind fun ps => locate ps ossl_STORE_PARAM_PROPERTIES with
  | none => some none
  | some p => getUtf8StringPtr p

def awskmsStoreApplyProperties (params : Option (List OsslParam)) :
    Act (StoreState Key) Event := fun st =>
  match storePropq params with
  | none => Act.refuse [] st
  | some propq =>
      if awskmsFipsRequested env.defaultFips propq then
        ⟨true, { st with key := { st.key with fipsRequired := true } }, []⟩
      else ⟨true, st, []⟩

def applyExpect (params : List OsslParam) : Act (StoreState Key) Event :=
  match locate params ossl_STORE_PARAM_EXPECT with
  | none => Act.done
  | some p =>
      match paramInt p with
      | none => Act.refuse []
      | some expect => fun st =>
          ⟨true, { st with ctx := { st.ctx with expect := expect } }, []⟩

def awskmsStoreSetCtxParams (params : Option (List OsslParam)) :
    Act (StoreState Key) Event :=
  match params with
  | none => Act.done
  | some ps => (applyExpect ps).andThen
      (awskmsStoreApplyProperties env (some ps))

/-- The key `awskms_store_open` builds: an empty object with the process
default as its FIPS bit, and the parsed URI. -/
def awskmsStoreOpen (uri : Option Bytes) : Reply Event × AwskmsKey Key :=
  let key : AwskmsKey Key := { (awskmsKeyNew : AwskmsKey Key) with
    fipsRequired := awskmsFipsRequested env.defaultFips none }
  if env.ok .zalloc = false ∨ env.ok .lockNew = false then (⟨false, []⟩, key)
  else
    let parsed := awskmsUriParse h uri AwskmsUri.zero
    (⟨parsed.ok, parsed.trace.map Event.raise⟩, { key with uri := parsed.state })

/-- `awskms_store_load_key`. -/
def awskmsStoreLoadKey : Act (StoreState Key) Event := fun st =>
  if st.key.pub.spec.isSome then Act.done st
  else
    let ask := Event.kmsGetPublicKey st.key.uri st.key.fipsRequired
    match env.getPublicKey st.key.uri st.key.fipsRequired with
    | .error e => Act.refuse [ask, .raise e] st
    | .ok answer =>
        let view := awskmsPubkeyFromSpki h env answer.spki answer.keySpec
          st.key.fipsRequired st.key.pub
        ⟨view.ok, { st with key := { st.key with pub := view.state } },
          ask :: view.trace⟩

/-- The object callback: our keymgmt's `load`, when it is called, takes a
reference of its own. -/
def emitObject (cb : ObjectCb) : Act (StoreState Key) Event := fun st =>
  ⟨cb.ret, { st with ctx := { st.ctx with emitted := true } },
    .objectCb (awskmsKeySpec st.key).keytype st.ctx.key ::
      if cb.loads && env.ok .keyUpRef then [.keyUpRef st.ctx.key] else []⟩

def awskmsStoreLoad (cb : ObjectCb) : Act (StoreState Key) Event := fun st =>
  if st.ctx.emitted then Act.refuse [] st
  else if st.ctx.expect ≠ 0 ∧ st.ctx.expect ≠ ossl_STORE_INFO_PKEY then
    ⟨false, { st with ctx := { st.ctx with emitted := true } }, []⟩
  else (awskmsStoreLoadKey h env).andThen (emitObject env cb) st

end

def awskmsStoreEof (ctx : AwskmsStoreCtx) : Bool := ctx.emitted

end AwsKms.Model
