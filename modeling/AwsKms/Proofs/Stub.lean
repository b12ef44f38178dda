import Mathlib.Data.List.Nodup
import AwsKms.Model.Stub
import AwsKms.Proofs.RoundTrip
import AwsKms.Proofs.Session

/-!
# The stub is an honest service

`RoundTrip.lean` assumes a service that serves, decodes and signs alike. Here
is one that does: a process on the stub backend. Its keys are generated as they
are needed, so there is no pair to speak of before the run; the pairs are those
that the entries hold when it is over, and the entries only ever grow.

An environment answers every question, also the ones a call does not ask. Those
answers matter to nothing (`step_asked`), and a stub would answer them with a
key that is made and thrown away; so a run on the stub is read as a run of the
provider in which they are not given.
-/

namespace AwsKms.Model

open AwsKms.Lib AwsKms.Spec

variable {Alg Key Priv : Type} {h : Host Alg Key} {env : Env Alg Key} {keys : Keys Key}

/-! ## What a call does not ask

A call asks for a public key, for a signature, or for neither, and which of
them is plain from the call. So an answer to the other question can be changed
without anyone noticing. -/

/-- The same environment with a service that answers what is asked in a trace. -/
def Env.asked (env : Env Alg Key) (trace : List Event) : Env Alg Key :=
  { env with
    getPublicKey := fun uri fips =>
      if Event.kmsGetPublicKey uri fips ∈ trace then env.getPublicKey uri fips
      else .error ⟨.internalError, "", []⟩
    sign := fun req =>
      if Event.kmsSign req ∈ trace then env.sign req else .error ⟨.internalError, "", []⟩ }

/-- A continuation has to be the same only where it is reached. -/
theorem Reply.andThen_congr {ε : Type} {r k k' : Lib.Reply ε} {trace : List ε}
    (hsub : (r.andThen k).trace ⊆ trace) (hk : k.trace ⊆ trace → k' = k) :
    r.andThen k' = r.andThen k := by
  cases hok : r.ok with
  | false => rw [Reply.andThen_of_failed hok, Reply.andThen_of_failed hok]
  | true =>
      rw [hk fun e he => hsub (Reply.mem_andThen.mpr (.inr ⟨hok, he⟩))]

section

variable {trace : List Event}

theorem awskmsKmsSign_asked {req : KmsRequest} {sigSize : Nat}
    (hsub : (awskmsKmsSign env req sigSize).trace ⊆ trace) :
    awskmsKmsSign (env.asked trace) req sigSize = awskmsKmsSign env req sigSize := by
  have hreq : Event.kmsSign req ∈ trace := by
    refine hsub ?_
    rw [awskmsKmsSign]
    split
    · exact List.mem_cons_self
    · split <;> exact List.mem_cons_self
  have hsame : (env.asked trace).sign req = env.sign req := if_pos hreq
  rw [awskmsKmsSign, hsame]
  rfl

theorem signDigest_asked {ctx : AwskmsSigCtx Alg Key} {buf : SigBuf} {digest : Bytes}
    (hsub : (signDigest h env keys ctx buf digest).trace ⊆ trace) :
    signDigest h (env.asked trace) keys ctx buf digest =
      signDigest h env keys ctx buf digest := by
  rw [signDigest] at hsub ⊢
  rw [signDigest]
  split
  · rfl
  · next hnull =>
      rw [if_neg hnull] at hsub
      refine Reply.andThen_congr hsub fun hsub => Reply.andThen_congr hsub fun hsub =>
        Reply.andThen_congr hsub fun hsub => ?_
      rw [signChecked] at hsub ⊢
      rw [signChecked]
      split
      · rfl
      · next halg =>
          simp only [halg] at hsub
          rw [Model.signWith] at hsub ⊢
          rw [Model.signWith]
          split
          · rfl
          · next hlen =>
              simp only [if_neg hlen] at hsub
              split
              · rfl
              · next hsalt =>
                  rw [if_neg hsalt] at hsub
                  exact awskmsKmsSign_asked hsub

theorem awskmsSigOneshotSign_asked {ctx : AwskmsSigCtx Alg Key} {buf : SigBuf} {tbs : Bytes}
    (hsub : (awskmsSigOneshotSign h env keys ctx buf tbs).trace ⊆ trace) :
    awskmsSigOneshotSign h (env.asked trace) keys ctx buf tbs =
      awskmsSigOneshotSign h env keys ctx buf tbs := by
  rw [awskmsSigOneshotSign] at hsub ⊢
  rw [awskmsSigOneshotSign]
  cases hkey : ctx.key with
  | none => rfl
  | some r =>
      simp only [hkey] at hsub ⊢
      split
      · rfl
      · next hnull =>
          rw [if_neg hnull] at hsub
          refine Reply.andThen_congr hsub fun hsub => Reply.andThen_congr hsub fun hsub => ?_
          cases halg : awskmsSigningAlgorithm (ctx.spec keys) .none false with
          | none => rfl
          | some algorithm =>
              simp only [halg] at hsub ⊢
              rw [oneshotBody] at hsub ⊢
              rw [oneshotBody]
              cases htype : (ctx.spec keys).msgType with
              | digest => rfl
              | raw =>
                  simp only [htype] at hsub ⊢
                  split
                  · rfl
                  · next hempty =>
                      rw [if_neg hempty] at hsub
                      split
                      · rfl
                      · next hlong =>
                          rw [if_neg hlong] at hsub
                          exact awskmsKmsSign_asked hsub
              | externalMu =>
                  simp only [htype] at hsub ⊢
                  exact Reply.andThen_congr hsub awskmsKmsSign_asked

theorem awskmsSigSign_asked {ctx : AwskmsSigCtx Alg Key} {buf : SigBuf} {tbs : Bytes}
    (hsub : (awskmsSigSign h env keys ctx buf tbs).trace ⊆ trace) :
    awskmsSigSign h (env.asked trace) keys ctx buf tbs =
      awskmsSigSign h env keys ctx buf tbs := by
  rw [awskmsSigSign] at hsub ⊢
  rw [awskmsSigSign]
  cases hkey : ctx.key with
  | none => rfl
  | some r =>
      simp only [hkey] at hsub
      exact signDigest_asked hsub

theorem awskmsSigDigestSignFinal_asked {ctx : AwskmsSigCtx Alg Key} {buf : SigBuf}
    (hsub : (awskmsSigDigestSignFinal h env keys buf ctx).trace ⊆ trace) :
    awskmsSigDigestSignFinal h (env.asked trace) keys buf ctx =
      awskmsSigDigestSignFinal h env keys buf ctx := by
  rw [awskmsSigDigestSignFinal] at hsub ⊢
  rw [awskmsSigDigestSignFinal]
  split
  · rfl
  · next hbound =>
      rw [if_neg hbound] at hsub
      split
      · rfl
      · next hnull =>
          rw [if_neg hnull] at hsub
          split
          · rfl
          · next hfits =>
              rw [if_neg hfits] at hsub
              cases hhash : finishHash h ctx with
              | none => rfl
              | some out =>
                  simp only [hhash, Reply.keep_trace] at hsub
                  exact congrArg (·.keep out.1) (signDigest_asked hsub)

/-- Only three calls of a context ask the service for anything. -/
theorem sigCall_asked {sc : SigCall} {ctx : AwskmsSigCtx Alg Key}
    (hsub : (sigCall h env keys sc ctx).trace ⊆ trace) :
    sigCall h (env.asked trace) keys sc ctx = sigCall h env keys sc ctx := by
  cases sc with
  | sign buf tbs => exact congrArg (·.keep ctx) (awskmsSigSign_asked hsub)
  | digestSignFinal buf => exact awskmsSigDigestSignFinal_asked hsub
  | oneshotSign buf tbs => exact congrArg (·.keep ctx) (awskmsSigOneshotSign_asked hsub)
  | _ => rfl

theorem awskmsStoreLoadKey_asked {st : StoreState Key}
    (hsub : (awskmsStoreLoadKey h env st).trace ⊆ trace) :
    awskmsStoreLoadKey h (env.asked trace) st = awskmsStoreLoadKey h env st := by
  rw [awskmsStoreLoadKey] at hsub ⊢
  rw [awskmsStoreLoadKey]
  split
  · rfl
  · next hspec =>
      rw [if_neg hspec] at hsub
      have hask : Event.kmsGetPublicKey st.key.uri st.key.fipsRequired ∈ trace := by
        refine hsub ?_
        split <;> exact List.mem_cons_self
      have hsame : (env.asked trace).getPublicKey st.key.uri st.key.fipsRequired =
          env.getPublicKey st.key.uri st.key.fipsRequired := if_pos hask
      rw [hsame]
      rfl

theorem awskmsStoreLoad_asked {cb : ObjectCb} {st : StoreState Key}
    (hsub : (awskmsStoreLoad h env cb st).trace ⊆ trace) :
    awskmsStoreLoad h (env.asked trace) cb st = awskmsStoreLoad h env cb st := by
  rw [awskmsStoreLoad] at hsub ⊢
  rw [awskmsStoreLoad]
  split
  · rfl
  · next hemitted =>
      rw [if_neg hemitted] at hsub
      split
      · rfl
      · next hexpect =>
          rw [if_neg hexpect] at hsub
          have hload : awskmsStoreLoadKey h (env.asked trace) st =
              awskmsStoreLoadKey h env st := by
            refine awskmsStoreLoadKey_asked fun e he => hsub ?_
            rw [Act.andThen]
            split
            · exact List.mem_append_left _ he
            · exact he
          rw [Act.andThen, Act.andThen, hload]
          rfl

/-- A call depends on the service's answers only where it asks. -/
theorem step_asked {call : Call} {s : Sys Alg Key}
    (hsub : (Sys.step h env call s).trace ⊆ trace) :
    Sys.step h (env.asked trace) call s = Sys.step h env call s := by
  cases call with
  | storeLoad st cb =>
      rw [Sys.step, (handOut_out _).2.1] at hsub
      rw [Sys.step, Sys.step]
      refine congrArg Sys.handOut ?_
      rw [Sys.onStore] at hsub ⊢
      rw [Sys.onStore]
      cases hst : s.stores st with
      | none => rfl
      | some ctx =>
          simp only [hst] at hsub ⊢
          rw [awskmsStoreLoad_asked hsub]
  | sig c sc =>
      simp only [Sys.step] at hsub ⊢
      cases hc : s.ctxs c with
      | none => rfl
      | some entry =>
          simp only [hc] at hsub ⊢
          split
          · rfl
          · next hoffers =>
              rw [if_neg hoffers] at hsub
              rw [sigCall_asked hsub]
  | _ => rfl

end

namespace Stub

/-! ## The entries

The token keeps one entry for each key id and never changes one. An entry
found at some moment of the run is found at every later one, and at the end. -/

section

variable {Alg : Type} {t : Token Alg Priv} {keyId : Bytes} {entries entries' : List (Entry Priv)}

/-- The entry under a key id. -/
def entryOf (entries : List (Entry Priv)) (keyId : Bytes) : Option (Entry Priv) :=
  entries.find? fun e => e.keyId == keyId

/-- An entry has the KeySpec that its key id names, and no key id has two. -/
structure Tidy (entries : List (Entry Priv)) : Prop where
  named : ∀ e ∈ entries, specFromKeyId e.keyId = some e.spec
  nodup : (entries.map (·.keyId)).Nodup

theorem tidy_nil : Tidy ([] : List (Entry Priv)) := ⟨nofun, List.nodup_nil⟩

theorem entryOf_some {e : Entry Priv} (he : entryOf entries keyId = some e) :
    e ∈ entries ∧ e.keyId = keyId :=
  ⟨List.mem_of_find?_eq_some he, by simpa using List.find?_some he⟩

theorem entryOf_none (hno : entryOf entries keyId = none) :
    ∀ e ∈ entries, e.keyId ≠ keyId := by
  simpa [entryOf] using hno

theorem Tidy.entryOf_mem (ht : Tidy entries) {e : Entry Priv} (he : e ∈ entries) :
    entryOf entries e.keyId = some e := by
  cases hfound : entryOf entries e.keyId with
  | none => exact absurd rfl (entryOf_none hfound e he)
  | some e' =>
      obtain ⟨hmem, hid⟩ := entryOf_some hfound
      rw [List.inj_on_of_nodup_map ht.nodup hmem he hid]

/-- The entry that a lookup makes where there is none. -/
def fresh (t : Token Alg Priv) (keyId : Bytes) : Option (Entry Priv) :=
  (specFromKeyId keyId).bind fun spec =>
    if t.ok .zalloc && t.ok .strdupKeyId then
      (t.keygen (generate spec)).map fun pkey => ⟨keyId, spec, pkey⟩
    else none

theorem fresh_some {e : Entry Priv} (he : fresh t keyId = some e) :
    e.keyId = keyId ∧ specFromKeyId keyId = some e.spec ∧
      t.keygen (generate e.spec) = some e.pkey := by
  obtain ⟨spec, hspec, hmade⟩ := Option.bind_eq_some_iff.mp he
  split at hmade
  · obtain ⟨pkey, hkey, rfl⟩ := Option.map_eq_some_iff.mp hmade
    exact ⟨rfl, hspec, hkey⟩
  · cases hmade

theorem lookup_eq (t : Token Alg Priv) (keyId : Bytes) (entries : List (Entry Priv)) :
    (lookup t keyId entries).value =
      (if t.ok .writeLock then (entryOf entries keyId).or (fresh t keyId) else none) ∧
    (lookup t keyId entries).entries =
      (if t.ok .writeLock ∧ entryOf entries keyId = none then
        (fresh t keyId).toList ++ entries else entries) := by
  rw [lookup, entryOf, fresh]
  cases t.ok .writeLock with
  | false => exact ⟨rfl, rfl⟩
  | true =>
      cases entries.find? fun e => e.keyId == keyId with
      | some e => exact ⟨rfl, rfl⟩
      | none =>
          cases specFromKeyId keyId with
          | none => exact ⟨rfl, rfl⟩
          | some spec =>
              cases t.ok .zalloc <;> cases t.ok .strdupKeyId <;>
                cases hkey : t.keygen (generate spec) <;> simp [hkey]

theorem lookup_suffix : entries <:+ (lookup t keyId entries).entries := by
  rw [(lookup_eq t keyId entries).2]
  split
  · exact List.suffix_append _ _
  · exact List.suffix_refl _

theorem tidy_lookup (ht : Tidy entries) : Tidy (lookup t keyId entries).entries := by
  rw [(lookup_eq t keyId entries).2]
  split
  · next hno =>
      cases hmade : fresh t keyId with
      | none => exact ht
      | some e =>
          obtain ⟨hid, hspec, -⟩ := fresh_some hmade
          refine ⟨fun e' he' => ?_, ?_⟩
          · rcases List.mem_cons.mp he' with rfl | he'
            · rw [hid, hspec]
            · exact ht.named e' he'
          · show ((e :: entries).map (·.keyId)).Nodup
            rw [List.map_cons, List.nodup_cons]
            refine ⟨fun hmem => ?_, ht.nodup⟩
            obtain ⟨e', he', heq⟩ := List.mem_map.mp hmem
            exact entryOf_none hno.2 e' he' (heq.trans hid)
  · exact ht

/-- Who looks a key id up finds its entry there afterwards. -/
theorem lookup_found {e : Entry Priv} (hv : (lookup t keyId entries).value = some e) :
    entryOf (lookup t keyId entries).entries keyId = some e := by
  rw [(lookup_eq t keyId entries).1] at hv
  rw [(lookup_eq t keyId entries).2]
  cases hlock : t.ok .writeLock with
  | false => simp [hlock] at hv
  | true =>
      cases hfound : entryOf entries keyId with
      | some e' => simpa [hlock, hfound] using hv
      | none =>
          have hmade : fresh t keyId = some e := by simpa [hlock, hfound] using hv
          have hhead : (e.keyId == keyId) = true := by simpa using (fresh_some hmade).1
          rw [if_pos ⟨rfl, rfl⟩, hmade]
          exact List.find?_cons_of_pos hhead

/-- A lookup of another key id does not change what a lookup returns. -/
theorem lookup_stable {other : Bytes} {e : Entry Priv}
    (hv : (lookup t keyId entries).value = some e) :
    (lookup t keyId (lookup t other entries).entries).value = some e := by
  by_cases hid : other = keyId
  · subst hid
    have hlock : t.ok .writeLock = true := by
      by_contra hlock
      rw [(lookup_eq t other entries).1, if_neg hlock] at hv
      cases hv
    rw [(lookup_eq t other _).1, if_pos hlock, lookup_found hv]
    rfl
  · have hsame : entryOf (lookup t other entries).entries keyId = entryOf entries keyId := by
      rw [(lookup_eq t other entries).2]
      split
      · cases hmade : fresh t other with
        | none => rfl
        | some e' =>
            refine List.find?_cons_of_neg ?_
            simpa [(fresh_some hmade).1] using hid
      · rfl
    rw [(lookup_eq t keyId _).1, hsame, ← (lookup_eq t keyId entries).1]
    exact hv

section

variable {ids : List Bytes}

/-- The entries after some lookups. -/
def afterLookups (t : Token Alg Priv) (entries : List (Entry Priv)) (ids : List Bytes) :
    List (Entry Priv) :=
  ids.foldl (fun entries keyId => (lookup t keyId entries).entries) entries

theorem afterLookups_suffix : entries <:+ afterLookups t entries ids := by
  induction ids generalizing entries with
  | nil => exact List.suffix_refl _
  | cons id ids ih => exact lookup_suffix.trans ih

theorem tidy_afterLookups (ht : Tidy entries) : Tidy (afterLookups t entries ids) := by
  induction ids generalizing entries with
  | nil => exact ht
  | cons id ids ih => exact ih (tidy_lookup ht)

/-- Every answer that was given comes from an entry that is there afterwards. -/
theorem afterLookups_mem {e : Entry Priv} (hid : keyId ∈ ids)
    (hv : (lookup t keyId entries).value = some e) : e ∈ afterLookups t entries ids := by
  induction ids generalizing entries with
  | nil => cases hid
  | cons id ids ih =>
      by_cases heq : keyId = id
      · subst heq
        have hgrow : (lookup t keyId entries).entries <:+
            afterLookups t (lookup t keyId entries).entries ids := afterLookups_suffix
        exact hgrow.subset (entryOf_some (lookup_found hv)).1
      · exact ih ((List.mem_cons.mp hid).resolve_left heq) (lookup_stable hv)

end

end

section

variable {Alg Key : Type} {h : Host Alg Key}

/-- One step on the stub, as the provider has it. -/
def provided (e : Rec (Sys Alg Key × List (Entry Priv)) (StubInput Alg Key Priv) Event) :
    Rec (Sys Alg Key) (Input Alg Key) Event :=
  ⟨e.pre.1, ⟨e.input.call, (e.input.env e.pre.2).asked e.out.trace⟩,
    ⟨e.out.ok, e.out.state.1, e.out.trace⟩⟩

variable {evs : List (Rec (Sys Alg Key × List (Entry Priv)) (StubInput Alg Key Priv) Event)}
  {s : Sys Alg Key × List (Entry Priv)}

theorem provided_run (hr : (stubbed h Priv).Run evs s) :
    (provider h).Run (evs.map provided) s.1 := by
  induction hr with
  | nil => exact .nil
  | @snoc evs s i _ ha ih =>
      have hstep : ((stubbed h Priv).step i s).state.1 =
          ((provider h).step (provided ⟨s, i, (stubbed h Priv).step i s⟩).input s.1).state :=
        congrArg Out.state (step_asked (List.Subset.refl _)).symm
      have hrec : provided ⟨s, i, (stubbed h Priv).step i s⟩ =
          ⟨s.1, (provided ⟨s, i, (stubbed h Priv).step i s⟩).input,
            (provider h).step (provided ⟨s, i, (stubbed h Priv).step i s⟩).input s.1⟩ :=
        congrArg (Rec.mk _ _) (step_asked (List.Subset.refl _)).symm
      rw [List.map_append, List.map_singleton, hrec, hstep]
      exact ih.snoc ha.1

theorem tidy_run (hr : (stubbed h Priv).Run evs s) : Tidy s.2 :=
  hr.inv (I := fun s => Tidy s.2) tidy_nil fun _ _ ht _ => tidy_afterLookups ht

/-- What a call left in the list is there at the end. -/
theorem entries_kept (hr : (stubbed h Priv).Run evs s) :
    ∀ e ∈ evs, afterCall e.input.token e.pre.2 e.out.trace ⊆ s.2 := by
  induction hr with
  | nil => exact fun e he => absurd he List.not_mem_nil
  | @snoc evs s i _ _ ih =>
      intro e he
      rcases List.mem_append.mp he with he | he
      · exact List.Subset.trans (ih e he) afterLookups_suffix.subset
      · obtain rfl := List.mem_singleton.mp he
        exact List.Subset.refl _

/-- The keys that libcrypto made for the stub have a public half and one
encoding, which decodes to it; what one of them signed its public half accepts
under the same settings, and digests that go by one name verify alike. A
representative `mu` that is signed is a signature of every message that it
represents. -/
structure KeepsWord (h : Host Alg Key) (publicOf : Priv → Key) (spkiOf : Priv → Bytes)
    (i : StubInput Alg Key Priv) : Prop where
  encodes : ∀ p der, i.token.i2dPubkey p = some der → der = spkiOf p
  decodes : ∀ p propq key n, i.base.d2iPubkey (spkiOf p) propq = some (key, n) →
    key = publicOf p
  signs : ∀ p params digest size sig, i.token.sign p params digest size = some sig →
    h.verify (publicOf p) params sig digest = true
  named : ∀ name md md', i.token.mdFetch name = some md → h.mdIsA md' (ascii name) = true →
    ∀ key padding saltlen sig digest, h.verify key ⟨padding, saltlen, some md'⟩ sig digest =
      h.verify key ⟨padding, saltlen, some md⟩ sig digest
  signsMessage : ∀ p msg size sig, i.token.digestSign p msg size = some sig →
    h.digestVerify (publicOf p) (messagePrimitive []) sig msg = true
  signsMu : ∀ p keytype mu size sig, i.token.signMu p keytype mu size = some sig →
    ∀ raw context msg, h.pkeyPub (publicOf p) = some raw → context.length ≤ 255 →
      mu = Spec.mu h.shake256 raw context msg →
        h.digestVerify (publicOf p) (messagePrimitive context) sig msg = true

/-- The markers of `fault injection`. -/
def faults : List String := ["fault-badspec", "fault-wrongtype", "fault-wronggroup",
  "fault-emptyspki", "fault-truncspki", "fault-badspki"]

/-- A key id without a marker. -/
def Faultless (keyId : Bytes) : Prop := ∀ name ∈ faults, hasFault keyId name = false

instance (keyId : Bytes) : Decidable (Faultless keyId) :=
  inferInstanceAs (Decidable (∀ name ∈ faults, _))

theorem Faultless.reported {keyId : Bytes} (hf : Faultless keyId) (spec : AwskmsKeyspec)
    (der : Bytes) : reportedKeySpec keyId spec = spec.kmsKeySpec ∧
      reportedSpki keyId der = der := by
  have hno : ∀ name ∈ faults, hasFault keyId name = false := hf
  simp only [faults, List.forall_mem_cons] at hno
  obtain ⟨hspec, htype, hgroup, hempty, htrunc, hbad, -⟩ := hno
  rw [reportedKeySpec, reportedSpki, hspec, htype, hgroup, hempty, htrunc, hbad]
  exact ⟨rfl, rfl⟩

section

variable {i : StubInput Alg Key Priv} {entries final : List (Entry Priv)} {trace : List Event}

theorem toExcept_ok {α : Type} {a : Answer Priv α} {value : α} (ha : a.toExcept = .ok value) :
    a.value = some value := by
  rw [Answer.toExcept] at ha
  split at ha
  · next hv =>
      rw [hv, Except.ok.inj ha]
  · cases ha

/-- The entry that a request was answered from is there at the end. -/
theorem lookup_kept (hkept : afterCall i.token entries trace ⊆ final) {q : Event}
    {keyId : Bytes} (hq : q ∈ trace) (hid : lookedUp q = some keyId) {e : Entry Priv}
    (hfound : (lookup i.token keyId entries).value = some e) : e ∈ final ∧ e.keyId = keyId :=
  ⟨hkept (afterLookups_mem (List.mem_filterMap.mpr ⟨q, hq, hid⟩) hfound),
    (entryOf_some (lookup_found hfound)).2⟩

/-- A public key that is served is that of an entry which is there at the end. -/
theorem served_entry (hkept : afterCall i.token entries trace ⊆ final) {uri : AwskmsUri}
    {fips : Bool} {answer : AwskmsPublicKey}
    (hans : ((i.env entries).asked trace).getPublicKey uri fips = .ok answer) :
    ∃ e ∈ final, e.keyId = uri.keyId.getD [] ∧ ∃ der, i.token.i2dPubkey e.pkey = some der ∧
      answer = ⟨reportedKeySpec e.keyId e.spec, reportedSpki e.keyId der⟩ := by
  have hask : Event.kmsGetPublicKey uri fips ∈ trace := by
    by_contra hno
    cases (if_neg hno).symm.trans hans
  have hval := toExcept_ok ((if_pos hask).symm.trans hans)
  rw [awskmsKmsGetPublicKey] at hval
  cases hfound : (lookup i.token (uri.keyId.getD []) entries).value with
  | none =>
      simp only [hfound] at hval
      cases hval
  | some e =>
      obtain ⟨hmem, hid⟩ := lookup_kept hkept hask rfl hfound
      refine ⟨e, hmem, hid, ?_⟩
      simp only [hfound] at hval
      rw [encoded] at hval
      cases hder : i.token.i2dPubkey e.pkey with
      | none =>
          simp only [hder] at hval
          cases hval
      | some der =>
          refine ⟨der, rfl, ?_⟩
          rw [hid]
          cases der with
          | nil =>
              simp only [hder] at hval
              cases hval
          | cons b bs =>
              simp only [hder] at hval
              split at hval
              · cases hval
              · exact (Option.some.inj hval).symm

/-- A signature is made with the key of an entry which is there at the end. -/
theorem signed_entry (hkept : afterCall i.token entries trace ⊆ final) {req : KmsRequest}
    {sig : Bytes} (hsign : ((i.env entries).asked trace).sign req = .ok sig) :
    ∃ e ∈ final, e.keyId = req.uri.keyId.getD [] ∧
      signWith i.token e req (sigSizeOf i.call) = .ok sig := by
  have hask : Event.kmsSign req ∈ trace := by
    by_contra hno
    cases (if_neg hno).symm.trans hsign
  have hval := toExcept_ok ((if_pos hask).symm.trans hsign)
  rw [Stub.awskmsKmsSign] at hval
  cases hfound : (lookup i.token (req.uri.keyId.getD []) entries).value with
  | none =>
      simp only [hfound] at hval
      cases hval
  | some e =>
      obtain ⟨hmem, hid⟩ := lookup_kept hkept hask rfl hfound
      refine ⟨e, hmem, hid, ?_⟩
      simp only [hfound] at hval
      cases hsig : signWith i.token e req (sigSizeOf i.call) with
      | error err =>
          simp only [hsig] at hval
          cases hval
      | ok sig' =>
          simp only [hsig] at hval
          rw [Option.some.inj hval]

end

theorem parseAlgorithm_wireName {algorithm : SigningAlgorithm}
    (hdigest : digestOf algorithm ≠ .none) :
    ∃ name, awskmsDigestName (digestOf algorithm) = some name ∧
      parseAlgorithm (wireName algorithm) =
        some (name, decide (paddingOf algorithm = some .pss)) := by
  cases algorithm with
  | ED25519_SHA_512 => exact absurd rfl hdigest
  | ML_DSA_SHAKE_256 => exact absurd rfl hdigest
  | _ => exact ⟨_, rfl, by decide +kernel⟩

theorem rsa_iff_padding : ∀ spec ∈ specs, ∀ algorithm ∈ signingAlgorithms spec.kmsKeySpec,
    spec.family = .rsa ↔ paddingOf algorithm ≠ none := by
  decide

/-- The settings of the stub are the primitive that the algorithm names. -/
theorem signParams_eq {spec : AwskmsKeyspec} {algorithm : SigningAlgorithm} {md : Alg}
    (hspec : spec ∈ specs) (hlisted : algorithm ∈ signingAlgorithms spec.kmsKeySpec) :
    signParams spec (decide (paddingOf algorithm = some .pss)) md = primitive algorithm md := by
  have hrsa := rsa_iff_padding spec hspec algorithm hlisted
  rw [signParams, primitive]
  cases hpad : paddingOf algorithm with
  | none =>
      rw [if_neg fun heq => hrsa.mp heq hpad]
      rfl
  | some padding =>
      rw [if_pos (hrsa.mpr (by rw [hpad]; nofun))]
      cases padding <;> rfl

theorem isDigest_named {md : Alg} {digest : AwskmsDigest} {name : String}
    (hmd : IsDigest h md digest) (hname : awskmsDigestName digest = some name) :
    h.mdIsA md (ascii name) = true := by
  cases digest with
  | sha256 =>
      obtain rfl := Option.some.inj hname
      exact hmd
  | sha384 =>
      obtain rfl := Option.some.inj hname
      exact hmd
  | sha512 =>
      obtain rfl := Option.some.inj hname
      exact hmd
  | none => cases hname
  | other => cases hname

variable {publicOf : Priv → Key} {spkiOf : Priv → Bytes} {i : StubInput Alg Key Priv}

theorem orRaise_ok {sig : Option Bytes} {err : ProviderError} {out : Bytes}
    (ho : orRaise sig err = .ok out) : sig = some out := by
  cases sig with
  | none => cases ho
  | some sig => exact congrArg some (Except.ok.inj ho)

theorem signWith_signs (hf : KeepsWord h publicOf spkiOf i) {e : Entry Priv}
    (hspec : e.spec ∈ specs) {req : KmsRequest}
    (hlisted : req.signingAlgorithm ∈ signingAlgorithms e.spec.kmsKeySpec) {sigSize : Nat}
    {sig : Bytes} (hsign : signWith i.token e req sigSize = .ok sig) :
    Signs h (publicOf e.pkey) req sig := by
  rw [Stub.signWith] at hsign
  rw [Signs]
  split at hsign
  · cases hsign
  · cases htype : req.messageType with
    | RAW =>
        simp only [htype] at hsign
        have hraw := orRaise_ok hsign
        rw [signRaw] at hraw
        split at hraw
        · exact hf.signsMessage _ _ _ _ hraw
        · cases hraw
    | EXTERNAL_MU =>
        simp only [htype] at hsign
        split at hsign
        · cases hsign
        · split at hsign
          · cases hsign
          · have hmu := orRaise_ok hsign
            rw [signExternalMu] at hmu
            split at hmu
            · exact fun raw context message => hf.signsMu _ _ _ _ _ hmu raw context message
            · cases hmu
    | DIGEST =>
        intro md hmd
        have hdigest : digestOf req.signingAlgorithm ≠ .none := by
          intro hnone
          rw [hnone] at hmd
          exact hmd
        obtain ⟨name, hname, hparsed⟩ := parseAlgorithm_wireName hdigest
        simp only [htype, hparsed] at hsign
        have hpre := orRaise_ok hsign
        rw [signPrehashed] at hpre
        cases hfetch : i.token.mdFetch name with
        | none =>
            rw [hfetch] at hpre
            cases hpre
        | some md' =>
            simp only [hfetch, signParams_eq hspec hlisted] at hpre
            split at hpre
            · have hverified := hf.signs _ _ _ _ _ hpre
              rw [primitive] at hverified ⊢
              rwa [hf.named name md' md hfetch (isDigest_named hmd hname)]
            · cases hpre

/-- The pair behind a URI, by the entries. -/
def pairOf (publicOf : Priv → Key) (spkiOf : Priv → Bytes) (default : KmsKey Key)
    (entries : List (Entry Priv)) (uri : AwskmsUri) : KmsKey Key :=
  match entryOf entries (uri.keyId.getD []) with
  | some e => ⟨e.spec.kmsKeySpec, spkiOf e.pkey, publicOf e.pkey⟩
  | none => default

/-- A URI whose key is there and is reported as it is. -/
def Served (entries : List (Entry Priv)) (uri : AwskmsUri) : Prop :=
  Faultless (uri.keyId.getD []) ∧ (entryOf entries (uri.keyId.getD [])).isSome

theorem Tidy.pairOf_entry {entries : List (Entry Priv)} (ht : Tidy entries) {e : Entry Priv}
    (he : e ∈ entries) {uri : AwskmsUri} (hid : e.keyId = uri.keyId.getD [])
    (default : KmsKey Key) : pairOf publicOf spkiOf default entries uri =
      ⟨e.spec.kmsKeySpec, spkiOf e.pkey, publicOf e.pkey⟩ := by
  rw [pairOf, ← hid, ht.entryOf_mem he]

theorem honest_asked (hf : KeepsWord h publicOf spkiOf i) {entries final : List (Entry Priv)}
    (ht : Tidy final) {trace : List Event}
    (hkept : afterCall i.token entries trace ⊆ final) (default : KmsKey Key) :
    Honest h (Served final) (pairOf publicOf spkiOf default final)
      ((i.env entries).asked trace) where
  serves uri fips answer hserved hans := by
    obtain ⟨e, he, hid, der, hder, rfl⟩ := served_entry hkept hans
    rw [ht.pairOf_entry he hid, hf.encodes _ _ hder]
    exact (hid ▸ hserved.1 : Faultless e.keyId).reported e.spec _
  decodes uri propq key n hserved hdec := by
    obtain ⟨e, he⟩ := Option.isSome_iff_exists.mp hserved.2
    obtain ⟨hmem, hid⟩ := entryOf_some he
    rw [ht.pairOf_entry hmem hid] at hdec ⊢
    exact hf.decodes _ _ _ _ hdec
  signs req sig hserved hlisted hsign := by
    obtain ⟨e, he, hid, hsigned⟩ := signed_entry hkept hsign
    rw [ht.pairOf_entry he hid] at hlisted ⊢
    exact signWith_signs hf (List.mem_of_find?_eq_some (ht.named e he)) hlisted hsigned

/-- Every call of a run is answered from the entries that are there at the end. -/
theorem answers_run (hr : (stubbed h Priv).Run evs s) :
    ∀ e ∈ evs.map provided, ∀ uri fips answer,
      e.input.env.getPublicKey uri fips = .ok answer → ∃ entry ∈ s.2,
        entry.keyId = uri.keyId.getD [] := by
  intro e he uri fips answer hans
  obtain ⟨e, hrec, rfl⟩ := List.mem_map.mp he
  obtain ⟨entry, hmem, hid, -⟩ := served_entry (entries_kept hr e hrec) hans
  exact ⟨entry, hmem, hid⟩

theorem honest_run (hr : (stubbed h Priv).Run evs s)
    (hf : ∀ e ∈ evs, KeepsWord h publicOf spkiOf e.input) (default : KmsKey Key) :
    ∀ e ∈ evs.map provided,
      Honest h (Served s.2) (pairOf publicOf spkiOf default s.2) e.input.env := by
  intro e he
  obtain ⟨e, hrec, rfl⟩ := List.mem_map.mp he
  exact honest_asked (hf e hrec) (tidy_run hr) (entries_kept hr e hrec) default

/-- The key of a call in the run has an entry. -/
theorem use_entry (hr : (stubbed h Priv).Run evs s) {u : SigUse h}
    (hu : u.before ++ [u.at_] <+: evs.map provided) :
    ∃ entry ∈ s.2, entry.keyId = u.uri.keyId.getD [] := by
  have htraced := traced_run (E := fun env => ∀ uri fips answer,
      env.getPublicKey uri fips = .ok answer → ∃ entry ∈ s.2, entry.keyId = uri.keyId.getD [])
    u.run_before fun e he =>
      answers_run hr e (hu.subset (List.mem_append_left _ he))
  have hlive := htraced.sound.bound u.ref u.entry.1 u.ctx u.key u.found u.bound
  obtain ⟨_, _, _, _, _, hE, hans, -, -⟩ := (htraced.kind u.key).loadedFrom u.loaded hlive.viewed
  exact hE _ _ _ hans

theorem serviced_use (hr : (stubbed h Priv).Run evs s)
    (hf : ∀ e ∈ evs, KeepsWord h publicOf spkiOf e.input) {u : SigUse h}
    (hu : u.before ++ [u.at_] <+: evs.map provided) (hfault : Faultless (u.uri.keyId.getD []))
    (default : KmsKey Key) :
    u.Serviced (Served s.2) (pairOf publicOf spkiOf default s.2) where
  served := by
    obtain ⟨entry, hmem, hid⟩ := use_entry hr hu
    refine ⟨hfault, ?_⟩
    rw [← hid, (tidy_run hr).entryOf_mem hmem]
    rfl
  honest e he := honest_run hr hf default e (hu.subset he)

/-! ## What a load leaves

From here it is about single loads: what a store gets from the stub is the
public half of an entry whose spec the marker named, and the checks of the
store let it through. -/

/-- What `EVP_PKEY_Q_keygen` makes: a key of the type, and of the size or the
group, that it was asked for. -/
def Made (h : Host Alg Key) (key : Key) : Keygen → Prop
  | .rsa bits => (∀ spec ∈ specs, h.pkeyIsA key spec.keytype = true → spec.keytype = "RSA") ∧
      h.pkeyBits key = bits
  | .ec groupName =>
      (∀ spec ∈ specs, h.pkeyIsA key spec.keytype = true → spec.keytype = "EC") ∧
        h.pkeyGroup key = groupName
  | .type keytype =>
      ∀ spec ∈ specs, h.pkeyIsA key spec.keytype = true → spec.keytype = keytype

/-- What libcrypto owes besides, for a load to tell one key from another: keys
of the kind that was asked for, and no answer to half an encoding. -/
structure Tells (h : Host Alg Key) (publicOf : Priv → Key) (spkiOf : Priv → Bytes)
    (i : StubInput Alg Key Priv) : Prop extends KeepsWord h publicOf spkiOf i where
  makes : ∀ g p, i.token.keygen g = some p → Made h (publicOf p) g
  halves : ∀ p propq,
    i.base.d2iPubkey ((spkiOf p).take ((spkiOf p).length / 2)) propq = none

theorem Made.checks {key : Key} {spec : AwskmsKeyspec} (hspec : spec ∈ specs)
    (hm : Made h key (generate spec)) :
    (∀ spec' ∈ specs, h.pkeyIsA key spec'.keytype = true → spec'.keytype = spec.keytype) ∧
      (spec.family = .ec → h.pkeyGroup key = spec.groupName) ∧
      (spec.family = .rsa → h.pkeyBits key = expectedRsaBits spec) := by
  simp only [specs, List.mem_cons, List.not_mem_nil, or_false] at hspec
  obtain rfl | rfl | rfl | rfl | rfl | rfl | rfl | rfl | rfl | rfl := hspec
  · exact ⟨hm.1, fun hec => absurd hec (by decide), fun _ => hm.2⟩
  · exact ⟨hm.1, fun hec => absurd hec (by decide), fun _ => hm.2⟩
  · exact ⟨hm.1, fun hec => absurd hec (by decide), fun _ => hm.2⟩
  · exact ⟨hm.1, fun _ => hm.2, fun hrsa => absurd hrsa (by decide)⟩
  · exact ⟨hm.1, fun _ => hm.2, fun hrsa => absurd hrsa (by decide)⟩
  · exact ⟨hm.1, fun _ => hm.2, fun hrsa => absurd hrsa (by decide)⟩
  · exact ⟨hm, fun hec => absurd hec (by decide), fun hrsa => absurd hrsa (by decide)⟩
  · exact ⟨hm, fun hec => absurd hec (by decide), fun hrsa => absurd hrsa (by decide)⟩
  · exact ⟨hm, fun hec => absurd hec (by decide), fun hrsa => absurd hrsa (by decide)⟩
  · exact ⟨hm, fun hec => absurd hec (by decide), fun hrsa => absurd hrsa (by decide)⟩

theorem row_unique : ∀ spec ∈ specs, ∀ spec' ∈ specs, spec'.keytype = spec.keytype →
    (spec'.family = .ec → spec'.groupName = spec.groupName) →
    (spec'.family = .rsa → expectedRsaBits spec' = expectedRsaBits spec) → spec' = spec := by
  decide

/-- A key that was made for one row passes the checks of no other. -/
theorem Made.unique {key : Key} {spec spec' : AwskmsKeyspec} (hspec : spec ∈ specs)
    (hspec' : spec' ∈ specs) (hm : Made h key (generate spec)) {env : Env Alg Key}
    {der : Bytes} {fips : Bool} {p : AwskmsPubkey Key}
    (hd : Decoded h env der spec' fips key p) : spec' = spec := by
  obtain ⟨htype, hgroup, hbits⟩ := hm.checks hspec
  have hsame : spec'.keytype = spec.keytype := htype spec' hspec' hd.isA
  have hfamily : ∀ a ∈ specs, ∀ b ∈ specs, b.keytype = a.keytype → b.family = a.family := by
    decide
  have hfam := hfamily spec hspec spec' hspec' hsame
  refine row_unique spec hspec spec' hspec' hsame (fun hec => ?_) fun hrsa => ?_
  · rw [← hd.group hec, hgroup (hfam ▸ hec)]
  · rw [← hd.bits hrsa, hbits (hfam ▸ hrsa)]

theorem made_afterLookups (hf : Tells h publicOf spkiOf i) {entries : List (Entry Priv)}
    {ids : List Bytes} (hs : ∀ e ∈ entries, Made h (publicOf e.pkey) (generate e.spec)) :
    ∀ e ∈ afterLookups i.token entries ids, Made h (publicOf e.pkey) (generate e.spec) := by
  induction ids generalizing entries with
  | nil => exact hs
  | cons id ids ih =>
      show ∀ e ∈ afterLookups i.token (lookup i.token id entries).entries ids,
        Made h (publicOf e.pkey) (generate e.spec)
      refine ih ?_
      rw [(lookup_eq i.token id entries).2]
      split
      · intro e he
        rcases List.mem_append.mp he with hnew | hold
        · exact hf.makes _ _ (fresh_some (Option.mem_toList.mp hnew)).2.2
        · exact hs e hold
      · exact hs

theorem made_run (hr : (stubbed h Priv).Run evs s)
    (hf : ∀ e ∈ evs, Tells h publicOf spkiOf e.input) :
    ∀ e ∈ s.2, Made h (publicOf e.pkey) (generate e.spec) :=
  Machine.Run.invWhere (I := fun s => ∀ e ∈ s.2, Made h (publicOf e.pkey) (generate e.spec))
    (C := fun e => Tells h publicOf spkiOf e.input) (fun _ he => absurd he List.not_mem_nil)
    (fun _ _ hs _ hi => made_afterLookups hi hs) hr hf

/-- What the environments of a run answer, by the entries at its end. -/
structure AnswersFrom (publicOf : Priv → Key) (spkiOf : Priv → Bytes)
    (entries : List (Entry Priv)) (env : Env Alg Key) : Prop where
  serves : ∀ uri fips answer, env.getPublicKey uri fips = .ok answer → ∃ e ∈ entries,
    e.keyId = uri.keyId.getD [] ∧
      answer = ⟨reportedKeySpec e.keyId e.spec, reportedSpki e.keyId (spkiOf e.pkey)⟩
  decodes : ∀ p propq key n, env.d2iPubkey (spkiOf p) propq = some (key, n) →
    key = publicOf p
  halves : ∀ p propq, env.d2iPubkey ((spkiOf p).take ((spkiOf p).length / 2)) propq = none

theorem answersFrom_run (hr : (stubbed h Priv).Run evs s)
    (hf : ∀ e ∈ evs, Tells h publicOf spkiOf e.input) :
    ∀ e ∈ evs.map provided, AnswersFrom publicOf spkiOf s.2 e.input.env := by
  intro e he
  obtain ⟨e, hrec, rfl⟩ := List.mem_map.mp he
  refine ⟨fun uri fips answer hans => ?_, (hf e hrec).decodes, (hf e hrec).halves⟩
  obtain ⟨entry, hmem, hid, der, hder, hanswer⟩ := served_entry (entries_kept hr e hrec) hans
  exact ⟨entry, hmem, hid, (hf e hrec).encodes _ _ hder ▸ hanswer⟩

/-- The markers that spoil the encoding do not get past a decode, except for
the one that leaves it to the decoder. -/
theorem AnswersFrom.spki_reported {entries : List (Entry Priv)} {env : Env Alg Key}
    (hans : AnswersFrom publicOf spkiOf entries env) {keyId : Bytes} {p : Priv}
    {spec : AwskmsKeyspec} {fips : Bool} {key : Key} {pub : AwskmsPubkey Key}
    (hbad : hasFault keyId "fault-badspki" = false)
    (hd : Decoded h env (reportedSpki keyId (spkiOf p)) spec fips key pub) :
    reportedSpki keyId (spkiOf p) = spkiOf p := by
  have hnonempty := hd.nonempty
  have hanswer := hd.answer
  rw [reportedSpki, hbad] at hnonempty hanswer ⊢
  split at hnonempty
  · exact absurd rfl hnonempty
  · next hempty =>
      rw [if_neg hempty] at hanswer ⊢
      split at hanswer
      · rw [hans.halves] at hanswer
        cases hanswer
      · next htrunc =>
          rw [if_neg htrunc]
          rfl

end

end Stub

open Stub in
/-- In every state of a process on the stub backend, whoever holds a key that
was loaded holds the key of the one entry under its key id, and what was
reported of it was true. -/
theorem stub_loads {publicOf : Priv → Key} {spkiOf : Priv → Bytes}
    {evs : List (Rec (Sys Alg Key × List (Entry Priv)) (StubInput Alg Key Priv) Event)}
    {s : Sys Alg Key × List (Entry Priv)} (hr : (stubbed h Priv).Run evs s)
    (hf : ∀ e ∈ evs, Tells h publicOf spkiOf e.input) {r : KeyRef}
    (hloaded : (s.1.keys r).pub.spec.isSome) (hpriv : hasPrivateKey (s.1.keys r) = true)
    (hbad : hasFault ((s.1.keys r).uri.keyId.getD []) "fault-badspki" = false) :
    ∃ e, entryOf s.2 ((s.1.keys r).uri.keyId.getD []) = some e ∧
      specFromKeyId e.keyId = some e.spec ∧
      PairView h ⟨e.spec.kmsKeySpec, spkiOf e.pkey, publicOf e.pkey⟩ e.spec
        (s.1.keys r).pub ∧
      reportedKeySpec e.keyId e.spec = e.spec.kmsKeySpec ∧
      reportedSpki e.keyId (spkiOf e.pkey) = spkiOf e.pkey := by
  have htraced := traced_run (provided_run hr) (answersFrom_run hr hf)
  have ht := tidy_run hr
  obtain ⟨env, answer, spec, fips, pk, hE, hans, hspec, hd⟩ :=
    (htraced.kind r).loadedFrom hpriv hloaded
  obtain ⟨e, hmem, hid, rfl⟩ := hE.serves _ _ _ hans
  rw [← hid] at hbad ⊢
  have hspki := hE.spki_reported hbad hd
  have hnamed := ht.named e hmem
  have hrow : e.spec ∈ specs := List.mem_of_find?_eq_some hnamed
  obtain ⟨hrow', hname⟩ := awskmsKeyspecByName_mem hspec
  have hkey : pk = publicOf e.pkey := by
    have hanswer := hd.answer
    simp only [hspki] at hanswer
    exact hE.decodes _ _ _ _ hanswer
  subst hkey
  have hsame : spec = e.spec := (made_run hr hf e hmem).unique hrow hrow' hd
  subst hsame
  have hdecoded : Decoded h env (spkiOf e.pkey) e.spec fips (publicOf e.pkey)
      (s.1.keys r).pub := by
    simpa only [hspki] using hd
  exact ⟨e, ht.entryOf_mem hmem, hnamed, hdecoded.pairView (hname ▸ hspec) rfl, hname.symm,
    hspki⟩

open Stub in
/-- On the stub backend, what one context of a process signs another of it
verifies. -/
theorem stub_signed_verifies {publicOf : Priv → Key} {spkiOf : Priv → Bytes}
    {evs : List (Rec (Sys Alg Key × List (Entry Priv)) (StubInput Alg Key Priv) Event)}
    {s : Sys Alg Key × List (Entry Priv)} (hr : (stubbed h Priv).Run evs s)
    (hf : ∀ e ∈ evs, KeepsWord h publicOf spkiOf e.input) (signer verifier : SigUse h)
    (hs : signer.before ++ [signer.at_] <+: evs.map provided)
    (hv : verifier.before ++ [verifier.at_] <+: evs.map provided)
    (hkeyId : verifier.uri.keyId.getD [] = signer.uri.keyId.getD [])
    (hfault : Faultless (signer.uri.keyId.getD []))
    (htold : ToldAlike h signer.told verifier.told) {sig : Bytes}
    (hinput : SameInput h signer.ctx verifier.ctx signer.stream verifier.stream sig
      signer.call verifier.call)
    (hok : signer.at_.out.ok = true) (hsig : written signer.at_.out.trace = some sig)
    (henv : ∀ site, verifier.at_.input.env.ok site = true) :
    verifier.at_.out.ok = true := by
  obtain ⟨entry, -, -⟩ := use_entry hr hs
  have hsame : ∀ default : KmsKey Key, pairOf publicOf spkiOf default s.2 verifier.uri =
      pairOf publicOf spkiOf default s.2 signer.uri := by
    intro default
    rw [pairOf, pairOf, hkeyId]
  have haccepted := fun default : KmsKey Key => SigUse.accepted signer verifier
    (serviced_use hr hf hs hfault default)
    (serviced_use hr hf hv (hkeyId.symm ▸ hfault) default) (hsame default) htold hinput
    hok hsig henv
  rw [verifier.out_eq.1]
  exact haccepted ⟨entry.spec.kmsKeySpec, spkiOf entry.pkey, publicOf entry.pkey⟩

namespace Bench

open Stub

/-- A token with one Ed25519 key, which signs one message. -/
def edToken : Token Digest Unit where
  ok _ := true
  mldsaApi := true
  keygen g := if g = .type "ED25519" then some () else none
  i2dPubkey _ := some edSpki
  mdFetch _ := none
  digestSign _ msg _ := if msg = [0x72] then some edSig else none
  signMu _ _ _ _ := none
  sign _ _ _ _ := none

theorem keepsWord_edToken (call : Call) :
    KeepsWord host (fun _ => .ed25519) (fun _ => edSpki) ⟨call, Bench.env, edToken⟩ where
  encodes _ der hder := (Option.some.inj hder).symm
  decodes _ propq key n hdec := by
    have hed : Bench.env.d2iPubkey edSpki "" = some (.ed25519, edSpki.length) := by decide +kernel
    exact (Prod.mk.inj (Option.some.inj (hed.symm.trans hdec))).1.symm
  signs _ _ _ _ _ hsign := by cases hsign
  named _ _ _ hfetch := by cases hfetch
  signsMessage _ msg size sig hsign := by
    simp only [edToken] at hsign
    split at hsign
    · next hmsg =>
        obtain rfl := Option.some.inj hsign
        rw [hmsg]
        show host.digestVerify .ed25519 (messagePrimitive []) edSig [0x72] = true
        decide +kernel
    · cases hsign
  signsMu _ _ _ _ _ hsign := by cases hsign

def stubInputs (calls : List Call) : List (StubInput Digest PubKey Unit) :=
  calls.map fun call => ⟨call, Bench.env, edToken⟩

/-- Two contexts on one key of the stub. -/
def stubContexts : List Call :=
  opening "alias/ECC_NIST_EDWARDS25519" .oneshot ++ [Call.sigNewctx .oneshot none,
    Call.sig 0 (.oneshotInit none (some 0) none),
    Call.sig 1 (.oneshotInit none (some 0) none)]

def stubState (calls : List Call) : Sys Digest PubKey × List (Entry Unit) :=
  (stubbed host Unit).drive (stubbed host Unit).start (stubInputs calls)

def stubRecords (calls : List Call) :=
  (stubbed host Unit).records (stubbed host Unit).start (stubInputs calls)

theorem run_stubRecords {calls : List Call}
    (ha : (stubbed host Unit).AllowedAll (stubbed host Unit).start (stubInputs calls)) :
    (stubbed host Unit).Run (stubRecords calls) (stubState calls) :=
  Machine.run_records ha

theorem keepsWord_records {calls : List Call} : ∀ e ∈ stubRecords calls,
    KeepsWord host (fun _ => .ed25519) (fun _ => edSpki) e.input := by
  intro e he
  obtain ⟨call, -, hcall⟩ := List.mem_map.mp (Machine.records_input he)
  rw [← hcall]
  exact keepsWord_edToken call

/-- The use that a call makes after some others. -/
def stubUse (calls : List Call) (c : CtxRef) (sc : SigCall)
    (hfound : ((stubState calls).1.ctxs c).isSome)
    (hready : (((stubState calls).1.ctxs c).get hfound).1.offers sc = true ∧
      (((stubState calls).1.ctxs c).get hfound).2.key = some 0 ∧
      hasPrivateKey ((stubState calls).1.keys 0) = true ∧
      (stubbed host Unit).AllowedAll (stubbed host Unit).start
        (stubInputs calls ++ [⟨.sig c sc, Bench.env, edToken⟩])) : SigUse host where
  before := (stubRecords calls).map provided
  at_ := provided ((stubbed host Unit).recordAfter (stubInputs calls)
    ⟨.sig c sc, Bench.env, edToken⟩)
  state := ((stubbed host Unit).drive (stubbed host Unit).start
    (stubInputs calls ++ [⟨.sig c sc, Bench.env, edToken⟩])).1
  ref := c
  call := sc
  entry := ((stubState calls).1.ctxs c).get hfound
  key := 0
  run := by
    have hrun := provided_run (Machine.run_recordAfter hready.2.2.2)
    rwa [List.map_append, List.map_singleton] at hrun
  called := rfl
  found := (Option.some_get hfound).symm
  offered := hready.1
  bound := hready.2.1
  loaded := hready.2.2.1

def stubSigner : SigUse host :=
  stubUse stubContexts 0 (.oneshotSign buf [0x72]) (by decide +kernel) (by decide +kernel)

def stubSigned : List Call := stubContexts ++ [Call.sig 0 (.oneshotSign buf [0x72])]

def stubVerifier : SigUse host :=
  stubUse stubSigned 1 (.oneshotVerify edSig [0x72]) (by decide +kernel) (by decide +kernel)

theorem stubUse_prefix (calls : List Call) (call : Call) (more : List Call) :
    (stubRecords calls).map provided ++ [provided ((stubbed host Unit).recordAfter
      (stubInputs calls) ⟨call, Bench.env, edToken⟩)] <+:
        (stubRecords (calls ++ [call] ++ more)).map provided := by
  refine ⟨((stubbed host Unit).records (stubState (calls ++ [call])) (stubInputs more)).map
    provided, ?_⟩
  simp only [stubRecords, stubState, stubInputs, List.map_append, Machine.records_append]
  rfl

/-- A token with one RSA key, which signs nothing. -/
def rsaToken : Token Digest Unit where
  ok _ := true
  mldsaApi := true
  keygen g := if g = .rsa 2048 then some () else none
  i2dPubkey _ := some rsaSpki
  mdFetch _ := none
  digestSign _ _ _ := none
  signMu _ _ _ _ := none
  sign _ _ _ _ := none

theorem tells_rsaToken (call : Call) :
    Tells host (fun _ => .rsa) (fun _ => rsaSpki) ⟨call, Bench.env, rsaToken⟩ where
  encodes _ der hder := (Option.some.inj hder).symm
  decodes _ propq key n hdec := by
    have hrsa : Bench.env.d2iPubkey rsaSpki "" = some (.rsa, rsaSpki.length) := by
      decide +kernel
    exact (Prod.mk.inj (Option.some.inj (hrsa.symm.trans hdec))).1.symm
  signs _ _ _ _ _ hsign := by cases hsign
  named _ _ _ hfetch := by cases hfetch
  signsMessage _ _ _ _ hsign := by cases hsign
  signsMu _ _ _ _ _ hsign := by cases hsign
  makes g p hkey := by
    simp only [rsaToken] at hkey
    split at hkey
    · next hg =>
        rw [hg]
        exact ⟨by decide, rfl⟩
    · cases hkey
  halves _ propq := by
    show Bench.env.d2iPubkey (rsaSpki.take (rsaSpki.length / 2)) "" = none
    decide +kernel

/-- A key id whose marker makes the stub report the KeySpec the key has. -/
def markedInputs : List (StubInput Digest PubKey Unit) :=
  (opening "RSA_2048-fault-wrongtype" .prehash).map fun call => ⟨call, Bench.env, rsaToken⟩

def markedState : Sys Digest PubKey × List (Entry Unit) :=
  (stubbed host Unit).drive (stubbed host Unit).start markedInputs

theorem run_marked : (stubbed host Unit).Run
    ((stubbed host Unit).records (stubbed host Unit).start markedInputs) markedState :=
  Machine.run_records (by decide +kernel)

theorem tells_marked : ∀ e ∈ (stubbed host Unit).records (stubbed host Unit).start
    markedInputs, Tells host (fun _ => .rsa) (fun _ => rsaSpki) e.input := by
  intro e he
  obtain ⟨call, -, hcall⟩ := List.mem_map.mp (Machine.records_input he)
  rw [← hcall]
  exact tells_rsaToken call

end Bench

theorem stub_signed_verifies_ed : Bench.stubVerifier.at_.out.ok = true :=
  stub_signed_verifies (Bench.run_stubRecords (by decide +kernel)) Bench.keepsWord_records
    Bench.stubSigner Bench.stubVerifier
    (Bench.stubUse_prefix Bench.stubContexts _ [.sig 1 (.oneshotVerify Bench.edSig [0x72])])
    (Bench.stubUse_prefix Bench.stubSigned _ [])
    (by decide +kernel) (by decide +kernel)
    ⟨by decide +kernel, by decide +kernel, by decide +kernel⟩ (.message rfl)
    (by decide +kernel) (by decide +kernel) (fun _ => rfl)

theorem stub_loads_marked :
    ¬ Stub.Faultless ((Bench.markedState.1.keys 0).uri.keyId.getD []) ∧
    ∃ e, Stub.entryOf Bench.markedState.2
        ((Bench.markedState.1.keys 0).uri.keyId.getD []) = some e ∧
      Stub.specFromKeyId e.keyId = some e.spec ∧
      PairView Bench.host ⟨e.spec.kmsKeySpec, Bench.rsaSpki, .rsa⟩ e.spec
        (Bench.markedState.1.keys 0).pub ∧
      Stub.reportedKeySpec e.keyId e.spec = e.spec.kmsKeySpec ∧
      Stub.reportedSpki e.keyId Bench.rsaSpki = Bench.rsaSpki :=
  ⟨by decide +kernel, stub_loads Bench.run_marked Bench.tells_marked
    (by decide +kernel) (by decide +kernel) (by decide +kernel)⟩

end AwsKms.Model
