import AwsKms.Proofs.History

/-!
# The blocks of a parameter or init call

`awskms_sig_set_ctx_params` and the inits are sequences of small blocks, each
of which either succeeds or refuses and leaves the context alone. `callBlocks`
lists the blocks of every such call in the order of the source, and
`sigCall_eq_blocks` says that the call is that list run in order.

Each block comes with a note of what its success settles. Run beside the
call, the notes make up `taken`: what a context was last told, setting by
setting, whether or not the call that told it went on to fail. `Mirrors` is
what the notes are good for: the settings a context holds are exactly the
ones it took last.
-/

namespace AwsKms.Model

open AwsKms.Lib

variable {Alg Key : Type}

/-- What a context was last told. A digest is the one its name was answered
with; `mgf1` is the name itself, which is all the context ever sees of it. -/
structure Demands (Alg : Type) where
  digest : Option Alg
  padding : Option RsaPadding
  saltlen : Option Int
  context : Option Bytes
  instanceName : Option Bytes
  mgf1 : Option Bytes
  deriving DecidableEq, Repr

/-- A context that was told nothing yet. -/
def Demands.none {Alg : Type} : Demands Alg :=
  ⟨.none, .none, .none, .none, .none, .none⟩

/-- A block, and what it notes when it succeeds. -/
abbrev Block (Alg Key : Type) :=
  Act (AwskmsSigCtx Alg Key) Event ×
    (AwskmsSigCtx Alg Key → Demands Alg → Demands Alg)

section

variable (h : Host Alg Key) (env : Env Alg Key) (keys : Keys Key)

def noteDigest (name : Bytes) (ctx : AwskmsSigCtx Alg Key)
    (d : Demands Alg) : Demands Alg :=
  { d with digest := if name = [] then none
    else env.mdFetch name (operationPropq keys ctx) }

def noteDigestParam (p : OsslParam) (ctx : AwskmsSigCtx Alg Key)
    (d : Demands Alg) : Demands Alg :=
  match getUtf8Param p 64 with
  | none => d
  | some name => noteDigest env keys name ctx d

def notePadMode (p : OsslParam) (_ctx : AwskmsSigCtx Alg Key)
    (d : Demands Alg) : Demands Alg :=
  { d with padding := (readPadMode p).bind RsaPadding.ofInt }

def notePssSaltlen (p : OsslParam) (_ctx : AwskmsSigCtx Alg Key)
    (d : Demands Alg) : Demands Alg :=
  { d with saltlen := readPssSaltlen h p }

def noteContextString (p : OsslParam) (_ctx : AwskmsSigCtx Alg Key)
    (d : Demands Alg) : Demands Alg :=
  match getOctetStringPtr p with
  | none => d
  | some data => { d with context := some data }

def noteInstance (p : OsslParam) (_ctx : AwskmsSigCtx Alg Key)
    (d : Demands Alg) : Demands Alg :=
  { d with instanceName := getUtf8Param p 32 }

def noteMgf1Digest (p : OsslParam) (_ctx : AwskmsSigCtx Alg Key)
    (d : Demands Alg) : Demands Alg :=
  { d with mgf1 := getUtf8Param p 64 }

def noteMdname (mdname : Option Bytes) (ctx : AwskmsSigCtx Alg Key)
    (d : Demands Alg) : Demands Alg :=
  match mdname with
  | none | some [] => d
  | some name => noteDigest env keys name ctx d

/-- A block that settles nothing a caller demands. -/
def silent (a : Act (AwskmsSigCtx Alg Key) Event) : Block Alg Key :=
  (a, fun _ d => d)

/-- The block of one parameter: nothing, when the parameter is not there. -/
def paramBlock (ps : List OsslParam) (key : String)
    (block : OsslParam → Act (AwskmsSigCtx Alg Key) Event)
    (note : OsslParam → AwskmsSigCtx Alg Key → Demands Alg → Demands Alg) :
    Block Alg Key :=
  (onParam ps key block, match locate ps key with
    | none => fun _ d => d
    | some p => note p)

/-- The six blocks of `settings`, noted. -/
def paramBlocks : Option (List OsslParam) → List (Block Alg Key)
  | none => []
  | some ps => [
      paramBlock ps ossl_SIGNATURE_PARAM_DIGEST (applyDigest h env keys)
        (noteDigestParam env keys),
      paramBlock ps ossl_SIGNATURE_PARAM_PAD_MODE applyPadMode notePadMode,
      paramBlock ps ossl_SIGNATURE_PARAM_PSS_SALTLEN (applyPssSaltlen h)
        (notePssSaltlen h),
      paramBlock ps ossl_SIGNATURE_PARAM_CONTEXT_STRING applyContextString
        noteContextString,
      paramBlock ps ossl_SIGNATURE_PARAM_INSTANCE applyInstance noteInstance,
      paramBlock ps ossl_SIGNATURE_PARAM_MGF1_DIGEST (checkMgf1Digest h)
        noteMgf1Digest]

/-- The blocks of a parameter or init call, in order. -/
def callBlocks : SigCall → List (Block Alg Key)
  | .setCtxParams params => paramBlocks h env keys params
  | .signInit provkey params | .verifyInit provkey params =>
      silent (bindKey h env keys provkey) :: paramBlocks h env keys params
  | .digestSignInit mdname provkey params
  | .digestVerifyInit mdname provkey params =>
      silent (bindKey h env keys provkey) :: (paramBlocks h env keys params ++
        [(applyMdname h env keys mdname, noteMdname env keys mdname),
          silent (restartHash env keys)])
  | .oneshotInit mdname provkey params =>
      silent (bindKey h env keys provkey) :: (paramBlocks h env keys params ++
        [silent (refuseMdname keys mdname),
          silent fun ctx => (unsupportedParamsRefused keys ctx).keep ctx])
  | _ => []

end

/-- The parameter calls and the inits. -/
def SigCall.isSetup : SigCall → Bool
  | .setCtxParams _ | .signInit .. | .verifyInit .. | .digestSignInit ..
  | .digestVerifyInit .. | .oneshotInit .. => true
  | _ => false

/-- What a call makes of the demands on record. -/
def taken (h : Host Alg Key) : Note Alg Key (Demands Alg) :=
  fun env keys sc ctx d => Act.track (callBlocks h env keys sc) ctx d

/-- The demands of the calls that succeeded alone. -/
def accepted (h : Host Alg Key) : Note Alg Key (Demands Alg) :=
  fun env keys sc ctx d =>
    if (sigCall h env keys sc ctx).ok then taken h env keys sc ctx d else d

section

variable {h : Host Alg Key} {env : Env Alg Key} {keys : Keys Key}

theorem paramBlocks_all {params : Option (List OsslParam)} :
    Act.all ((paramBlocks h env keys params).map (·.1)) =
      awskmsSigSetCtxParams h env keys params := by
  cases params with
  | none => rfl
  | some ps => rfl

/-- A parameter or init call is its blocks, run in order. -/
theorem sigCall_eq_blocks {sc : SigCall} (hsc : sc.isSetup = true)
    (ctx : AwskmsSigCtx Alg Key) :
    sigCall h env keys sc ctx =
      Act.all ((callBlocks h env keys sc).map (·.1)) ctx := by
  have htail : ∀ (params : Option (List OsslParam))
      (bs : List (Block Alg Key)),
      (awskmsSigSetCtxParams h env keys params).andThen
          (Act.all (bs.map (·.1))) =
        Act.all ((paramBlocks h env keys params ++ bs).map (·.1)) := by
    intro params bs
    funext x
    rw [List.map_append, Act.all_append, paramBlocks_all]
  cases sc with
  | setCtxParams params =>
      rw [callBlocks, paramBlocks_all]
      rfl
  | signInit provkey params =>
      rw [callBlocks, List.map_cons, Act.all_cons, paramBlocks_all]
      rfl
  | verifyInit provkey params =>
      rw [callBlocks, List.map_cons, Act.all_cons, paramBlocks_all]
      rfl
  | digestSignInit mdname provkey params =>
      rw [callBlocks, List.map_cons, Act.all_cons, ← htail]
      rfl
  | digestVerifyInit mdname provkey params =>
      rw [callBlocks, List.map_cons, Act.all_cons, ← htail]
      rfl
  | oneshotInit mdname provkey params =>
      rw [callBlocks, List.map_cons, Act.all_cons, ← htail]
      rfl
  | _ => cases hsc

/-! ## What each block does

A block either goes through and makes its write, or refuses and leaves the
context alone. The lemmas say so block by block; nothing after them opens a
block again. -/

theorem bindKey_atomic {provkey : Option KeyRef} :
    (bindKey h env keys provkey).Atomic := by
  intro x hx
  unfold bindKey at hx ⊢
  split
  · rfl
  · split
    · rfl
    · split
      · simp only []
        split
        · next r _ hneed hview =>
            simp_all
        · rfl
      · next r hup hneed => simp_all

theorem setDigest_atomic {name : Bytes} :
    (setDigest h env keys name).Atomic := by
  intro x hx
  unfold setDigest at hx ⊢
  split
  · next hn =>
      rw [if_pos hn] at hx
      cases hx
  · next hn =>
      rw [if_neg hn] at hx
      simp only [] at hx ⊢
      split
      · rfl
      · next alg halg =>
          simp only [halg] at hx
          split
          · rfl
          · next hxof =>
              rw [if_neg hxof] at hx
              cases hx

theorem setDigest_ok {name : Bytes} {x : AwskmsSigCtx Alg Key}
    (hok : (setDigest h env keys name x).ok = true) :
    name = [] ∧ (setDigest h env keys name x).state =
        { x with md := none, digest := .none } ∨
      ∃ alg, name ≠ [] ∧
        env.mdFetch name (operationPropq keys x) = some alg ∧
        (setDigest h env keys name x).state = { x with
          md := some ⟨alg, operationPropq keys x⟩,
          digest := awskmsDigestOf h alg } := by
  unfold setDigest at hok ⊢
  split
  · next hn => exact .inl ⟨hn, rfl⟩
  · next hn =>
      rw [if_neg hn] at hok
      simp only [] at hok ⊢
      split
      · next hf =>
          simp only [hf] at hok
          cases hok
      · next alg hf =>
          simp only [hf] at hok
          split
          · next hxof =>
              rw [if_pos hxof] at hok
              cases hok
          · exact .inr ⟨alg, hn, hf, rfl⟩

theorem applyDigest_atomic {p : OsslParam} :
    (applyDigest h env keys p).Atomic := by
  unfold applyDigest
  split
  · exact Act.atomic_refuse _
  · exact setDigest_atomic

theorem atomic_write {f : AwskmsSigCtx Alg Key → AwskmsSigCtx Alg Key} :
    Act.Atomic (fun ctx => (⟨true, f ctx, []⟩ : Out _ Event)) := by
  intro x hx
  simp at hx

theorem applyPadMode_atomic {p : OsslParam} :
    (applyPadMode p : Act (AwskmsSigCtx Alg Key) Event).Atomic := by
  unfold applyPadMode
  split
  · exact Act.atomic_refuse _
  · split
    · exact Act.atomic_refuse _
    · exact atomic_write

theorem applyPssSaltlen_atomic {p : OsslParam} :
    (applyPssSaltlen h p : Act (AwskmsSigCtx Alg Key) Event).Atomic := by
  unfold applyPssSaltlen
  split
  · exact Act.atomic_refuse _
  · exact atomic_write

theorem applyContextString_atomic {p : OsslParam} :
    (applyContextString p : Act (AwskmsSigCtx Alg Key) Event).Atomic := by
  unfold applyContextString
  split
  · exact Act.atomic_refuse _
  · intro x hx
    simp only [] at hx ⊢
    split
    · next hfit =>
        rw [dif_pos hfit] at hx
        cases hx
    · rfl

theorem applyInstance_atomic {p : OsslParam} :
    (applyInstance p : Act (AwskmsSigCtx Alg Key) Event).Atomic := by
  unfold applyInstance
  split
  · exact Act.atomic_refuse _
  · exact atomic_write

theorem onParam_atomic {ps : List OsslParam} {key : String}
    {block : OsslParam → Act (AwskmsSigCtx Alg Key) Event}
    (hblock : ∀ p, (block p).Atomic) : (onParam ps key block).Atomic := by
  unfold onParam
  split
  · exact Act.atomic_done
  · exact hblock _

theorem paramBlocks_atomic {params : Option (List OsslParam)} :
    ∀ b ∈ paramBlocks h env keys params, b.1.Atomic := by
  intro b hb
  cases params with
  | none => cases hb
  | some ps =>
      simp only [paramBlocks, List.mem_cons, List.not_mem_nil, or_false] at hb
      rcases hb with rfl | rfl | rfl | rfl | rfl | rfl
      · exact onParam_atomic fun p => applyDigest_atomic
      · exact onParam_atomic fun p => applyPadMode_atomic
      · exact onParam_atomic fun p => applyPssSaltlen_atomic
      · exact onParam_atomic fun p => applyContextString_atomic
      · exact onParam_atomic fun p => applyInstance_atomic
      · exact onParam_atomic fun p x _ => checkMgf1Digest_state

theorem applyMdname_atomic {mdname : Option Bytes} :
    (applyMdname h env keys mdname).Atomic := by
  unfold applyMdname
  split
  · exact Act.atomic_done
  · exact Act.atomic_done
  · exact setDigest_atomic

theorem refuseMdname_atomic {mdname : Option Bytes} :
    (refuseMdname keys mdname : Act (AwskmsSigCtx Alg Key) Event).Atomic := by
  intro x hx
  unfold refuseMdname at hx ⊢
  split at hx
  · cases hx
  · cases hx
  · rfl

/-! ## The settings a context holds are the ones it took last

The notes of the blocks are a record kept outside the context. That the two
agree is an induction over a call's blocks: a block that refuses moves
neither, one that goes through moves both alike. -/

/-- A context and the demands on record say the same. -/
structure Mirrors (ctx : AwskmsSigCtx Alg Key) (d : Demands Alg) : Prop where
  digest : ctx.md.map (·.alg) = d.digest
  padding : ctx.padMode = d.padding.getD .pkcs1
  saltlen : ctx.pssSaltlen = d.saltlen.getD rsa_PSS_SALTLEN_DIGEST
  context : ctx.context.bytes = d.context.getD []
  hasInstance : ctx.hasInstance = d.instanceName.isSome
  instanceName : ctx.instanceName = d.instanceName.getD []

/-- A block whose note says what it does. -/
structure Faithful (b : Block Alg Key) : Prop where
  ok : ∀ x d, Mirrors x d → (b.1 x).ok = true →
    Mirrors (b.1 x).state (b.2 x d)
  failed : ∀ x d, Mirrors x d → (b.1 x).ok = false → Mirrors (b.1 x).state d

/-- The settings of two contexts are the same. -/
structure SameSettings (x y : AwskmsSigCtx Alg Key) : Prop where
  md : y.md = x.md
  padMode : y.padMode = x.padMode
  pssSaltlen : y.pssSaltlen = x.pssSaltlen
  context : y.context.bytes = x.context.bytes
  hasInstance : y.hasInstance = x.hasInstance
  instanceName : y.instanceName = x.instanceName

theorem SameSettings.refl (x : AwskmsSigCtx Alg Key) : SameSettings x x :=
  ⟨rfl, rfl, rfl, rfl, rfl, rfl⟩

theorem Mirrors.of_same {x y : AwskmsSigCtx Alg Key} {d : Demands Alg}
    (hx : Mirrors x d) (hs : SameSettings x y) : Mirrors y d :=
  ⟨by rw [hs.md, hx.digest], by rw [hs.padMode, hx.padding],
    by rw [hs.pssSaltlen, hx.saltlen], by rw [hs.context, hx.context],
    by rw [hs.hasInstance, hx.hasInstance],
    by rw [hs.instanceName, hx.instanceName]⟩

theorem faithful_silent {a : Act (AwskmsSigCtx Alg Key) Event}
    (ha : ∀ x, SameSettings x (a x).state) : Faithful (silent a) :=
  ⟨fun x _ hx _ => hx.of_same (ha x), fun x _ hx _ => hx.of_same (ha x)⟩

theorem faithful_atomic {a : Act (AwskmsSigCtx Alg Key) Event}
    {note : AwskmsSigCtx Alg Key → Demands Alg → Demands Alg}
    (hat : a.Atomic)
    (hok : ∀ x d, Mirrors x d → (a x).ok = true →
      Mirrors (a x).state (note x d)) : Faithful (a, note) := by
  refine ⟨hok, fun x d hx hf => ?_⟩
  rw [hat x hf]
  exact hx

theorem mirrors_setDigest {name : Bytes} {x : AwskmsSigCtx Alg Key}
    {d : Demands Alg} (hx : Mirrors x d)
    (hok : (setDigest h env keys name x).ok = true) :
    Mirrors (setDigest h env keys name x).state
      (noteDigest env keys name x d) := by
  rcases setDigest_ok hok with ⟨hn, hst⟩ | ⟨alg, hn, hf, hst⟩
  · rw [hst, noteDigest, if_pos hn]
    exact ⟨rfl, hx.padding, hx.saltlen, hx.context, hx.hasInstance,
      hx.instanceName⟩
  · rw [hst, noteDigest, if_neg hn, hf]
    exact ⟨rfl, hx.padding, hx.saltlen, hx.context, hx.hasInstance,
      hx.instanceName⟩

theorem faithful_paramBlock {ps : List OsslParam} {key : String}
    {block : OsslParam → Act (AwskmsSigCtx Alg Key) Event}
    {note : OsslParam → AwskmsSigCtx Alg Key → Demands Alg → Demands Alg}
    (hb : ∀ p, Faithful (block p, note p)) :
    Faithful (paramBlock ps key block note) := by
  cases hl : locate ps key with
  | none =>
      simp only [paramBlock, onParam, hl]
      exact faithful_silent fun x => SameSettings.refl x
  | some p =>
      simp only [paramBlock, onParam, hl]
      exact hb p

theorem faithful_digest {p : OsslParam} :
    Faithful (applyDigest h env keys p, noteDigestParam env keys p) := by
  refine faithful_atomic applyDigest_atomic fun x d hx hok => ?_
  cases hn : getUtf8Param p 64 with
  | none =>
      simp only [applyDigest, hn] at hok
      cases hok
  | some name =>
      simp only [applyDigest, noteDigestParam, hn] at hok ⊢
      exact mirrors_setDigest hx hok

theorem faithful_padMode {p : OsslParam} :
    Faithful ((applyPadMode p, notePadMode p) : Block Alg Key) := by
  refine faithful_atomic applyPadMode_atomic fun x d hx hok => ?_
  cases hn : readPadMode p with
  | none =>
      simp only [applyPadMode, hn] at hok
      cases hok
  | some n =>
      cases hm : RsaPadding.ofInt n with
      | none =>
          simp only [applyPadMode, hn, hm] at hok
          cases hok
      | some mode =>
          simp only [applyPadMode, notePadMode, hn, hm, Option.bind_some]
          exact ⟨hx.digest, rfl, hx.saltlen, hx.context, hx.hasInstance,
            hx.instanceName⟩

theorem faithful_pssSaltlen {p : OsslParam} :
    Faithful ((applyPssSaltlen h p, notePssSaltlen h p) : Block Alg Key) := by
  refine faithful_atomic applyPssSaltlen_atomic fun x d hx hok => ?_
  cases hn : readPssSaltlen h p with
  | none =>
      simp only [applyPssSaltlen, hn] at hok
      cases hok
  | some n =>
      simp only [applyPssSaltlen, notePssSaltlen, hn]
      exact ⟨hx.digest, hx.padding, rfl, hx.context, hx.hasInstance,
        hx.instanceName⟩

theorem faithful_contextString {p : OsslParam} :
    Faithful ((applyContextString p, noteContextString p) : Block Alg Key) := by
  refine faithful_atomic applyContextString_atomic fun x d hx hok => ?_
  cases hd : getOctetStringPtr p with
  | none =>
      simp only [applyContextString, hd] at hok
      cases hok
  | some data =>
      by_cases hfit : data.length ≤ 255
      · simp only [applyContextString, noteContextString, hd, dif_pos hfit]
        exact ⟨hx.digest, hx.padding, hx.saltlen,
          ContextString.store_bytes _ _ hfit, hx.hasInstance, hx.instanceName⟩
      · simp only [applyContextString, hd, dif_neg hfit] at hok
        cases hok

theorem faithful_instance {p : OsslParam} :
    Faithful ((applyInstance p, noteInstance p) : Block Alg Key) := by
  refine faithful_atomic applyInstance_atomic fun x d hx hok => ?_
  cases hn : getUtf8Param p 32 with
  | none =>
      simp only [applyInstance, hn] at hok
      cases hok
  | some name =>
      simp only [applyInstance, noteInstance, hn]
      exact ⟨hx.digest, hx.padding, hx.saltlen, hx.context, rfl, rfl⟩

theorem faithful_mgf1Digest {p : OsslParam} :
    Faithful ((checkMgf1Digest h p, noteMgf1Digest p) : Block Alg Key) := by
  refine faithful_atomic (fun x _ => checkMgf1Digest_state) fun x d hx _ => ?_
  rw [checkMgf1Digest_state]
  exact ⟨hx.digest, hx.padding, hx.saltlen, hx.context, hx.hasInstance,
    hx.instanceName⟩

theorem faithful_paramBlocks {params : Option (List OsslParam)} :
    ∀ b ∈ paramBlocks h env keys params, Faithful b := by
  intro b hb
  cases params with
  | none => cases hb
  | some ps =>
      simp only [paramBlocks, List.mem_cons, List.not_mem_nil, or_false] at hb
      rcases hb with rfl | rfl | rfl | rfl | rfl | rfl
      · exact faithful_paramBlock fun p => faithful_digest
      · exact faithful_paramBlock fun p => faithful_padMode
      · exact faithful_paramBlock fun p => faithful_pssSaltlen
      · exact faithful_paramBlock fun p => faithful_contextString
      · exact faithful_paramBlock fun p => faithful_instance
      · exact faithful_paramBlock fun p => faithful_mgf1Digest

theorem faithful_bindKey {provkey : Option KeyRef} :
    Faithful (silent (bindKey h env keys provkey)) := by
  refine faithful_silent fun x => ?_
  unfold bindKey
  split
  · exact SameSettings.refl x
  · split
    · exact SameSettings.refl x
    · split
      · simp only []
        split
        · exact ⟨rfl, rfl, rfl, rfl, rfl, rfl⟩
        · exact SameSettings.refl x
      · exact ⟨rfl, rfl, rfl, rfl, rfl, rfl⟩

theorem faithful_restartHash : Faithful (silent (restartHash env keys)) := by
  refine faithful_silent fun x => ?_
  unfold restartHash
  split
  · exact SameSettings.refl x
  · split
    · exact ⟨rfl, rfl, rfl, rfl, rfl, rfl⟩
    · split
      · exact ⟨rfl, rfl, rfl, rfl, rfl, rfl⟩
      · exact ⟨rfl, rfl, rfl, rfl, rfl, rfl⟩

theorem faithful_mdname {mdname : Option Bytes} :
    Faithful (applyMdname h env keys mdname, noteMdname env keys mdname) := by
  cases mdname with
  | none => exact faithful_silent fun x => SameSettings.refl x
  | some name =>
      cases name with
      | nil => exact faithful_silent fun x => SameSettings.refl x
      | cons c name =>
          exact faithful_atomic setDigest_atomic
            fun x d hx hok => mirrors_setDigest hx hok

theorem faithful_refuseMdname {mdname : Option Bytes} :
    Faithful (silent (refuseMdname keys mdname) : Block Alg Key) := by
  refine faithful_silent fun x => ?_
  unfold refuseMdname
  split
  · exact ⟨rfl, rfl, rfl, rfl, rfl, rfl⟩
  · exact ⟨rfl, rfl, rfl, rfl, rfl, rfl⟩
  · exact SameSettings.refl x

theorem faithful_callBlocks (sc : SigCall) :
    ∀ b ∈ callBlocks h env keys sc, Faithful b := by
  have hdigest : ∀ mdname provkey params, ∀ b ∈
      callBlocks h env keys (.digestSignInit mdname provkey params),
      Faithful b := by
    intro mdname provkey params b hb
    simp only [callBlocks, List.mem_cons, List.mem_append, List.not_mem_nil,
      or_false] at hb
    rcases hb with rfl | hb | rfl | rfl
    · exact faithful_bindKey
    · exact faithful_paramBlocks b hb
    · exact faithful_mdname
    · exact faithful_restartHash
  have hsign : ∀ provkey params, ∀ b ∈
      callBlocks h env keys (.signInit provkey params), Faithful b := by
    intro provkey params b hb
    rcases List.mem_cons.mp hb with rfl | hb
    · exact faithful_bindKey
    · exact faithful_paramBlocks b hb
  cases sc with
  | setCtxParams params => exact fun b hb => faithful_paramBlocks b hb
  | signInit provkey params => exact hsign provkey params
  | verifyInit provkey params => exact hsign provkey params
  | digestSignInit mdname provkey params => exact hdigest mdname provkey params
  | digestVerifyInit mdname provkey params =>
      exact hdigest mdname provkey params
  | oneshotInit mdname provkey params =>
      intro b hb
      simp only [callBlocks, List.mem_cons, List.mem_append, List.not_mem_nil,
        or_false] at hb
      rcases hb with rfl | hb | rfl | rfl
      · exact faithful_bindKey
      · exact faithful_paramBlocks b hb
      · exact faithful_refuseMdname
      · exact faithful_silent fun x => SameSettings.refl x
  | _ =>
      intro b hb
      cases hb

/-- A call outside parameters and inits leaves the settings alone. -/
theorem sigCall_sameSettings {sc : SigCall} (hsc : sc.isSetup = false)
    (x : AwskmsSigCtx Alg Key) :
    SameSettings x (sigCall h env keys sc x).state := by
  have hparam : ∀ key, sc.param key = none := by
    intro key
    cases sc <;> first | rfl | cases hsc
  have hmdname : sc.mdname = none := by cases sc <;> first | rfl | cases hsc
  have hnames : ∀ name, name ∉ sc.names := by
    intro name hn
    rcases SigCall.mem_names.mp hn with hn | hn
    · rw [SigCall.digestParam, hparam] at hn
      cases hn
    · rw [hmdname] at hn
      cases hn
  refine sigCall_keeps (P := SameSettings x) ?_ (SameSettings.refl x)
  intro y z hw hy
  cases hw with
  | clearDigest hd => exact absurd (SigCall.mem_names.mpr (.inl hd)) (hnames _)
  | selectDigest hn _ _ _ => exact absurd hn (hnames _)
  | padMode hp _ _ | saltlen hp _ | context _ hp _ | instanceName hp _ =>
      rw [hparam] at hp
      cases hp
  | _ =>
      exact ⟨hy.md, hy.padMode, hy.pssSaltlen, hy.context, hy.hasInstance,
        hy.instanceName⟩

theorem mirrors_call {sc : SigCall} {x : AwskmsSigCtx Alg Key}
    {d : Demands Alg} (hx : Mirrors x d) :
    Mirrors (sigCall h env keys sc x).state (taken h env keys sc x d) := by
  cases hsc : sc.isSetup with
  | true =>
      rw [sigCall_eq_blocks hsc]
      exact Act.track_all (R := Mirrors)
        (fun b hb x d hx hok => (faithful_callBlocks sc b hb).ok x d hx hok)
        (fun b hb x d hx hf => (faithful_callBlocks sc b hb).failed x d hx hf)
        hx
  | false =>
      have hnone : callBlocks h env keys sc = [] := by
        cases sc <;> first | rfl | cases hsc
      rw [taken, hnone]
      exact hx.of_same (sigCall_sameSettings hsc x)

theorem mirrors_new {fips : Bool} :
    Mirrors (AwskmsSigCtx.new fips : AwskmsSigCtx Alg Key) Demands.none :=
  ⟨rfl, rfl, rfl, rfl, rfl, rfl⟩

theorem mirrors_copy {x : AwskmsSigCtx Alg Key} {d : Demands Alg}
    (hx : Mirrors x d) : Mirrors x.copy d :=
  hx.of_same ⟨rfl, rfl, rfl, ContextString.copy_bytes _, rfl, rfl⟩

/-- In every reachable state, the settings of a context are the ones it took
last. -/
theorem mirrors_run {evs : List (Rec (Sys Alg Key) (Input Alg Key) Event)}
    {s : Sys Alg Key} (hr : (provider h).Run evs s) {c : CtxRef}
    {table : SigTable} {ctx : AwskmsSigCtx Alg Key}
    (hc : s.ctxs c = some (table, ctx)) :
    Mirrors ctx (historyOf (taken h) Demands.none evs c) :=
  history_run (R := fun _ => Mirrors) (C := fun _ _ _ _ _ => True)
    (fun _ _ => mirrors_new) (fun _ _ _ hx => mirrors_copy hx)
    (fun _ _ _ _ _ _ _ _ hx => mirrors_call hx) hr
    (EachCall.of_forall fun _ _ _ _ _ => trivial) hc

/-- A digest class is that of the selected digest. -/
def Classified (h : Host Alg Key) (ctx : AwskmsSigCtx Alg Key) : Prop :=
  ctx.digest = .none ∨
    ∃ md, ctx.md = some md ∧ ctx.digest = awskmsDigestOf h md.alg

/-- In every reachable state, the class a context names is that of its
digest. -/
theorem classified_run {evs : List (Rec (Sys Alg Key) (Input Alg Key) Event)}
    {s : Sys Alg Key} (hr : (provider h).Run evs s) {c : CtxRef}
    {table : SigTable} {ctx : AwskmsSigCtx Alg Key}
    (hc : s.ctxs c = some (table, ctx)) : Classified h ctx := by
  have hfree : EachCall (fun _ _ _ _ g => g) () (fun _ _ _ _ _ => True) evs :=
    EachCall.of_forall fun _ _ _ _ _ => trivial
  refine history_run (R := fun _ ctx _ => Classified h ctx)
    (fun _ _ => .inl rfl) (fun _ _ _ hx => hx) ?_ hr hfree hc
  intro env keys table sc ctx g _ _ hx
  refine sigCall_keeps (P := Classified h) ?_ hx
  intro y z hw hy
  cases hw with
  | clearDigest _ => exact .inl rfl
  | selectDigest _ _ _ _ => exact .inr ⟨_, rfl, rfl⟩
  | dropDigest _ => exact .inl rfl
  | _ => exact hy

end

end AwsKms.Model
