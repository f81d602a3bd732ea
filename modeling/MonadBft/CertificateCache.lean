import MonadBft.Ideal
import MonadBft.Memo

/-!
# The cache of verified certificates

Certificates repeat: the QC of a proposal comes again in the votes, timeouts and
proposals of the rounds after it. `CertificateCache` remembers the encodings of the
certificates that verified, and `verifyQc`, `verifyNec`, `verifyTc` and `verifyTip` of
`signing.rs` look there first. The entries are written in the middle of nested checks: a
tip's QC is remembered even if its certificate of freshness fails afterwards.

The invariant behind `verifyAll_eq_map` is `CertificateCache.Sound`: what is remembered
verifies, without the cache, for the validators of all calls. The checks without any cache
are those of `Signing` (`verifyAll_eq_plain`).
-/

namespace MonadBft

variable {T : Types} {Key : Type} [DecidableEq Key]

/-- The encodings certificates are remembered by. -/
structure CertificateKeys (T : Types) (Key : Type) where
  encodeQc : QuorumCertificate T → Key
  encodeTc : TimeoutCertificate T → Key
  encodeNec : NoEndorsementCertificate T → Key

/-- Different certificates of one kind have different encodings. -/
structure CertificateKeys.Injective (keys : CertificateKeys T Key) : Prop where
  qc : Function.Injective keys.encodeQc
  tc : Function.Injective keys.encodeTc
  nec : Function.Injective keys.encodeNec

/-- How many certificates of each kind are remembered. -/
structure CacheCapacity where
  qc : ℕ
  tc : ℕ
  nec : ℕ

def QC_CACHE_CAPACITY : ℕ := 1000

def TC_CACHE_CAPACITY : ℕ := 1000

def NEC_CACHE_CAPACITY : ℕ := 1000

def CacheCapacity.default : CacheCapacity :=
  ⟨QC_CACHE_CAPACITY, TC_CACHE_CAPACITY, NEC_CACHE_CAPACITY⟩

def CacheCapacity.zero : CacheCapacity := ⟨0, 0, 0⟩

structure CertificateCache (Key : Type) (capacity : CacheCapacity) where
  qcLru : Lru Key Unit capacity.qc
  tcLru : Lru Key Unit capacity.tc
  necLru : Lru Key Unit capacity.nec

namespace CertificateCache

variable {capacity : CacheCapacity} (keys : CertificateKeys T Key)

def empty (Key : Type) (capacity : CacheCapacity) : CertificateCache Key capacity :=
  ⟨.empty _ _ _, .empty _ _ _, .empty _ _ _⟩

def cacheValidatedQc (qc : QuorumCertificate T) (cache : CertificateCache Key capacity) :
    CertificateCache Key capacity :=
  { cache with qcLru := cache.qcLru.put (keys.encodeQc qc) () }

def qcIsCachedValidated (qc : QuorumCertificate T) (cache : CertificateCache Key capacity) : Bool :=
  cache.qcLru.contains (keys.encodeQc qc)

def cacheValidatedTc (tc : TimeoutCertificate T) (cache : CertificateCache Key capacity) :
    CertificateCache Key capacity :=
  { cache with tcLru := cache.tcLru.put (keys.encodeTc tc) () }

def tcIsCachedValidated (tc : TimeoutCertificate T) (cache : CertificateCache Key capacity) :
    Bool :=
  cache.tcLru.contains (keys.encodeTc tc)

def cacheValidatedNec (nec : NoEndorsementCertificate T)
    (cache : CertificateCache Key capacity) : CertificateCache Key capacity :=
  { cache with necLru := cache.necLru.put (keys.encodeNec nec) () }

def necIsCachedValidated (nec : NoEndorsementCertificate T)
    (cache : CertificateCache Key capacity) : Bool :=
  cache.necLru.contains (keys.encodeNec nec)

end CertificateCache

/-! ## Verification with a cache -/

variable (env : Env T) (keys : CertificateKeys T Key) (capacity : CacheCapacity)
  (validatorsOf : EpochToValidators)

abbrev CachedCheck (Key : Type) (capacity : CacheCapacity) :=
  Check (CertificateCache Key capacity) Error Unit

namespace Cached

/-- The genesis QC passes without being remembered. -/
def verifyQc (qc : QuorumCertificate T) : CachedCheck Key capacity :=
  .unlessCached (CertificateCache.qcIsCachedValidated keys qc) <|
    if qc.getRound = GENESIS_ROUND then do
      let _ ← .lift (validatorsOf qc.getEpoch qc.getRound)
      .lift (if qc = env.genesisQc then .ok () else .error .invalidSignature)
    else do
      .lift
        (verifySigned env validatorsOf qc.getEpoch qc.getRound qc.signatures (.vote qc.info))
      .record (CertificateCache.cacheValidatedQc keys qc)

def verifyNec (nec : NoEndorsementCertificate T) : CachedCheck Key capacity :=
  .unlessCached (CertificateCache.necIsCachedValidated keys nec) do
    .lift (verifySigned env validatorsOf nec.msg.epoch nec.msg.round nec.signatures
      (.noEndorsement nec.msg))
    .record (CertificateCache.cacheValidatedNec keys nec)

/-- `verify_tc`, for a given check of what the certificate extends. -/
def verifyTcWith (verifyExtend : HighExtend T → CachedCheck Key capacity)
    (tc : TimeoutCertificate T) : CachedCheck Key capacity :=
  .unlessCached (CertificateCache.tcIsCachedValidated keys tc) do
    let (validators, mapping, _) ← .lift (validatorsOf tc.epoch tc.round)
    if validators.getMembers.length < tc.tipRounds.length then
      .lift (.error .tooManyTcTipRound)
    else do
      let seen ← .lift (verifyTipRounds env mapping tc.epoch tc.round tc.tipRounds .empty)
      .lift (checkSuperMajority validators seen.nodeIds)
      verifyExtend tc.highExtend
      .lift (if tc.highExtend.rank ≠ seen.highestRank then .error .notWellFormed else .ok ())
      .record (CertificateCache.cacheValidatedTc keys tc)

/-- A certificate without tip extends a QC. -/
def verifyQcExtend : HighExtend T → CachedCheck Key capacity
  | .qc qc => verifyQc env keys capacity validatorsOf qc
  | .tip _ => .lift (.error .notWellFormed)

/-- The certificate of freshness verifies. -/
def verifyFresh : Option (FreshProposalCertificate T) → CachedCheck Key capacity
  | some (.nec nec) => verifyNec env keys capacity validatorsOf nec
  | some (.noTip noTip) =>
    verifyTcWith env keys capacity validatorsOf (verifyQcExtend env keys capacity validatorsOf)
      noTip.toTc
  | none => .lift (.ok ())

def verifyTip (tip : ConsensusTip T) : CachedCheck Key capacity := do
  let header := tip.blockHeader
  let (_, _, leader) ← .lift (validatorsOf header.epoch header.blockRound)
  match env.signatureAuthor header tip.signature with
  | none => .lift (.error .invalidSignature)
  | some tipAuthor =>
    if tipAuthor ≠ leader ∨ tipAuthor ≠ header.author then .lift (.error .invalidAuthor)
    else do
      .lift (tipRoundsFit tip)
      verifyQc env keys capacity validatorsOf header.qc
      verifyFresh env keys capacity validatorsOf tip.freshCertificate

def verifyHighExtend : HighExtend T → CachedCheck Key capacity
  | .qc qc => verifyQc env keys capacity validatorsOf qc
  | .tip tip => verifyTip env keys capacity validatorsOf tip

def verifyTc (tc : TimeoutCertificate T) : CachedCheck Key capacity :=
  verifyTcWith env keys capacity validatorsOf (verifyHighExtend env keys capacity validatorsOf) tc

end Cached

/-- A call to one of the four verification functions. -/
inductive CertificateCall (T : Types) where
  | qc (qc : QuorumCertificate T)
  | tc (tc : TimeoutCertificate T)
  | tip (tip : ConsensusTip T)
  | nec (nec : NoEndorsementCertificate T)

/-- The call, with the cache. -/
def CertificateCall.verify : CertificateCall T → CachedCheck Key capacity
  | .qc cert => Cached.verifyQc env keys capacity validatorsOf cert
  | .tc cert => Cached.verifyTc env keys capacity validatorsOf cert
  | .tip cert => Cached.verifyTip env keys capacity validatorsOf cert
  | .nec cert => Cached.verifyNec env keys capacity validatorsOf cert

/-- The results of calls made one after the other with one cache, which starts empty. -/
def verifyAll (calls : List (CertificateCall T)) : List (Except Error Unit) :=
  (Check.runAll (CertificateCall.verify env keys capacity validatorsOf) calls
    (.empty Key capacity)).1

/-! ## Transparency -/

section Transparency

variable {env} {keys} {capacity} {validatorsOf}

variable (env) (keys) (validatorsOf) in
/-- What is remembered verifies without the cache. -/
structure CertificateCache.Sound (cache : CertificateCache Key capacity) : Prop where
  qc : ∀ qc, CertificateCache.qcIsCachedValidated keys qc cache = true →
    verifyQc env validatorsOf qc = .ok ()
  tc : ∀ tc, CertificateCache.tcIsCachedValidated keys tc cache = true →
    verifyTc env validatorsOf tc = .ok ()
  nec : ∀ nec, CertificateCache.necIsCachedValidated keys nec cache = true →
    verifyNec env validatorsOf nec = .ok ()

namespace CertificateCache

variable {cache : CertificateCache Key capacity}

theorem sound_empty : (empty Key capacity).Sound env keys validatorsOf where
  qc _ h := absurd h Bool.false_ne_true
  tc _ h := absurd h Bool.false_ne_true
  nec _ h := absurd h Bool.false_ne_true

theorem Sound.cacheValidatedQc (hkeys : keys.Injective) {qc : QuorumCertificate T}
    (hqc : verifyQc env validatorsOf qc = .ok ()) (h : cache.Sound env keys validatorsOf) :
    (CertificateCache.cacheValidatedQc keys qc cache).Sound env keys validatorsOf where
  qc qc' hc := by
    rcases Lru.contains_put hc with heq | hold
    · rw [hkeys.qc heq]
      exact hqc
    · exact h.qc qc' hold
  tc := h.tc
  nec := h.nec

theorem Sound.cacheValidatedTc (hkeys : keys.Injective) {tc : TimeoutCertificate T}
    (htc : verifyTc env validatorsOf tc = .ok ()) (h : cache.Sound env keys validatorsOf) :
    (CertificateCache.cacheValidatedTc keys tc cache).Sound env keys validatorsOf where
  qc := h.qc
  tc tc' hc := by
    rcases Lru.contains_put hc with heq | hold
    · rw [hkeys.tc heq]
      exact htc
    · exact h.tc tc' hold
  nec := h.nec

theorem Sound.cacheValidatedNec (hkeys : keys.Injective) {nec : NoEndorsementCertificate T}
    (hnec : verifyNec env validatorsOf nec = .ok ()) (h : cache.Sound env keys validatorsOf) :
    (CertificateCache.cacheValidatedNec keys nec cache).Sound env keys validatorsOf where
  qc := h.qc
  tc := h.tc
  nec nec' hc := by
    rcases Lru.contains_put hc with heq | hold
    · rw [hkeys.nec heq]
      exact hnec
    · exact h.nec nec' hold

end CertificateCache

namespace Cached

/-- `m` returns what `r` is, from every cache that only holds what verifies. -/
abbrev Agrees (env : Env T) (keys : CertificateKeys T Key) (validatorsOf : EpochToValidators)
    (m : CachedCheck Key capacity) (r : Except Error Unit) : Prop :=
  Transparent (CertificateCache.Sound env keys validatorsOf) m r

section

variable (hkeys : keys.Injective)

include hkeys

theorem agrees_verifyQc (qc : QuorumCertificate T) :
    Agrees env keys validatorsOf (verifyQc env keys capacity validatorsOf qc)
      (MonadBft.verifyQc env validatorsOf qc) := by
  refine .unlessCached (fun _ hc h => hc.qc qc h) ?_
  by_cases hr : qc.getRound = GENESIS_ROUND
  · have hqc : MonadBft.verifyQc env validatorsOf qc = (do
        let _ ← validatorsOf qc.getEpoch qc.getRound
        if qc = env.genesisQc then .ok () else .error .invalidSignature) := if_pos hr
    rw [if_pos hr, hqc]
    exact .bind (.lift _) fun _ _ => .lift _
  · have hqc : MonadBft.verifyQc env validatorsOf qc =
        verifySigned env validatorsOf qc.getEpoch qc.getRound qc.signatures (.vote qc.info) :=
      if_neg hr
    rw [if_neg hr, ← hqc]
    exact .record (.lift _) fun hok _ hc => hc.cacheValidatedQc hkeys hok

theorem agrees_verifyNec (nec : NoEndorsementCertificate T) :
    Agrees env keys validatorsOf (verifyNec env keys capacity validatorsOf nec)
      (MonadBft.verifyNec env validatorsOf nec) :=
  .unlessCached (fun _ hc h => hc.nec nec h)
    (.record (.lift _) fun hok _ hc => hc.cacheValidatedNec hkeys hok)

/-- A timeout certificate is checked alike if what it extends is. It is remembered after
every check, so what is remembered verifies. -/
theorem agrees_verifyTcWith {tc : TimeoutCertificate T}
    {cachedExtend : HighExtend T → CachedCheck Key capacity}
    {verifyExtend : HighExtend T → Except Error Unit}
    (hextend : Agrees env keys validatorsOf (cachedExtend tc.highExtend)
      (verifyExtend tc.highExtend))
    (htc : MonadBft.verifyTc env validatorsOf tc =
      MonadBft.verifyTcWith env validatorsOf verifyExtend tc) :
    Agrees env keys validatorsOf (verifyTcWith env keys capacity validatorsOf cachedExtend tc)
      (MonadBft.verifyTcWith env validatorsOf verifyExtend tc) := by
  refine .unlessCached (fun _ hc h => htc ▸ hc.tc tc h) ?_
  refine .bind (.lift _) fun ⟨validators, mapping, leader⟩ hv => ?_
  dsimp only
  split
  · exact .lift _
  next hlen =>
    refine .bind (.lift _) fun seen hseen => ?_
    refine .bind (.lift _) fun _ hmaj => ?_
    refine .bind hextend fun _ hext => ?_
    refine .record (.lift _) fun hrank _ hc => hc.cacheValidatedTc hkeys ?_
    rw [htc]
    unfold MonadBft.verifyTcWith
    rw [hv]
    change (if validators.getMembers.length < tc.tipRounds.length then _ else _) = _
    rw [if_neg hlen, hseen]
    change (checkSuperMajority validators seen.nodeIds >>= _) = _
    rw [hmaj]
    rw [hext]
    exact hrank

theorem agrees_verifyQcExtend :
    ∀ highExtend : HighExtend T,
      Agrees env keys validatorsOf (verifyQcExtend env keys capacity validatorsOf highExtend)
        (MonadBft.verifyQcExtend env validatorsOf highExtend)
  | .qc qc => agrees_verifyQc hkeys qc
  | .tip _ => .lift _

/-- A certificate of freshness without tip shares the memory of timeout certificates: as
one of those it extends a QC. -/
theorem agrees_verifyFresh :
    ∀ fresh : Option (FreshProposalCertificate T),
      Agrees env keys validatorsOf (verifyFresh env keys capacity validatorsOf fresh)
        (MonadBft.verifyFresh env validatorsOf fresh)
  | none => .lift _
  | some (.nec nec) => agrees_verifyNec hkeys nec
  | some (.noTip _) => agrees_verifyTcWith hkeys (agrees_verifyQcExtend hkeys _) rfl

theorem agrees_verifyTip (tip : ConsensusTip T) :
    Agrees env keys validatorsOf (verifyTip env keys capacity validatorsOf tip)
      (MonadBft.verifyTip env validatorsOf tip) := by
  refine .bind (.lift _) fun ⟨_, _, leader⟩ _ => ?_
  cases env.signatureAuthor tip.blockHeader tip.signature with
  | none => exact .lift _
  | some tipAuthor =>
    dsimp only
    split
    · exact .lift _
    · exact .bind (.lift _) fun _ _ => .bind (agrees_verifyQc hkeys _) fun _ _ =>
        agrees_verifyFresh hkeys _

theorem agrees_verifyHighExtend :
    ∀ highExtend : HighExtend T,
      Agrees env keys validatorsOf (verifyHighExtend env keys capacity validatorsOf highExtend)
        (MonadBft.verifyHighExtend env validatorsOf highExtend)
  | .qc qc => agrees_verifyQc hkeys qc
  | .tip tip => agrees_verifyTip hkeys tip

end

end Cached

/-- The call, without a cache. -/
def CertificateCall.plain (env : Env T) (validatorsOf : EpochToValidators) :
    CertificateCall T → Except Error Unit
  | .qc cert => MonadBft.verifyQc env validatorsOf cert
  | .tc cert => MonadBft.verifyTc env validatorsOf cert
  | .tip cert => MonadBft.verifyTip env validatorsOf cert
  | .nec cert => MonadBft.verifyNec env validatorsOf cert

theorem CertificateCall.agrees (hkeys : keys.Injective) :
    ∀ call : CertificateCall T,
      Cached.Agrees env keys validatorsOf (call.verify env keys capacity validatorsOf)
        (call.plain env validatorsOf)
  | .qc cert => Cached.agrees_verifyQc hkeys cert
  | .tc _ => Cached.agrees_verifyTcWith hkeys (Cached.agrees_verifyHighExtend hkeys _) rfl
  | .tip cert => Cached.agrees_verifyTip hkeys cert
  | .nec cert => Cached.agrees_verifyNec hkeys cert

/-- Calls that share a cache return, one by one, what the checks without cache return. -/
theorem verifyAll_eq_plain (hkeys : keys.Injective) (calls : List (CertificateCall T)) :
    verifyAll env keys capacity validatorsOf calls =
      calls.map (CertificateCall.plain env validatorsOf) :=
  (Transparent.runAll (CertificateCall.agrees hkeys) calls _
    CertificateCache.sound_empty).1

/-- Calls that share the cache of a node return, one by one, what the same call returns
with a cache that never holds anything. -/
theorem verifyAll_eq_map (env : Env T) (keys : CertificateKeys T Key) (hkeys : keys.Injective)
    (validatorsOf : EpochToValidators) (calls : List (CertificateCall T)) :
    verifyAll env keys .default validatorsOf calls =
      calls.map fun call =>
        ((call.verify env keys .zero validatorsOf).run (.empty Key .zero)).1 := by
  rw [verifyAll_eq_plain hkeys]
  refine List.map_congr_left fun call _ => ?_
  exact (CertificateCall.agrees hkeys call _ CertificateCache.sound_empty).1.symm

end Transparency

namespace Ideal

/-- Certificates as their own encodings. -/
abbrev certificateKeys : CertificateKeys types
    (QuorumCertificate types ⊕ TimeoutCertificate types ⊕ NoEndorsementCertificate types) where
  encodeQc := .inl
  encodeTc := fun tc => .inr (.inl tc)
  encodeNec := fun nec => .inr (.inr nec)

theorem certificateKeys_injective : certificateKeys.Injective where
  qc := Sum.inl_injective
  tc := Sum.inr_injective.comp Sum.inl_injective
  nec := Sum.inr_injective.comp Sum.inr_injective

/-- The committee, in every epoch and round. -/
def committeeOf : EpochToValidators := fun _ _ => .ok (committee, Ideal.keys, 0)

/-- A block on a QC that too few signed, after a round without tip. -/
def repeatedCalls : List (CertificateCall types) :=
  let valid := qc [0, 1, 2] .genesis 1 1
  let few := qc [0, 1] .genesis 1 1
  let tc2 := tc 2 [([0, 1, 2], 1, 0)] (.qc valid)
  [.qc valid, .tip (tip 0 3 valid 2 0 (some (noTip tc2))), .tc tc2, .qc few,
    .tip (tip 0 2 few 2 0 none), .tc (tc 2 [([0, 1, 2], 1, 0)] (.qc few)), .qc few]

/-- The timeout certificate of the second call is found in the cache by the third; the QC
that too few signed is refused each time. -/
theorem verifyAll_eq_map_repeatedCalls :
    verifyAll soleLeader certificateKeys .default committeeOf repeatedCalls =
        [.ok (), .ok (), .ok (), .error .insufficientStake, .error .insufficientStake,
          .error .insufficientStake, .error .insufficientStake] ∧
      verifyAll soleLeader certificateKeys .default committeeOf repeatedCalls =
        repeatedCalls.map fun call =>
          ((call.verify soleLeader certificateKeys .zero committeeOf).run (.empty _ .zero)).1 :=
  ⟨by decide +kernel, verifyAll_eq_map _ _ certificateKeys_injective _ _⟩

end Ideal

end MonadBft
