import MonadBft.Eth.CommittedBuffer

/-!
# Base nonces are those of a replay

`checkCoherency` replays the nonces of a block from the nonces before it. Those come from
`getAccountBaseNonces`: the state of block `N - k`, `k` the execution delay, and the summaries
of the blocks in between. A summary does not know the nonce its block starts with.

`replayBlocks` goes through the blocks from the genesis block on, transaction by transaction.
A summary says what the replay of its block does (`EthValidatedBlock.Validated.replay`). On a
chain whose blocks were validated and checked, the replay succeeds (`CoherentChain.replays`) and
the base nonces are its nonces (`EthBlockPolicy.baseNonces_eq_replay`).
-/

namespace MonadBft

open EthBlockPolicy EthValidatedBlock Function List BodySummary

variable {env : EthEnv} {auth : RecoveredAuthorization} {chainId : ℕ}
  {block : EthValidatedBlock env} {txn : Recovered} {backend : StateBackend env}

/-! ## Replay -/

/-- The nonces after a block: its system transactions, then its other transactions. -/
def EthValidatedBlock.replay (accountNonces : AddressMap ℕ) (block : EthValidatedBlock env) :
    Except PolicyFailure (AddressMap ℕ) := do
  let accountNonces ← systemTransactionNonceCheck block.systemTxns accountNonces
  block.validatedTxns.foldlM (replayTransaction env.chainId) accountNonces

/-- The nonces after blocks, from those of the genesis block. -/
def replayBlocks (genesis : Address → ℕ) (blocks : List (EthValidatedBlock env)) :
    Except PolicyFailure (AddressMap ℕ) :=
  blocks.foldlM replay fun address => some (genesis address)

section Steps

variable {nonces nonces' : AddressMap ℕ}

theorem nonceCheckAndUpdate_eq_ok (h : nonceCheckAndUpdate nonces txn = .ok nonces') :
    nonces txn.signer = some txn.nonce ∧
      nonces' = update nonces txn.signer (some (txn.nonce + 1)) := by
  unfold nonceCheckAndUpdate at h
  split at h
  · cases h
  next n hn =>
    split at h
    · cases h
    next heq =>
      rw [not_not.mp heq]
      exact ⟨hn, (Except.ok.inj h).symm⟩

/-- The authority whose nonce an authorization may use. -/
def usedAuthority (chainId : ℕ) (auth : RecoveredAuthorization) : Option Address :=
  if isForChain chainId auth then auth.authority else none

theorem authorizationNonceUpdate_of_none (hauth : usedAuthority chainId auth = none) :
    authorizationNonceUpdate chainId nonces auth = .ok nonces := by
  unfold authorizationNonceUpdate
  unfold usedAuthority at hauth
  split
  · rfl
  next authority hauthority =>
    split at hauth
    · rw [hauthority] at hauth
      cases hauth
    next hchain => rw [if_pos (by simpa using hchain)]

theorem authorizationNonceUpdate_of_some {authority : Address}
    (hauth : usedAuthority chainId auth = some authority) :
    authorizationNonceUpdate chainId nonces auth =
      match nonces authority with
      | none => .error (.panic .accountNoncesMissing)
      | some n => .ok (update nonces authority
          (some (if auth.nonce = n then n + 1 else n))) := by
  unfold usedAuthority at hauth
  split at hauth
  next hchain =>
    unfold authorizationNonceUpdate
    rw [hauth]
    dsimp only
    rw [if_neg (by simpa using hchain)]
    cases hn : nonces authority with
    | none => rfl
    | some n =>
      dsimp only
      by_cases heq : auth.nonce = n
      · rw [if_neg (not_not_intro heq.symm), if_pos heq]
      · rw [if_pos (Ne.symm heq), if_neg heq, ← hn, update_eq_self]
  · cases hauth

theorem replayTransaction_eq (chainId : ℕ) (txn : ValidatedTx) :
    replayTransaction chainId nonces txn =
      nonceCheckAndUpdate nonces txn.toRecovered >>= fun nonces =>
        (if txn.isEip7702 then txn.authorizations7702 else []).foldlM
          (authorizationNonceUpdate chainId) nonces := by
  unfold replayTransaction eip7702ValidNonceUpdate
  split <;> rfl

end Steps

/-! ## Summaries and replay -/

/-- The usages are what was done to the nonces since `start`. -/
def Summarises (start : Address → ℕ) (usages : NonceUsageMap) (nonces : AddressMap ℕ) : Prop :=
  ∀ address, nonces address = some (nonceAfter (usages address) (start address))

section Summary

variable {start : Address → ℕ} {usages : NonceUsageMap} {nonces nonces' : AddressMap ℕ}
  {summary' summary : BodySummary}

theorem Summarises.update (h : Summarises start usages nonces) {address : Address}
    {usage : NonceUsage} {n : ℕ} (hn : n = usage.applyToAccountNonce (start address)) :
    Summarises start (update usages address (some usage))
      (update nonces address (some n)) := by
  intro address'
  by_cases heq : address' = address
  · subst heq
    rw [update_self, update_self, hn]
    rfl
  · rw [update_of_ne heq, update_of_ne heq]
    exact h address'

theorem Summarises.nonceCheckAndUpdate (h : Summarises start usages nonces)
    (hcheck : nonceCheckAndUpdate nonces txn = .ok nonces') :
    Summarises start (addKnown usages txn.signer txn.nonce) nonces' := by
  rw [(nonceCheckAndUpdate_eq_ok hcheck).2]
  exact h.update rfl

/-- One more authorization. -/
theorem applyToAccountNonce_authorizeNonce {usage : Option NonceUsage} {usage' : NonceUsage}
    {nonce : ℕ} (h : authorizeNonce usage nonce = .ok usage') (n : ℕ) :
    usage'.applyToAccountNonce n =
      if nonce = nonceAfter usage n then nonceAfter usage n + 1 else nonceAfter usage n := by
  unfold authorizeNonce at h
  split at h
  next oldNonce =>
    split at h
    · cases h
    cases h
    change (if oldNonce + 1 = nonce then oldNonce + 1 else oldNonce) + 1 =
      if nonce = oldNonce + 1 then oldNonce + 1 + 1 else oldNonce + 1
    simp only [eq_comm (a := nonce)]
    split <;> rfl
  next possibleNonces =>
    cases h
    exact NonceUsage.applyPossibleNonces_append n possibleNonces [nonce]
  · cases h
    rfl

theorem Summarises.authorize (h : Summarises start summary.nonceUsages nonces)
    (hadd : addAuthorization chainId summary auth = .ok summary')
    (hupdate : authorizationNonceUpdate chainId nonces auth = .ok nonces') :
    Summarises start summary'.nonceUsages nonces' := by
  unfold addAuthorization at hadd
  cases hauth : auth.authority with
  | none =>
    rw [hauth] at hadd
    have hnone : usedAuthority chainId auth = none := by simp [usedAuthority, hauth]
    rw [authorizationNonceUpdate_of_none hnone] at hupdate
    rw [← Except.ok.inj hadd, ← Except.ok.inj hupdate]
    exact h
  | some authority =>
    rw [hauth] at hadd
    dsimp only at hadd
    split at hadd
    · cases hadd
    split at hadd
    next hchain =>
      have hnone : usedAuthority chainId auth = none := by
        unfold usedAuthority
        rw [if_neg (by simpa using hchain)]
      rw [authorizationNonceUpdate_of_none hnone] at hupdate
      rw [← Except.ok.inj hadd, ← Except.ok.inj hupdate]
      exact h
    next hchain =>
      have hsome : usedAuthority chainId auth = some authority := by
        unfold usedAuthority
        rw [if_pos (by simpa using hchain), hauth]
      rw [authorizationNonceUpdate_of_some hsome, h authority] at hupdate
      obtain ⟨usage, husage, hadd⟩ := bind_eq_ok.mp hadd
      rw [← Except.ok.inj hadd, ← Except.ok.inj hupdate]
      exact h.update (applyToAccountNonce_authorizeNonce husage _).symm

theorem Summarises.transaction {baseFee : ℕ} {txn : ValidatedTx}
    (h : Summarises start summary.nonceUsages nonces)
    (hadd : addTransaction chainId baseFee summary txn = .ok summary')
    (hreplay : replayTransaction chainId nonces txn = .ok nonces') :
    Summarises start summary'.nonceUsages nonces' := by
  rw [replayTransaction_eq] at hreplay
  obtain ⟨nonces₁, hcheck, hauths⟩ := bind_eq_ok.mp hreplay
  unfold addTransaction at hadd
  split at hadd
  · cases hadd
  obtain ⟨_, -, hadd⟩ := bind_eq_ok.mp hadd
  obtain ⟨summary₁, hsummary, hadd⟩ := bind_eq_ok.mp hadd
  cases hadd
  refine foldlM_related (R := fun summary nonces => Summarises start summary.nonceUsages nonces)
    ?_ (h.nonceCheckAndUpdate hcheck) hsummary hauths
  exact fun _ _ _ _ _ _ h hadd hupdate => h.authorize hadd hupdate

/-- The summary of a validated block says what its replay does. -/
theorem EthValidatedBlock.Validated.replay (hvalid : block.Validated)
    (hnonces : ∀ address, nonces address = some (start address))
    (h : block.replay nonces = .ok nonces') : Summarises start block.nonceUsages nonces' := by
  obtain ⟨body, hbody⟩ := hvalid
  obtain ⟨_, _, usages, haccepted⟩ := validateBlockBody_eq_ok hbody
  obtain ⟨nonces₁, hsystem, htxns⟩ := bind_eq_ok.mp h
  have hstart : Summarises start (fun _ => none) nonces := hnonces
  have hsystem' : Summarises start usages nonces₁ := by
    refine foldlM_related (R := Summarises start) (fun txn _ usages nonces usages' nonces' hR hadd
      hcheck => ?_) hstart haccepted.systemNonces hsystem
    obtain ⟨_, -, hadd⟩ := bind_eq_ok.mp hadd
    cases hadd
    exact hR.nonceCheckAndUpdate hcheck
  refine foldlM_related (R := fun summary nonces => Summarises start summary.nonceUsages nonces)
    ?_ (show Summarises start (BodySummary.mk usages fun _ => none).nonceUsages nonces₁ from
      hsystem') haccepted.summary htxns
  exact fun _ _ _ _ _ _ h hadd hreplay => h.transaction hadd hreplay

/-- The replay of validated blocks is what their summaries say. -/
theorem summaries_replay {blocks : List (EthValidatedBlock env)}
    (hvalid : ∀ block ∈ blocks, block.Validated)
    (hnonces : ∀ address, nonces address = some (start address))
    (h : blocks.foldlM replay nonces = .ok nonces') (address : Address) :
    nonces' address = some (blocks.foldl
      (fun n block => nonceAfter (block.nonceUsages address) n) (start address)) := by
  induction blocks generalizing nonces start with
  | nil =>
    cases h
    exact hnonces address
  | cons block blocks ih =>
    obtain ⟨nonces₁, hblock, hblocks⟩ := foldlM_cons_eq_ok.mp h
    exact ih (fun block hblock => hvalid block (mem_cons_of_mem _ hblock))
      ((hvalid block mem_cons_self).replay hnonces hblock) hblocks

end Summary

/-! ## Replay with fewer accounts -/

/-- The accounts of `nonces` have the same nonces in `total`. -/
def Within (nonces total : AddressMap ℕ) : Prop :=
  ∀ address n, nonces address = some n → total address = some n

section Fewer

variable {nonces nonces' total : AddressMap ℕ}

theorem Within.update (h : Within nonces total) (address : Address) (n : Option ℕ) :
    Within (update nonces address n) (update total address n) := by
  intro address' n'
  by_cases heq : address' = address
  · subst heq
    rw [update_self, update_self]
    exact id
  · rw [update_of_ne heq, update_of_ne heq]
    exact h address' n'

theorem Within.nonceCheckAndUpdate (h : Within nonces total)
    (hcheck : nonceCheckAndUpdate nonces txn = .ok nonces') :
    ∃ total', nonceCheckAndUpdate total txn = .ok total' ∧ Within nonces' total' := by
  obtain ⟨hn, rfl⟩ := nonceCheckAndUpdate_eq_ok hcheck
  refine ⟨_, ?_, h.update txn.signer _⟩
  unfold nonceCheckAndUpdate
  rw [h _ _ hn]
  exact if_neg (not_not_intro rfl)

theorem Within.authorize (h : Within nonces total)
    (hupdate : authorizationNonceUpdate chainId nonces auth = .ok nonces') :
    ∃ total', authorizationNonceUpdate chainId total auth = .ok total' ∧ Within nonces' total' := by
  cases hauth : usedAuthority chainId auth with
  | none =>
    rw [authorizationNonceUpdate_of_none hauth] at hupdate
    cases hupdate
    exact ⟨total, authorizationNonceUpdate_of_none hauth, h⟩
  | some authority =>
    rw [authorizationNonceUpdate_of_some hauth] at hupdate ⊢
    cases hn : nonces authority with
    | none =>
      rw [hn] at hupdate
      cases hupdate
    | some n =>
      rw [hn] at hupdate
      rw [h _ _ hn, ← Except.ok.inj hupdate]
      exact ⟨_, rfl, h.update authority _⟩

theorem Within.replayTransaction (h : Within nonces total) {txn : ValidatedTx}
    (hreplay : replayTransaction chainId nonces txn = .ok nonces') :
    ∃ total', replayTransaction chainId total txn = .ok total' ∧ Within nonces' total' := by
  rw [replayTransaction_eq] at hreplay ⊢
  obtain ⟨nonces₁, hcheck, hauths⟩ := bind_eq_ok.mp hreplay
  obtain ⟨total₁, hcheck', hwithin⟩ := h.nonceCheckAndUpdate hcheck
  obtain ⟨total', hauths', hwithin'⟩ := foldlM_simulates (R := Within)
    (f := authorizationNonceUpdate chainId) (g := authorizationNonceUpdate chainId)
    (fun _ _ _ _ _ h hupdate => h.authorize hupdate) hwithin hauths
  exact ⟨total', bind_eq_ok.mpr ⟨total₁, hcheck', hauths'⟩, hwithin'⟩

theorem Within.replay (h : Within nonces total) (hreplay : block.replay nonces = .ok nonces') :
    ∃ total', block.replay total = .ok total' := by
  obtain ⟨nonces₁, hsystem, htxns⟩ := bind_eq_ok.mp hreplay
  obtain ⟨total₁, hsystem', hwithin⟩ := foldlM_simulates (R := Within)
    (f := fun nonces (txn : ValidatedTx) => EthBlockPolicy.nonceCheckAndUpdate nonces txn.toRecovered)
    (g := fun nonces (txn : ValidatedTx) => EthBlockPolicy.nonceCheckAndUpdate nonces txn.toRecovered)
    (fun _ _ _ _ _ h hcheck => h.nonceCheckAndUpdate hcheck) h hsystem
  obtain ⟨total', htxns', -⟩ := foldlM_simulates (R := Within)
    (f := EthBlockPolicy.replayTransaction env.chainId)
    (g := EthBlockPolicy.replayTransaction env.chainId)
    (fun _ _ _ _ _ h hreplay => h.replayTransaction hreplay) hwithin htxns
  exact ⟨total', bind_eq_ok.mpr ⟨total₁, hsystem', htxns'⟩⟩

/-- The check of a block replays its nonces. -/
theorem EthBlockPolicy.Coherent.replay {policy : EthBlockPolicy env}
    {extendingBlocks : List (EthValidatedBlock env)} {nonces nonces₁ : AddressMap ℕ}
    {balances : AddressMap AccountBalanceState}
    {final : AddressMap ℕ × AddressMap AccountBalanceState}
    (h : Coherent policy block extendingBlocks backend nonces nonces₁ balances final) :
    block.replay nonces = .ok final.1 := by
  refine bind_eq_ok.mpr ⟨nonces₁, h.systemNonces, ?_⟩
  have hstep : ∀ txn ∈ block.validatedTxns, ∀ state nonces state', state.1 = nonces →
      checkTransaction (block.header.validator policy.executionDelay) env.chainId state txn =
        .ok state' →
      ∃ nonces', replayTransaction env.chainId nonces txn = .ok nonces' ∧ state'.1 = nonces' := by
    rintro txn - state nonces state' rfl hcheck
    exact ⟨state'.1, (checkTransaction_eq_ok.mp hcheck).1, rfl⟩
  obtain ⟨final', hfinal, heq⟩ := foldlM_simulates (R := fun state nonces => state.1 = nonces)
    hstep rfl h.transactions
  rw [heq]
  exact hfinal

end Fewer

/-! ## Nonces before a block -/

/-- The id of the block of a number. -/
def stateId (chain : List (EthValidatedBlock env)) (seqNum : ℕ) : Option env.BlockId :=
  if seqNum = GENESIS_SEQ_NUM then some env.GENESIS_BLOCK_ID
  else (chain.find? fun block => decide (block.getSeqNum = seqNum)).map fun block => block.header.id

/-- The backend returns for block `seqNum` the nonces of the replay up to it. -/
def ReturnsReplay (genesis : Address → ℕ) (chain : List (EthValidatedBlock env))
    (backend : StateBackend env) (seqNum : ℕ) : Prop :=
  ∀ nonces, replayBlocks genesis (chain.take seqNum) = .ok nonces →
    ∀ id, stateId chain seqNum = some id → ∀ isFinalized, ∃ statuses,
      backend.getAccountStatuses id seqNum isFinalized = .ok statuses ∧
      ∀ address, nonces address = some ((statuses address).elim 0 EthAccount.nonce)

section Base

variable {policy : EthBlockPolicy env} {committed extending : List (EthValidatedBlock env)} {d : ℕ}

section

variable (h : Window policy (1 + d) (committed.drop d) extending)
  (hd : d ≤ committed.length)
  (hnum : Numbered getSeqNum 1 (committed ++ extending)) {seqNum : ℕ}

include h hd hnum

/-- The base block is found under its id. -/
theorem Window.getBlockIndex_stateId (hlow : seqNum = GENESIS_SEQ_NUM ∨ 1 + d ≤ seqNum)
    (hhigh : seqNum ≤ (committed ++ extending).length) :
    ∃ index, policy.getBlockIndex (some extending) seqNum = .ok index ∧
      stateId (committed ++ extending) seqNum = some index.blockId := by
  by_cases hzero : seqNum = GENESIS_SEQ_NUM
  · refine ⟨⟨env.GENESIS_BLOCK_ID, GENESIS_SEQ_NUM, GENESIS_ROUND, true⟩, ?_, ?_⟩
    · unfold EthBlockPolicy.getBlockIndex
      rw [if_pos (hzero.le.trans (Nat.zero_le _)), if_pos hzero]
    · unfold stateId
      rw [if_pos hzero]
  · have hsuffix : committed.drop d ++ extending = (committed ++ extending).drop d := by
      rw [drop_append_of_le_length hd]
    obtain ⟨block, hblock, hkey, hindex⟩ := h.getBlockIndex (hlow.resolve_left hzero)
      (by rw [length_append] at hhigh ⊢; rw [length_drop]; omega)
    obtain ⟨block', hblock', hkey', hfind⟩ := hnum.find?_eq
      (show 1 ≤ seqNum by unfold GENESIS_SEQ_NUM at hzero; omega) (show seqNum < _ by omega)
    rw [hsuffix] at hblock
    refine ⟨_, hindex, ?_⟩
    unfold stateId
    rw [if_neg hzero, hfind, hnum.eq_of_key_eq hblock' (mem_of_mem_drop hblock)
      (hkey'.trans hkey.symm)]
    rfl

/-- The usages after the base block are those of the chain. -/
theorem Window.nonceUsagesAfter (hlow : d ≤ seqNum) (addresses : List Address) :
    policy.nonceUsagesAfter seqNum extending addresses =
      ((committed ++ extending).drop seqNum).map fun block address =>
        if address ∈ addresses then block.nonceUsages address else none := by
  have hsuffix : committed.drop d ++ extending = (committed ++ extending).drop d := by
    rw [drop_append_of_le_length hd]
  have hentries : (policy.committedCache.blocks.map fun entry => (entry.1, entry.2.nonceUsages)) ++
      (extending.map fun block => (block.getSeqNum, block.nonceUsages)) =
      ((committed ++ extending).drop d).map fun block =>
        (block.getSeqNum, block.nonceUsages) := by
    rw [h.blocks, map_map, ← hsuffix, map_append]
    rfl
  have hafter : (((committed ++ extending).drop d).filter fun block =>
      decide (block.getSeqNum > seqNum)) = (committed ++ extending).drop seqNum := by
    refine (@Numbered.filter_le _ _ _ (seqNum + 1) _ (hnum.drop d)).trans ?_
    rw [drop_drop]
    congr 1
    omega
  unfold EthBlockPolicy.nonceUsagesAfter
  dsimp only
  rw [hentries, filter_map, map_map, ← hafter]
  rfl

/-- On a chain that can be replayed, the base nonces are those of the replay. -/
theorem Window.getAccountBaseNonces (hk : 1 ≤ policy.executionDelay)
    (hlast : policy.lastCommit = committed.length)
    (hvalid : ∀ block ∈ committed ++ extending, block.Validated)
    (hlen : (committed ++ extending).length + 1 = seqNum) {genesis : Address → ℕ}
    {nonces : AddressMap ℕ} (hreplay : replayBlocks genesis (committed ++ extending) = .ok nonces)
    (hbackend : ReturnsReplay genesis (committed ++ extending) backend (policy.baseSeqNum seqNum))
    (addresses : List Address) :
    policy.getAccountBaseNonces seqNum backend extending addresses =
      .ok fun address => if address ∈ addresses then nonces address else none := by
  have hreaches := h.reaches
  have hlen' := @length_append _ committed extending
  obtain ⟨base, hbase⟩ : ∃ base, policy.baseSeqNum seqNum = base := ⟨_, rfl⟩
  have hmax : base = max seqNum policy.executionDelay - policy.executionDelay := hbase.symm
  rw [hbase] at hbackend
  obtain ⟨index, hindex, hid⟩ := h.getBlockIndex_stateId hd hnum
    (show base = GENESIS_SEQ_NUM ∨ 1 + d ≤ base by unfold GENESIS_SEQ_NUM; omega) (by omega)
  rw [← take_append_drop base (committed ++ extending)] at hreplay
  obtain ⟨baseNonces, htake, hdrop⟩ := foldlM_append_eq_ok.mp hreplay
  obtain ⟨statuses, hstatuses, hnonces⟩ := hbackend baseNonces htake index.blockId hid
    index.isFinalized
  have hsummaries := summaries_replay
    (fun block hblock => hvalid block (mem_of_mem_drop hblock)) hnonces hdrop
  have hgot : policy.getAccountStatuses backend (some extending) base = .ok statuses := by
    unfold getAccountStatuses
    rw [hindex]
    dsimp only [bind, Except.bind]
    rw [hstatuses]
    rfl
  unfold EthBlockPolicy.getAccountBaseNonces
  dsimp only
  rw [hbase, h.nonceUsagesAfter hd hnum (by omega), hgot]
  refine congrArg Except.ok (funext fun address => ?_)
  by_cases haddress : address ∈ addresses
  · have hmerged := NonceUsageMap.nonceAfter_getNonceUsages
      (((committed ++ extending).drop base).map fun block address =>
        if address ∈ addresses then block.nonceUsages address else none) address
      ((statuses address).elim 0 EthAccount.nonce)
    rw [foldl_map] at hmerged
    simp only [if_pos haddress] at hmerged ⊢
    rw [hsummaries, ← hmerged]
    split
    next hknown => rw [hknown]; rfl
    next hpossible => rw [hpossible]; rfl
    next hnone => rw [hnone]; rfl
  · rw [if_neg haddress, if_neg haddress]

end

end Base

/-! ## Chains whose blocks were checked -/

/-- Every block was validated, and checked by a policy that had committed some of the blocks
before it, against the state of the replay. -/
inductive CoherentChain (k : ℕ) (genesis : Address → ℕ) : List (EthValidatedBlock env) → Prop
  | nil : CoherentChain k genesis []
  | snoc {committed extending : List (EthValidatedBlock env)} {block : EthValidatedBlock env}
      {policy : EthBlockPolicy env} {rootSeqNum : ℕ} {backend : StateBackend env}
      (hchain : CoherentChain k genesis (committed ++ extending)) (hvalid : block.Validated)
      (hcommit : committed.foldlM updateCommittedBlock (.new env GENESIS_SEQ_NUM k) = .ok policy)
      (hbackend : ReturnsReplay genesis (committed ++ extending) backend
        (policy.baseSeqNum block.getSeqNum))
      (hcheck : policy.checkCoherency block extending rootSeqNum backend = .ok ()) :
      CoherentChain k genesis (committed ++ extending ++ [block])

section Chains

variable {k : ℕ} {genesis : Address → ℕ} {chain : List (EthValidatedBlock env)}

theorem CoherentChain.validated (h : CoherentChain k genesis chain) :
    ∀ block ∈ chain, block.Validated := by
  induction h with
  | nil => exact fun _ h => by cases h
  | snoc _ hvalid _ _ _ ih =>
    intro block hblock
    rcases mem_append.mp hblock with hblock | hblock
    · exact ih block hblock
    · rwa [mem_singleton.mp hblock]

theorem CoherentChain.replays (hk : 1 ≤ k) (h : CoherentChain k genesis chain)
    (hnum : Numbered getSeqNum 1 chain) (hfits : chain.length ≤ U64_MAX) :
    ∃ nonces, replayBlocks genesis chain = .ok nonces := by
  induction h with
  | nil => exact ⟨_, rfl⟩
  | @snoc committed extending block policy rootSeqNum backend hchain hvalid hcommit hbackend hcheck
      ih =>
    obtain ⟨hnum, hblock, -⟩ := Numbered.append_iff.mp hnum
    rw [length_append] at hfits
    obtain ⟨nonces, hreplay⟩ := ih hnum (by omega)
    obtain ⟨policy', hcommit', hdelay, hlast, d, hd, hwindow⟩ := commit_window hk hnum
      (show (committed ++ extending).length ≤ U64_MAX by omega)
    cases hcommit.symm.trans hcommit'
    obtain ⟨base, _, _, _, hcoherent⟩ := checkCoherency_eq_ok hcheck
    have hbase := hwindow.getAccountBaseNonces hd hnum (by omega) hlast hchain.validated
      ((Nat.add_comm _ _).trans hblock.symm) hreplay hbackend
      (extractSigners block.validatedTxns block.systemTxns)
    rw [hcoherent.baseNonces] at hbase
    have hwithin : Within base nonces := by
      rw [Except.ok.inj hbase]
      intro address n hn
      dsimp only at hn
      split at hn
      · exact hn
      · cases hn
    obtain ⟨nonces', hreplay'⟩ := hwithin.replay hcoherent.replay
    exact ⟨nonces', foldlM_append_eq_ok.mpr ⟨nonces, hreplay,
      foldlM_cons_eq_ok.mpr ⟨nonces', hreplay', rfl⟩⟩⟩

end Chains

namespace EthBlockPolicy

/-- On a chain whose blocks were validated and checked, the nonces before the next block are those
of the replay of the whole chain, for every split into committed and extending blocks. -/
theorem baseNonces_eq_replay {k : ℕ} (hk : 1 ≤ k) {genesis : Address → ℕ}
    {committed extending : List (EthValidatedBlock env)}
    (hchain : CoherentChain k genesis (committed ++ extending))
    (hnum : Numbered EthValidatedBlock.getSeqNum 1 (committed ++ extending)) {seqNum : ℕ}
    (hlen : (committed ++ extending).length + 1 = seqNum) (hfits : seqNum ≤ U64_MAX + 1)
    {backend : StateBackend env}
    (hbackend : ReturnsReplay genesis (committed ++ extending) backend (max seqNum k - k))
    (addresses : List Address) :
    ∃ policy nonces,
      committed.foldlM updateCommittedBlock (.new env GENESIS_SEQ_NUM k) = .ok policy ∧
      replayBlocks genesis (committed ++ extending) = .ok nonces ∧
      policy.getAccountBaseNonces seqNum backend extending addresses =
        .ok fun address => if address ∈ addresses then nonces address else none := by
  obtain ⟨nonces, hreplay⟩ := hchain.replays hk hnum (by omega)
  obtain ⟨policy, hcommit, hdelay, hlast, d, hd, hwindow⟩ := commit_window hk hnum (by omega)
  subst hdelay
  exact ⟨policy, nonces, hcommit, hreplay, hwindow.getAccountBaseNonces hd hnum hk hlast
    hchain.validated hlen hreplay hbackend addresses⟩

/-- A first block with a transfer. -/
def sampleFirst : EthValidatedBlock sampleEnv :=
  .ofBody (sampleHeader 1)
    ((validateBlockBody (sampleHeader 1) (sampleBody 1 0 [sampleTransfer 7 0])).toOption.get
      (by decide +kernel))

/-- A second block with an authorization of the first one's sender. -/
def sampleSecond : EthValidatedBlock sampleEnv :=
  .ofBody { sampleHeader 2 with delayedExecutionResults := [(0 : ℕ)] }
    ((validateBlockBody { sampleHeader 2 with delayedExecutionResults := [(0 : ℕ)] }
      (sampleBody 2 1 [sampleDelegation 8 0 7 1])).toOption.get (by decide +kernel))

/-- Execution as the replay sees it. -/
def replayBackend (chain : List (EthValidatedBlock sampleEnv)) : StateBackend sampleEnv where
  getAccountStatuses := fun _ seqNum _ =>
    (replayBlocks (fun _ => 0) (chain.take seqNum)).toOption.elim
      (.error .notAvailableYet) fun nonces =>
        .ok fun address => (nonces address).map fun nonce => ⟨nonce, 10 ^ 20, false⟩
  getExecutionResult := fun _ _ _ => .ok (0 : ℕ)

theorem returnsReplay_replayBackend {chain chain' : List (EthValidatedBlock sampleEnv)}
    (hvalid : ∀ block ∈ chain, block.Validated) {seqNum : ℕ}
    (hsame : chain'.take seqNum = chain.take seqNum) :
    ReturnsReplay (fun _ => 0) chain (replayBackend chain') seqNum := by
  intro nonces hreplay id _ isFinalized
  refine ⟨fun address => (nonces address).map fun nonce => ⟨nonce, 10 ^ 20, false⟩, ?_, ?_⟩
  · unfold replayBackend
    dsimp only
    rw [hsame, hreplay]
    rfl
  · intro address
    dsimp only
    rw [summaries_replay (fun block hblock => hvalid block (mem_of_mem_take hblock))
      (fun _ => rfl) hreplay address]
    rfl

theorem sampleChain_coherent : CoherentChain 2 (fun _ => 0) [sampleFirst, sampleSecond] := by
  have hfirst : CoherentChain 2 (fun _ => 0) ([] ++ [sampleFirst]) :=
    @CoherentChain.snoc _ 2 _ [] [] sampleFirst _ 0 (replayBackend [sampleFirst]) .nil
      (validated_ofBody _) rfl (returnsReplay_replayBackend (fun _ h => by cases h) rfl)
      (eq_ok_get (by decide +kernel))
  exact @CoherentChain.snoc _ 2 _ [] [sampleFirst] sampleSecond _ 0 (replayBackend [sampleFirst])
    hfirst (validated_ofBody _) rfl
    (returnsReplay_replayBackend hfirst.validated rfl) (eq_ok_get (by decide +kernel))

/-- With a delay of two blocks, the nonces before block 3 come from the state of block 1 and the
summary of block 2. -/
theorem baseNonces_eq_replay_authorization :
    ∃ policy, ∃ nonces : AddressMap ℕ,
      [sampleFirst].foldlM updateCommittedBlock (.new sampleEnv GENESIS_SEQ_NUM 2) = .ok policy ∧
      policy.getAccountBaseNonces 3 (replayBackend [sampleFirst, sampleSecond]) [sampleSecond]
        [7, 8] = .ok (fun address => if address ∈ [7, 8] then nonces address else none) ∧
      nonces 7 = some 2 := by
  obtain ⟨policy, nonces, hcommit, hreplay, hnonces⟩ := @baseNonces_eq_replay sampleEnv 2
    (by decide) (fun _ => 0) [sampleFirst] [sampleSecond] sampleChain_coherent (by decide +kernel) 3
    rfl (by decide) (replayBackend [sampleFirst, sampleSecond])
    (returnsReplay_replayBackend sampleChain_coherent.validated rfl) [7, 8]
  have hseven : ((replayBlocks (fun _ => 0) [sampleFirst, sampleSecond]).toOption.bind
      fun nonces => nonces 7) = some 2 := by decide +kernel
  rw [show replayBlocks (fun _ => 0) [sampleFirst, sampleSecond] = .ok nonces from hreplay] at hseven
  exact ⟨policy, nonces, hcommit, hnonces, hseven⟩

end EthBlockPolicy

end MonadBft
