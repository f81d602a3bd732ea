import MonadBft.Eth.BaseNonces
import MonadBft.Eth.Sequencer

/-!
# Proposals of the pool are coherent

The sequencer works on queues and on the balances of the accounts that have one. The check of a
block replays nonces and balances in block order, from the accounts the block names. The two meet
in an invariant of the sequencer's loop (`Sequenced`): the transactions taken so far replay, and
the nonce of every account with a queue is what the noted authorizations make of the nonce its
first transaction has.

Nonces and balances of other accounts do not matter to a transaction
(`replayTransaction_congr`, `tryAddTransaction_congr`), so what holds for the sequencer's accounts
holds for those of the check (`sequenceUserTransactions_coherent`).
-/

namespace MonadBft

open Assoc BodySummary EthBlockPolicy EthBlockPolicyBlockValidator Function List NonceUsage SequencerState

variable {env : EthEnv} {nonces' nonces : AddressMap ℕ} {address : Address}
  {policy : EthBlockPolicy env} {backend : StateBackend env} {txns : List ValidatedTx}
  {usages : NonceUsageMap} {proposal : Proposal} {txn : ValidatedTx} {pooled : PoolTx}
  {P : Address → Prop} {sequencer' : ProposalSequencer}

/-! ## Nonces in a replay -/

/-- The nonces of the authorizations that may use a nonce of an account, in order. -/
def usedNonces (chainId : ℕ) (auths : List RecoveredAuthorization) (address : Address) : List ℕ :=
  auths.filterMap fun auth =>
    if usedAuthority chainId auth = some address then some auth.nonce else none

/-- What a transaction makes of the nonces. -/
def noncesAfter (chainId : ℕ) (nonces : Address → ℕ) (txn : ValidatedTx) (address : Address) : ℕ :=
  applyPossibleNoncesToAccountNonce
    (if address = txn.signer then nonces address + 1 else nonces address)
    (usedNonces chainId txn.authorizations7702 address)

section Replay

variable {chainId : ℕ} {nonces : Address → ℕ}

theorem le_applyPossibleNonces (n : ℕ) (possible : List ℕ) :
    n ≤ applyPossibleNoncesToAccountNonce n possible := by
  induction possible generalizing n with
  | nil => exact le_rfl
  | cons nonce possible ih =>
    have hstep : n ≤ if nonce = n then n + 1 else n := by
      split <;> omega
    exact hstep.trans (ih _)

theorem authorizationNonceUpdate_total (auth : RecoveredAuthorization) :
    authorizationNonceUpdate chainId (fun address => some (nonces address)) auth =
      .ok fun address => some (applyPossibleNoncesToAccountNonce (nonces address)
        (usedNonces chainId [auth] address)) := by
  cases hauth : usedAuthority chainId auth with
  | none =>
    rw [authorizationNonceUpdate_of_none hauth]
    simp [usedNonces, hauth, applyPossibleNoncesToAccountNonce]
  | some authority =>
    rw [authorizationNonceUpdate_of_some hauth]
    refine congrArg Except.ok (funext fun address => ?_)
    by_cases heq : address = authority
    · subst heq
      simp [usedNonces, hauth, applyPossibleNoncesToAccountNonce]
    · rw [update_of_ne heq]
      simp [usedNonces, hauth, applyPossibleNoncesToAccountNonce, Ne.symm heq]

theorem foldlM_authorizationNonceUpdate_total (auths : List RecoveredAuthorization) :
    auths.foldlM (authorizationNonceUpdate chainId) (fun address => some (nonces address)) =
      .ok fun address => some (applyPossibleNoncesToAccountNonce (nonces address)
        (usedNonces chainId auths address)) := by
  induction auths generalizing nonces with
  | nil => rfl
  | cons auth auths ih =>
    rw [foldlM_cons, authorizationNonceUpdate_total]
    refine (@ih fun address => applyPossibleNoncesToAccountNonce (nonces address)
      (usedNonces chainId [auth] address)).trans ?_
    refine congrArg Except.ok (funext fun address => ?_)
    rw [← applyPossibleNonces_append]
    unfold usedNonces
    rw [← filterMap_append, singleton_append]

/-- A transaction with its signer's nonce can be replayed. -/
theorem replayTransaction_total (hwf : txn.WellFormed) (hnonce : nonces txn.signer = txn.nonce) :
    replayTransaction chainId (fun address => some (nonces address)) txn =
      .ok fun address => some (noncesAfter chainId nonces txn address) := by
  have hcheck : nonceCheckAndUpdate (fun address => some (nonces address)) txn.toRecovered =
      .ok fun address =>
        some (if address = txn.signer then nonces address + 1 else nonces address) := by
    unfold nonceCheckAndUpdate
    dsimp only
    rw [if_neg (not_not_intro hnonce.symm)]
    refine congrArg Except.ok (funext fun address => ?_)
    by_cases heq : address = txn.signer
    · subst heq
      rw [update_self, if_pos rfl]
    · rw [update_of_ne heq, if_neg heq]
  rw [replayTransaction_eq, hwf.authorizations, hcheck]
  exact foldlM_authorizationNonceUpdate_total txn.authorizations7702

theorem nonce_of_replayTransaction
    (h : replayTransaction chainId (fun address => some (nonces address)) txn = .ok nonces') :
    nonces txn.signer = txn.nonce := by
  obtain ⟨_, hcheck, -⟩ := bind_eq_ok.mp h
  exact Option.some.inj (nonceCheckAndUpdate_eq_ok hcheck).1

/-- A replay uses no nonce twice. -/
theorem nodup_of_replay (hwf : ∀ txn ∈ txns, txn.WellFormed)
    (h : txns.foldlM (replayTransaction chainId) (fun address => some (nonces address)) =
      .ok nonces') :
    (∀ txn ∈ txns, nonces txn.signer ≤ txn.nonce) ∧
      (txns.map fun txn => (txn.signer, txn.nonce)).Nodup := by
  induction txns generalizing nonces with
  | nil => simp
  | cons txn txns ih =>
    obtain ⟨hwf, hwfs⟩ := forall_mem_cons.mp hwf
    obtain ⟨nonces₁, htxn, htxns⟩ := foldlM_cons_eq_ok.mp h
    have hnonce := nonce_of_replayTransaction htxn
    rw [replayTransaction_total hwf hnonce] at htxn
    rw [← Except.ok.inj htxn] at htxns
    obtain ⟨hall, hnodup⟩ := ih hwfs htxns
    have hafter : ∀ txn' ∈ txns, (if txn'.signer = txn.signer then nonces txn'.signer + 1
        else nonces txn'.signer) ≤ txn'.nonce := fun txn' htxn' =>
      (le_applyPossibleNonces _ _).trans (hall txn' htxn')
    constructor
    · refine forall_mem_cons.mpr ⟨hnonce.le, fun txn' htxn' => ?_⟩
      have := hafter txn' htxn'
      split at this <;> omega
    rw [map_cons, nodup_cons]
    refine ⟨fun hmem => ?_, hnodup⟩
    obtain ⟨txn', htxn', heq⟩ := mem_map.mp hmem
    obtain ⟨hsigner, hsame⟩ := Prod.mk.inj heq
    have := hafter txn' htxn'
    rw [if_pos hsigner, hsigner] at this
    omega

/-- The accounts whose nonces a transaction reads or changes satisfy `P`. -/
structure ValidatedTx.Touches (txn : ValidatedTx) (P : Address → Prop) : Prop where
  signer : P txn.signer
  authorities : ∀ auth ∈ txn.authorizations7702, ∀ address, auth.authority = some address →
    P address

/-- Two maps have the same entries for the accounts that satisfy `P`. -/
def AgreeOn {α : Type} (P : Address → Prop) (m total : AddressMap α) : Prop :=
  ∀ address, P address → m address = total address

theorem AgreeOn.update {α : Type} {m total : AddressMap α} (h : AgreeOn P m total) {a : Option α} :
    AgreeOn P (update m address a) (update total address a) := by
  intro address' hP
  by_cases heq : address' = address
  · rw [heq, update_self, update_self]
  · rw [update_of_ne heq, update_of_ne heq, h address' hP]

/-- The nonces of other accounts do not matter to a transaction. -/
theorem replayTransaction_congr (hP : txn.Touches P) {m m' total : AddressMap ℕ}
    (hagree : AgreeOn P m total) (h : replayTransaction chainId m txn = .ok m') :
    ∃ total', replayTransaction chainId total txn = .ok total' ∧ AgreeOn P m' total' := by
  rw [replayTransaction_eq] at h ⊢
  obtain ⟨m₁, hcheck, hauths⟩ := bind_eq_ok.mp h
  obtain ⟨hsigner, rfl⟩ := nonceCheckAndUpdate_eq_ok hcheck
  have hcheck' : nonceCheckAndUpdate total txn.toRecovered =
      .ok (update total txn.signer (some (txn.nonce + 1))) := by
    unfold nonceCheckAndUpdate
    rw [← hagree _ hP.signer, hsigner]
    exact if_neg (not_not_intro rfl)
  have hstep : ∀ auth ∈ (if txn.isEip7702 then txn.authorizations7702 else []),
      ∀ m total m', AgreeOn P m total → authorizationNonceUpdate chainId m auth = .ok m' →
      ∃ total', authorizationNonceUpdate chainId total auth = .ok total' ∧ AgreeOn P m' total' := by
    intro auth hauth m total m' hagree h
    cases hused : usedAuthority chainId auth with
    | none =>
      rw [authorizationNonceUpdate_of_none hused] at h
      cases h
      exact ⟨total, authorizationNonceUpdate_of_none hused, hagree⟩
    | some authority =>
      have hauthority : auth.authority = some authority := by
        unfold usedAuthority at hused
        split at hused
        · exact hused
        · cases hused
      have hmem : auth ∈ txn.authorizations7702 := by
        split at hauth
        · exact hauth
        · cases hauth
      rw [authorizationNonceUpdate_of_some hused] at h ⊢
      rw [← hagree _ (hP.authorities auth hmem authority hauthority)]
      cases hn : m authority with
      | none =>
        rw [hn] at h
        cases h
      | some n =>
        rw [hn] at h
        cases h
        exact ⟨_, rfl, hagree.update⟩
  obtain ⟨total', hauths', hagree'⟩ := foldlM_simulates hstep hagree.update hauths
  exact ⟨total', bind_eq_ok.mpr ⟨_, hcheck', hauths'⟩, hagree'⟩

end Replay

/-! ## Balances of other accounts -/

section Balances

variable {v : EthBlockPolicyBlockValidator} {balances balances' other : AddressMap AccountBalanceState}
  {txn : ValidatedTx}

theorem tryAddTransaction_eq_ok (h : v.tryAddTransaction balances txn = .ok balances') :
    ∃ state state', balances txn.signer = some state ∧ v.chargeSigner state txn = .ok state' ∧
      balances' = txn.authorizations7702.foldl delegate
        (update balances txn.signer (some state')) := by
  unfold tryAddTransaction at h
  split at h
  · cases h
  next state hstate =>
    obtain ⟨state', hcharge, h⟩ := bind_eq_ok.mp h
    exact ⟨state, state', hstate, hcharge, (Except.ok.inj h).symm⟩

/-- The balances of other accounts do not matter to a transaction. -/
theorem tryAddTransaction_congr (hsigner : P txn.signer) (hagree : AgreeOn P balances other)
    (h : v.tryAddTransaction balances txn = .ok balances') :
    ∃ other', v.tryAddTransaction other txn = .ok other' ∧ AgreeOn P balances' other' := by
  obtain ⟨state, state', hstate, hcharge, rfl⟩ := tryAddTransaction_eq_ok h
  refine ⟨txn.authorizations7702.foldl delegate
    (update other txn.signer (some state')), ?_, fun address hP => ?_⟩
  · unfold tryAddTransaction
    rw [← hagree _ hsigner, hstate]
    exact bind_eq_ok.mpr ⟨state', hcharge, rfl⟩
  · rw [foldl_delegate, foldl_delegate, hagree.update address hP]

/-- The accounts stay the same. -/
theorem isSome_of_tryAddTransaction (h : v.tryAddTransaction balances txn = .ok balances')
    (address : Address) : (balances' address).isSome = (balances address).isSome := by
  obtain ⟨state, state', hstate, -, rfl⟩ := tryAddTransaction_eq_ok h
  rw [foldl_delegate, Option.isSome_map]
  by_cases heq : address = txn.signer
  · rw [heq, update_self, hstate]
    rfl
  · rw [update_of_ne heq]

end Balances

/-! ## The rules of block validation -/

/-- No known nonce of a user is at the end of the range. -/
def KnownBelow (usages : NonceUsageMap) : Prop :=
  ∀ address, address ≠ SYSTEM_SENDER_ETH_ADDRESS → ∀ n, usages address = some (.known n) →
    n < U64_MAX

/-- No nonce in the transaction is at the end of the range. -/
structure ValidatedTx.NoncesBelow (txn : ValidatedTx) : Prop where
  nonce : txn.nonce < U64_MAX
  authorizations : ∀ auth ∈ txn.authorizations7702, auth.nonce < U64_MAX

section Rules

variable {chainId baseFee : ℕ} {summary : BodySummary}

theorem KnownBelow.update (h : KnownBelow usages) {usage : NonceUsage}
    (husage : ∀ n, usage = .known n → n < U64_MAX) :
    KnownBelow (update usages address (some usage)) := by
  intro address' huser n hn
  by_cases heq : address' = address
  · rw [heq, update_self] at hn
    exact husage n (Option.some.inj hn)
  · rw [update_of_ne heq] at hn
    exact h address' huser n hn

theorem authorizeNonce_ok {usage : Option NonceUsage} {nonce : ℕ}
    (husage : ∀ n, usage = some (.known n) → n < U64_MAX) (hnonce : nonce < U64_MAX) :
    ∃ usage', authorizeNonce usage nonce = .ok usage' ∧ ∀ n, usage' = .known n → n < U64_MAX := by
  match usage with
  | none => exact ⟨_, rfl, fun n h => by cases h⟩
  | some (.possible possibleNonces) => exact ⟨_, rfl, fun n h => by cases h⟩
  | some (.known oldNonce) =>
    have hold := husage oldNonce rfl
    refine ⟨_, if_neg hold.ne, fun n hn => ?_⟩
    rw [← NonceUsage.known.inj hn]
    split <;> omega

theorem addAuthorization_ok (h : KnownBelow summary.nonceUsages) {auth : RecoveredAuthorization}
    (hsystem : auth.authority ≠ some SYSTEM_SENDER_ETH_ADDRESS) (hnonce : auth.nonce < U64_MAX) :
    ∃ summary', addAuthorization chainId summary auth = .ok summary' ∧
      KnownBelow summary'.nonceUsages := by
  unfold addAuthorization
  cases hauth : auth.authority with
  | none => exact ⟨summary, rfl, h⟩
  | some authority =>
    have hne : authority ≠ SYSTEM_SENDER_ETH_ADDRESS := fun heq => hsystem (heq ▸ hauth)
    dsimp only
    rw [if_neg hne]
    split
    · exact ⟨_, rfl, h⟩
    · obtain ⟨usage, husage, hbelow⟩ := authorizeNonce_ok (h authority hne) hnonce
      exact ⟨_, bind_eq_ok.mpr ⟨usage, husage, rfl⟩, h.update hbelow⟩

theorem foldlM_addAuthorization_ok {auths : List RecoveredAuthorization}
    (hsystem : ∀ auth ∈ auths, auth.authority ≠ some SYSTEM_SENDER_ETH_ADDRESS)
    (hnonces : ∀ auth ∈ auths, auth.nonce < U64_MAX) (h : KnownBelow summary.nonceUsages) :
    ∃ summary', auths.foldlM (addAuthorization chainId) summary = .ok summary' ∧
      KnownBelow summary'.nonceUsages := by
  induction auths generalizing summary with
  | nil => exact ⟨summary, rfl, h⟩
  | cons auth auths ih =>
    obtain ⟨hsystem, hsystems⟩ := forall_mem_cons.mp hsystem
    obtain ⟨hnonce, hnonces⟩ := forall_mem_cons.mp hnonces
    obtain ⟨summary₁, hadd, h₁⟩ := addAuthorization_ok h hsystem hnonce
    obtain ⟨summary', hadds, h'⟩ := ih hsystems hnonces h₁
    exact ⟨summary', foldlM_cons_eq_ok.mpr ⟨summary₁, hadd, hadds⟩, h'⟩

/-- A transaction that can be replayed follows the rules. -/
theorem addTransaction_of_replay {start : Address → ℕ}
    (hsummary : Summarises start summary.nonceUsages nonces) (h : KnownBelow summary.nonceUsages)
    (hwf : txn.WellFormed) (hfee : baseFee ≤ txn.maxFeePerGas)
    (htouches : txn.Touches (· ≠ SYSTEM_SENDER_ETH_ADDRESS)) (hbelow : txn.NoncesBelow)
    (hreplay : replayTransaction chainId nonces txn = .ok nonces') :
    ∃ summary', addTransaction chainId baseFee summary txn = .ok summary' ∧
      KnownBelow summary'.nonceUsages := by
  have hcheck : checkNonce (summary.nonceUsages txn.signer) txn.nonce = .ok () := by
    obtain ⟨_, hnonce, -⟩ := bind_eq_ok.mp hreplay
    have hsigner := (nonceCheckAndUpdate_eq_ok hnonce).1
    rw [hsummary txn.signer] at hsigner
    unfold checkNonce
    match husage : summary.nonceUsages txn.signer with
    | none => rfl
    | some (.possible _) => rfl
    | some (.known oldNonce) =>
      rw [husage] at hsigner
      have hnext : oldNonce + 1 = txn.nonce := Option.some.inj hsigner
      dsimp only
      rw [if_neg (h _ htouches.signer _ husage).ne, if_neg (not_not_intro hnext)]
  obtain ⟨summary', hauths, h'⟩ := @foldlM_addAuthorization_ok chainId
    ⟨addKnown summary.nonceUsages txn.signer txn.nonce, summary.txnFees⟩
    txn.authorizations7702 (fun auth hauth heq => htouches.authorities auth hauth _ heq rfl)
    hbelow.authorizations (h.update fun n hn => by
      rw [← NonceUsage.known.inj hn]
      exact hbelow.nonce)
  unfold addTransaction
  rw [if_neg (not_lt.mpr hfee), hcheck, hwf.authorizations]
  exact ⟨_, bind_eq_ok.mpr ⟨(), rfl, bind_eq_ok.mpr ⟨summary', hauths, rfl⟩⟩, h'⟩

/-- Transactions that can be replayed follow the rules. -/
theorem addTransactions_of_replay {start : Address → ℕ} {nonces nonces' : AddressMap ℕ}
    (hsummary : Summarises start summary.nonceUsages nonces) (h : KnownBelow summary.nonceUsages)
    {txns : List ValidatedTx} (hwf : ∀ txn ∈ txns, txn.WellFormed)
    (hfee : ∀ txn ∈ txns, baseFee ≤ txn.maxFeePerGas)
    (htouches : ∀ txn ∈ txns, txn.Touches (· ≠ SYSTEM_SENDER_ETH_ADDRESS))
    (hbelow : ∀ txn ∈ txns, txn.NoncesBelow)
    (hreplay : txns.foldlM (replayTransaction chainId) nonces = .ok nonces') :
    ∃ summary', txns.foldlM (addTransaction chainId baseFee) summary = .ok summary' := by
  obtain ⟨summary', hadds, -⟩ := foldlM_simulates
    (R := fun nonces (summary : BodySummary) => Summarises start summary.nonceUsages nonces ∧
      KnownBelow summary.nonceUsages)
    (fun txn hmem _ _ _ ⟨hsummary, h⟩ htxn => by
      obtain ⟨summary₁, hadd, h₁⟩ := addTransaction_of_replay hsummary h (hwf txn hmem)
        (hfee txn hmem) (htouches txn hmem) (hbelow txn hmem) htxn
      exact ⟨summary₁, hadd, hsummary.transaction hadd htxn, h₁⟩) ⟨hsummary, h⟩ hreplay
  exact ⟨summary', hadds⟩

end Rules

/-! ## Queues -/

/-- The transactions of one account, ready for block validation, with consecutive nonces. -/
structure Queued (baseFee : ℕ) (address : Address) (nonce : ℕ) (txs : List OrderedTx) : Prop where
  numbered : Numbered (fun tx => tx.tx.tx.nonce) nonce txs
  signer : ∀ tx ∈ txs, tx.tx.tx.signer = address
  accepted : ∀ tx ∈ txs, PoolTx.Accepts tx.tx.tx tx.tx
  fee : ∀ tx ∈ txs, baseFee ≤ tx.tx.tx.maxFeePerGas

/-- The list of an account in the pool. -/
structure TrackedTxList.WellFormed (list : TrackedTxList) (address : Address) : Prop where
  keyed : ∀ entry ∈ list.txs, entry.1 = entry.2.1.tx.nonce
  signer : ∀ entry ∈ list.txs, entry.2.1.tx.signer = address
  accepted : ∀ entry ∈ list.txs, PoolTx.Accepts entry.2.1.tx entry.2.1

section Queues

variable {baseFee nonce : ℕ} {address : Address} {tx : OrderedTx} {queued : List OrderedTx}
  {entries : List (ℕ × PoolTx × ℕ)}

theorem queued_nil : Queued baseFee address nonce [] := ⟨trivial, by simp, by simp, by simp⟩

theorem Queued.tail (h : Queued baseFee address nonce (tx :: queued)) :
    Queued baseFee address (nonce + 1) queued :=
  ⟨h.numbered.2, fun tx' h' => h.signer tx' (mem_cons_of_mem _ h'),
    fun tx' h' => h.accepted tx' (mem_cons_of_mem _ h'),
    fun tx' h' => h.fee tx' (mem_cons_of_mem _ h')⟩

/-- Without gaps, the nonce that is looked for is found. -/
theorem Queued.skipTo (h : Queued baseFee address nonce (tx :: queued)) {nonce' : ℕ}
    (hle : nonce ≤ nonce') {tx' : OrderedTx} {queued' : List OrderedTx}
    (hskip : SequencerState.skipTo nonce' tx queued = some (tx', queued')) :
    Queued baseFee address nonce' (tx' :: queued') := by
  have hnonce : tx.tx.tx.nonce = nonce := h.numbered.1
  fun_induction SequencerState.skipTo nonce' tx queued generalizing nonce with
  | case1 => cases hskip
  | case3 tx next queued hlt ih => exact ih h.tail (by omega) hskip h.tail.numbered.1
  | _ =>
    cases hskip
    rwa [show nonce' = nonce by omega]

theorem mem_of_mem_takeQueued (h : pooled ∈ TrackedTxList.takeQueued nonce entries) :
    ∃ entry ∈ entries, entry.2.1 = pooled := by
  fun_induction TrackedTxList.takeQueued nonce entries with
  | case1 => cases h
  | case2 => cases h
  | case3 nonce key pooled time entries heq ih =>
    rcases mem_cons.mp h with rfl | h
    · exact ⟨_, mem_cons_self, rfl⟩
    · obtain ⟨entry', hentry', heq⟩ := ih h
      exact ⟨entry', mem_cons_of_mem _ hentry', heq⟩

theorem numbered_takeQueued (h : ∀ entry ∈ entries, entry.1 = entry.2.1.tx.nonce) :
    Numbered (fun pooled : PoolTx => pooled.tx.nonce) nonce
      (TrackedTxList.takeQueued nonce entries) := by
  fun_induction TrackedTxList.takeQueued nonce entries with
  | case1 => trivial
  | case2 => trivial
  | case3 nonce key pooled time entries heq ih =>
    obtain ⟨hentry, hentries⟩ := forall_mem_cons.mp h
    exact ⟨hentry.symm.trans (not_not.mp heq), ih hentries⟩

theorem OrderedTx.new_eq_some (h : OrderedTx.new pooled baseFee = some tx) :
    tx.tx = pooled ∧ baseFee ≤ pooled.tx.maxFeePerGas := by
  obtain ⟨tip, htip, rfl⟩ := Option.map_eq_some_iff.mp h
  refine ⟨rfl, ?_⟩
  unfold TxEnvelope.effectiveTipPerGas at htip
  split at htip
  · cases htip
  · omega

theorem Queued.mapWhile {pooled : List PoolTx}
    (hnum : Numbered (fun tx : PoolTx => tx.tx.nonce) nonce pooled)
    (hsigner : ∀ tx ∈ pooled, tx.tx.signer = address)
    (haccepted : ∀ tx ∈ pooled, PoolTx.Accepts tx.tx tx) :
    Queued baseFee address nonce (MonadBft.mapWhile (OrderedTx.new · baseFee) pooled) := by
  induction pooled generalizing nonce with
  | nil => exact queued_nil
  | cons first pooled ih =>
    unfold MonadBft.mapWhile
    split
    · exact queued_nil
    next tx htx =>
      obtain ⟨hnonce, hnum⟩ := hnum
      obtain ⟨hsigner, hsigners⟩ := forall_mem_cons.mp hsigner
      obtain ⟨haccepted, haccepteds⟩ := forall_mem_cons.mp haccepted
      obtain ⟨rfl, hfee⟩ := OrderedTx.new_eq_some htx
      have hrest := ih hnum hsigners haccepteds
      exact ⟨⟨hnonce, hrest.numbered⟩, forall_mem_cons.mpr ⟨hsigner, hrest.signer⟩,
        forall_mem_cons.mpr ⟨haccepted, hrest.accepted⟩,
        forall_mem_cons.mpr ⟨hfee, hrest.fee⟩⟩

/-- The queue of an account starts with the nonce after the pending blocks. -/
theorem TrackedTxList.WellFormed.isQueued {list : TrackedTxList} (h : list.WellFormed address)
    (usage : Option NonceUsage) :
    Queued baseFee address (nonceAfter usage list.accountNonce)
      (MonadBft.mapWhile (OrderedTx.new · baseFee) (list.getQueued usage)) := by
  have hmem : ∀ pooled ∈ list.getQueued usage, ∃ entry ∈ list.txs, entry.2.1 = pooled := by
    intro pooled hpooled
    obtain ⟨entry, hentry, heq⟩ := mem_of_mem_takeQueued hpooled
    exact ⟨entry, mem_of_mem_filter hentry, heq⟩
  refine Queued.mapWhile (numbered_takeQueued fun entry hentry =>
    h.keyed entry (mem_of_mem_filter hentry)) (fun pooled hpooled => ?_)
    (fun pooled hpooled => ?_)
  · obtain ⟨entry, hentry, rfl⟩ := hmem pooled hpooled
    exact h.signer entry hentry
  · obtain ⟨entry, hentry, rfl⟩ := hmem pooled hpooled
    exact h.accepted entry hentry

end Queues

/-! ## The loop -/

/-- The transactions taken so far can be replayed and charged, and the queues continue them. -/
structure Sequenced (env : EthEnv) (limits : ProposalLimits) (v : EthBlockPolicyBlockValidator)
    (start : Address → ℕ) (balances : AddressMap AccountBalanceState) (state : SequencerState)
    (nonces : Address → ℕ) : Prop where
  replayed : (state.proposal.txs.map recoverAuthorizations).foldlM (replayTransaction env.chainId)
    (fun address => some (start address)) = .ok fun address => some (nonces address)
  charged : v.addTransactions balances (state.proposal.txs.map recoverAuthorizations) =
    .ok state.accountBalances
  accepted : ∀ tx ∈ state.proposal.txs, ∃ pooled, PoolTx.Accepts tx pooled
  fee : ∀ tx ∈ state.proposal.txs, v.baseFee ≤ tx.maxFeePerGas
  count : state.proposal.txs.length ≤ limits.txLimit
  totalGas : (state.proposal.txs.map fun tx => tx.gasLimit).sum = state.proposal.totalGas
  totalGas_le : state.proposal.totalGas ≤ limits.proposalGasLimit
  totalSize : (state.proposal.txs.map fun tx => env.length tx.toTxEnvelope).sum =
    state.proposal.totalSize
  totalSize_le : state.proposal.totalSize ≤ limits.proposalByteLimit
  addresses : (state.sequencer.heap.map fun group => group.address).Nodup
  queued : ∀ group ∈ state.sequencer.heap,
    Queued v.baseFee group.address group.tx.tx.tx.nonce (group.tx :: group.queued)
  known : ∀ group ∈ state.sequencer.heap, (state.accountBalances group.address).isSome = true
  nonce : ∀ group ∈ state.sequencer.heap, nonces group.address =
    applyPossibleNoncesToAccountNonce group.tx.tx.tx.nonce
      ((get? state.authorityPossibleNonceDeltas group.address).getD [])

section Loop

variable {limits : ProposalLimits} {v : EthBlockPolicyBlockValidator} {start nonces : Address → ℕ}
  {balances accountBalances : AddressMap AccountBalanceState} {state state' : SequencerState}
  {group : OrderedTxGroup} {rest : List OrderedTxGroup} {vt : ℕ} {goesOn : Bool}

/-- The queues of `state` are `heap`. -/
def SequencerState.withHeap (state : SequencerState) (heap : List OrderedTxGroup) :
    SequencerState :=
  { state with sequencer := ⟨heap, state.sequencer.virtualTime⟩ }

theorem Sequenced.perm (h : Sequenced env limits v start balances state nonces)
    {heap : List OrderedTxGroup} (hperm : state.sequencer.heap.Perm heap) :
    Sequenced env limits v start balances (state.withHeap heap) nonces :=
  { h with
    addresses := (hperm.map _).nodup_iff.mp h.addresses
    queued := fun group hgroup => h.queued group (hperm.mem_iff.mpr hgroup)
    known := fun group hgroup => h.known group (hperm.mem_iff.mpr hgroup)
    nonce := fun group hgroup => h.nonce group (hperm.mem_iff.mpr hgroup) }

/-- Drop the first queue, and change the noted nonces of its account only. -/
theorem Sequenced.dropGroup
    (h : Sequenced env limits v start balances (state.withHeap (group :: rest)) nonces)
    {deltas : List (Address × List ℕ)} (hdeltas : ∀ address, address ≠ group.address →
      get? deltas address = get? state.authorityPossibleNonceDeltas address) :
    Sequenced env limits v start balances
      { state.withHeap rest with authorityPossibleNonceDeltas := deltas } nonces := by
  have hnodup := nodup_cons.mp h.addresses
  exact { h with
    addresses := hnodup.2
    queued := fun group' hgroup' => h.queued group' (mem_cons_of_mem _ hgroup')
    known := fun group' hgroup' => h.known group' (mem_cons_of_mem _ hgroup')
    nonce := by
      intro group' hgroup'
      have hne : group'.address ≠ group.address := fun heq =>
        hnodup.1 (mem_map.mpr ⟨group', hgroup', heq⟩)
      rw [hdeltas _ hne]
      exact h.nonce group' (mem_cons_of_mem _ hgroup') }

/-- Put a queue in front. -/
theorem Sequenced.addGroup (h : Sequenced env limits v start balances state nonces)
    (hnew : ∀ group' ∈ state.sequencer.heap, group'.address ≠ group.address)
    (hqueued : Queued v.baseFee group.address group.tx.tx.tx.nonce (group.tx :: group.queued))
    (hknown : (state.accountBalances group.address).isSome = true)
    (hnonce : nonces group.address = applyPossibleNoncesToAccountNonce group.tx.tx.tx.nonce
      ((get? state.authorityPossibleNonceDeltas group.address).getD [])) (vt : ℕ) :
    Sequenced env limits v start balances
      { state with sequencer := ⟨group :: state.sequencer.heap, vt⟩ } nonces :=
  { h with
    addresses := nodup_cons.mpr ⟨fun hmem => by
      obtain ⟨group', hgroup', heq⟩ := mem_map.mp hmem
      exact hnew group' hgroup' heq, h.addresses⟩
    queued := forall_mem_cons.mpr ⟨hqueued, h.queued⟩
    known := forall_mem_cons.mpr ⟨hknown, h.known⟩
    nonce := forall_mem_cons.mpr ⟨hnonce, h.nonce⟩ }

theorem push_eq_ok {sequencer : ProposalSequencer} {tx : OrderedTx} {queued : List OrderedTx}
    (h : sequencer.push address tx queued = .ok sequencer') :
    sequencer' = ⟨⟨tx, sequencer.virtualTime, address, queued⟩ :: sequencer.heap,
      sequencer.virtualTime + 1⟩ := by
  unfold ProposalSequencer.push at h
  split at h
  · cases h
  · exact (Except.ok.inj h).symm

theorem Sequenced.nonce_first
    (h : Sequenced env limits v start balances (state.withHeap (group :: rest)) nonces) :
    nonces group.address = applyPossibleNoncesToAccountNonce group.tx.tx.tx.nonce
      ((get? state.authorityPossibleNonceDeltas group.address).getD []) :=
  h.nonce group mem_cons_self

/-- A queue is brought up to the nonces that were used. -/
theorem Sequenced.applyDeltas
    (h : Sequenced env limits v start balances (state.withHeap (group :: rest)) nonces)
    {used : List ℕ} (hused : get? state.authorityPossibleNonceDeltas group.address = some used)
    (happly : SequencerState.applyDeltas { state.withHeap rest with
        authorityPossibleNonceDeltas :=
          Assoc.remove state.authorityPossibleNonceDeltas group.address } group used =
      .ok (state', goesOn)) :
    Sequenced env limits v start balances state' nonces := by
  have hdrop := @Sequenced.dropGroup _ _ _ _ _ _ _ _ _ h
    (Assoc.remove state.authorityPossibleNonceDeltas group.address) fun address hne => by
      rw [get?_remove, if_neg hne]
  have hqueued := h.queued group mem_cons_self
  have hnonce := h.nonce_first
  rw [hused] at hnonce
  unfold SequencerState.applyDeltas at happly
  dsimp only at happly
  split at happly
  · cases happly
  split at happly
  · cases happly
    exact hdrop
  next tx queued hskip =>
    split at happly
    · cases happly
      exact hdrop
    next hfound =>
      obtain ⟨sequencer, hpush, happly⟩ := bind_eq_ok.mp happly
      cases happly
      have hfound := not_not.mp hfound
      rw [push_eq_ok hpush]
      refine hdrop.addGroup (fun group' hgroup' heq => ?_) ?_ ?_ ?_ _
      · exact (nodup_cons.mp h.addresses).1 (mem_map.mpr ⟨group', hgroup', heq⟩)
      · dsimp only
        rw [hfound]
        exact hqueued.skipTo (le_applyPossibleNonces _ _) hskip
      · exact h.known group mem_cons_self
      · dsimp only
        rw [get?_remove, if_pos rfl, hfound]
        exact hnonce

/-! ### Adding a transaction -/

theorem validated_of_accepts {tx : Recovered} (h : PoolTx.Accepts tx pooled) :
    pooled.validated = recoverAuthorizations tx := by
  unfold PoolTx.validated
  rw [h.raw, h.authorizations]
  rfl

/-- An authorization is noted for its authority if it may use a nonce. -/
theorem get?_noteAuthorization {accountBalances : AddressMap AccountBalanceState}
    {deltas : List (Address × List ℕ)} {auth : PoolTxRecoveredAuthorization} {address : Address}
    (hknown : (accountBalances address).isSome = true) :
    (get? (noteAuthorization env accountBalances deltas auth) address).getD [] =
      (get? deltas address).getD [] ++
        usedNonces env.chainId [⟨auth.authorization, some auth.authority⟩] address := by
  unfold noteAuthorization
  by_cases hother : auth.authorization.chainId ≠ 0 ∧ auth.authorization.chainId ≠ env.chainId
  · have hnone : usedNonces env.chainId [⟨auth.authorization, some auth.authority⟩] address = [] := by
      simp [usedNonces, usedAuthority, isForChain, hother]
    rw [if_pos hother, hnone, append_nil]
  have hchain : auth.authorization.chainId = 0 ∨ auth.authorization.chainId = env.chainId := by
    omega
  rw [if_neg hother]
  by_cases haddress : auth.authority = address
  · subst haddress
    have hsome : usedNonces env.chainId [⟨auth.authorization, some auth.authority⟩]
        auth.authority = [auth.authorization.nonce] := by
      simp [usedNonces, usedAuthority, isForChain, hchain]
    rw [hsome, Option.isNone_eq_false_iff.mpr hknown, if_neg Bool.false_ne_true,
      get?_set, if_pos rfl]
    rfl
  · have hnone : usedNonces env.chainId [⟨auth.authorization, some auth.authority⟩] address =
        [] := by
      simp [usedNonces, usedAuthority, isForChain, hchain, haddress]
    rw [hnone, append_nil]
    split
    · rfl
    · rw [get?_set, if_neg (Ne.symm haddress)]

theorem get?_foldl_noteAuthorization (hknown : (accountBalances address).isSome = true)
    (auths : List PoolTxRecoveredAuthorization) (deltas : List (Address × List ℕ)) :
    (get? (auths.foldl (noteAuthorization env accountBalances) deltas)
        address).getD [] =
      (get? deltas address).getD [] ++ usedNonces env.chainId (auths.map fun auth =>
        RecoveredAuthorization.mk auth.authorization (some auth.authority)) address := by
  induction auths generalizing deltas with
  | nil => exact (append_nil _).symm
  | cons auth auths ih =>
    rw [foldl_cons, ih, get?_noteAuthorization hknown, append_assoc, map_cons]
    exact congrArg _ filterMap_append.symm

theorem addWithin_eq_some {limit total n total' : ℕ} (h : addWithin limit total n = some total') :
    total' = total + n ∧ total' ≤ limit := by
  unfold addWithin at h
  split at h
  next hle =>
    cases h
    exact ⟨rfl, hle.2⟩
  · cases h

/-- A transaction that was added. -/
theorem tryAddTxToProposal_eq_some {accountBalances' : AddressMap AccountBalanceState}
    {proposal' : Proposal} {tx : PoolTx}
    (h : tryAddTxToProposal env limits v accountBalances proposal tx =
      some (accountBalances', proposal')) :
    v.tryAddTransaction accountBalances tx.validated = .ok accountBalances' ∧
      proposal'.txs = proposal.txs ++ [tx.tx] ∧
      proposal'.totalGas = proposal.totalGas + tx.tx.gasLimit ∧
      proposal'.totalGas ≤ limits.proposalGasLimit ∧
      proposal'.totalSize = proposal.totalSize + env.length tx.tx.toTxEnvelope ∧
      proposal'.totalSize ≤ limits.proposalByteLimit := by
  unfold tryAddTxToProposal at h
  split at h
  next totalGas totalSize hgas hsize =>
    split at h
    · cases h
    next balances hadd =>
      cases h
      obtain ⟨hgas, hgas_le⟩ := addWithin_eq_some hgas
      obtain ⟨hsize, hsize_le⟩ := addWithin_eq_some hsize
      exact ⟨hadd, rfl, hgas, hgas_le, hsize, hsize_le⟩
  · cases h

section

variable (h : Sequenced env limits v start balances (state.withHeap (group :: rest)) nonces)
  (hcount : state.proposal.txs.length < limits.txLimit)

include h hcount

/-- The first transaction of a queue is added, and the queues still continue the proposal. -/
theorem Sequenced.addTx (hnone : get? state.authorityPossibleNonceDeltas group.address = none)
    (hadd : tryAddTxToProposal env limits v state.accountBalances state.proposal
      group.tx.tx = some (accountBalances, proposal)) :
    Sequenced env limits v start balances ⟨⟨rest, state.sequencer.virtualTime⟩, proposal,
      group.tx.tx.validRecoveredAuthorizations.foldl
        (noteAuthorization env accountBalances) state.authorityPossibleNonceDeltas,
      accountBalances⟩
      (noncesAfter env.chainId nonces (recoverAuthorizations group.tx.tx.tx)) := by
  have hqueued := h.queued group mem_cons_self
  have haccepted := hqueued.accepted group.tx mem_cons_self
  have hsigner : group.tx.tx.tx.signer = group.address := hqueued.signer group.tx mem_cons_self
  have hnonce : nonces group.tx.tx.tx.signer = group.tx.tx.tx.nonce := by
    rw [hsigner, h.nonce_first, hnone]
    rfl
  obtain ⟨hcharge, htxs, hgas, hgas_le, hsize, hsize_le⟩ := tryAddTxToProposal_eq_some hadd
  have hvalidated := validated_of_accepts haccepted
  rw [hvalidated] at hcharge
  have hnodup := nodup_cons.mp h.addresses
  have hsome := isSome_of_tryAddTransaction hcharge
  refine
    { replayed := ?_, charged := ?_, accepted := ?_, fee := ?_, count := ?_, totalGas := ?_,
      totalGas_le := hgas_le, totalSize := ?_, totalSize_le := hsize_le, addresses := hnodup.2,
      queued := fun group' hgroup' => h.queued group' (mem_cons_of_mem _ hgroup'),
      known := fun group' hgroup' => ?_, nonce := fun group' hgroup' => ?_ }
  · dsimp only
    rw [htxs, map_append, map_singleton]
    exact foldlM_append_eq_ok.mpr ⟨_, h.replayed, foldlM_cons_eq_ok.mpr
      ⟨_, replayTransaction_total (wellFormed_recoverAuthorizations _) hnonce, rfl⟩⟩
  · dsimp only
    rw [htxs, map_append, map_singleton]
    exact foldlM_append_eq_ok.mpr ⟨_, h.charged, foldlM_cons_eq_ok.mpr ⟨_, hcharge, rfl⟩⟩
  · dsimp only
    rw [htxs]
    exact forall_mem_append.mpr ⟨h.accepted, by simpa using ⟨group.tx.tx, haccepted⟩⟩
  · dsimp only
    rw [htxs]
    exact forall_mem_append.mpr
      ⟨h.fee, by simpa using hqueued.fee group.tx mem_cons_self⟩
  · dsimp only
    rw [htxs, length_append, length_singleton]
    exact hcount
  · dsimp only
    rw [htxs, map_append, sum_append, hgas, ← show _ = state.proposal.totalGas from
      h.totalGas]
    simp [withHeap]
  · dsimp only
    rw [htxs, map_append, sum_append, hsize, ← show _ = state.proposal.totalSize from
      h.totalSize]
    simp [withHeap]
  · dsimp only
    rw [hsome]
    exact h.known group' (mem_cons_of_mem _ hgroup')
  · have hknown : (accountBalances group'.address).isSome = true := by
      rw [hsome]
      exact h.known group' (mem_cons_of_mem _ hgroup')
    have hne : group'.address ≠ group.tx.tx.tx.signer := fun heq =>
      hnodup.1 (mem_map.mpr ⟨group', hgroup', heq.trans hsigner⟩)
    rw [get?_foldl_noteAuthorization hknown, haccepted.authorizations, applyPossibleNonces_append]
    unfold noncesAfter
    rw [show (recoverAuthorizations group.tx.tx.tx).signer = group.tx.tx.tx.signer from rfl,
      if_neg hne, h.nonce group' (mem_cons_of_mem _ hgroup')]
    rfl

theorem Sequenced.addFirst (hnone : get? state.authorityPossibleNonceDeltas group.address = none)
    (hadd : SequencerState.addFirst env limits v (state.withHeap rest) group = .ok state') :
    ∃ nonces', Sequenced env limits v start balances state' nonces' := by
  unfold SequencerState.addFirst at hadd
  split at hadd
  · cases hadd
    exact ⟨nonces, h.dropGroup fun _ _ => rfl⟩
  next accountBalances proposal htry =>
    obtain ⟨sequencer, hsequencer, hadd⟩ := bind_eq_ok.mp hadd
    cases hadd
    have hadded := h.addTx hcount hnone htry
    refine ⟨noncesAfter env.chainId nonces (recoverAuthorizations group.tx.tx.tx), ?_⟩
    cases hqueued : group.queued with
    | nil =>
      rw [hqueued] at hsequencer
      cases hsequencer
      exact hadded
    | cons next queued =>
      rw [hqueued] at hsequencer
      rw [push_eq_ok hsequencer]
      have hgroup := h.queued group mem_cons_self
      have haccepted := hgroup.accepted group.tx mem_cons_self
      have hsigner : group.tx.tx.tx.signer = group.address := hgroup.signer group.tx mem_cons_self
      rw [hqueued] at hgroup
      have hnext : next.tx.tx.nonce = group.tx.tx.tx.nonce + 1 := hgroup.numbered.2.1
      have hknown : (accountBalances group.address).isSome = true := by
        rw [isSome_of_tryAddTransaction (tryAddTxToProposal_eq_some htry).1]
        exact h.known group mem_cons_self
      refine @Sequenced.addGroup _ _ _ _ _ _ _ ⟨next, _, group.address, queued⟩ hadded
        (fun group' hgroup' heq => ?_) ?_ hknown ?_ _
      · exact (nodup_cons.mp h.addresses).1 (mem_map.mpr ⟨group', hgroup', heq⟩)
      · dsimp only
        rw [hnext]
        exact hgroup.tail
      · rw [get?_foldl_noteAuthorization hknown, hnone, haccepted.authorizations, hnext]
        unfold noncesAfter
        rw [if_pos (show group.address = (recoverAuthorizations group.tx.tx.tx).signer from
          hsigner.symm), h.nonce_first, hnone]
        rfl

theorem Sequenced.step
    (hstep : SequencerState.step env limits v (state.withHeap rest) group = .ok (state', goesOn)) :
    ∃ nonces', Sequenced env limits v start balances state' nonces' := by
  unfold SequencerState.step at hstep
  split at hstep
  next used hused => exact ⟨nonces, h.applyDeltas hused hstep⟩
  next hnone =>
    obtain ⟨state₁, hadd, hstep⟩ := bind_eq_ok.mp hstep
    cases hstep
    exact h.addFirst hcount hnone hadd

end

theorem Sequenced.run {fuel : ℕ} (h : Sequenced env limits v start balances state nonces)
    (hrun : state.run env limits v fuel = .ok proposal) :
    ∃ state' nonces', Sequenced env limits v start balances state' nonces' ∧
      state'.proposal = proposal := by
  induction fuel generalizing state nonces with
  | zero => exact ⟨state, nonces, h, Except.ok.inj hrun⟩
  | succ fuel ih =>
    unfold run at hrun
    split at hrun
    next hcount =>
      split at hrun
      · exact ⟨state, nonces, h, Except.ok.inj hrun⟩
      next group heap hpop =>
        obtain ⟨⟨state₁, goesOn⟩, hstep, hrun⟩ := bind_eq_ok.mp hrun
        obtain ⟨nonces₁, h₁⟩ := (h.perm (popMax_perm hpop)).step hcount hstep
        dsimp only at hrun
        split at hrun
        · exact ih h₁ hrun
        · exact ⟨state₁, nonces₁, h₁, Except.ok.inj hrun⟩
    · exact ⟨state, nonces, h, Except.ok.inj hrun⟩

end Loop

/-! ## The first queues -/

section Start

variable {shuffle : List OrderedTxGroup → List OrderedTxGroup}
  {tracked : List (Address × TrackedTxList)} {baseFee txLimit : ℕ} {addresses : List Address}

/-- The queue is that of a tracked account. -/
def OrderedTxGroup.IsFrom (group : OrderedTxGroup) (usages : NonceUsageMap) (baseFee : ℕ)
    (entry : Address × TrackedTxList) : Prop :=
  group.address = entry.1 ∧
    mapWhile (OrderedTx.new · baseFee) (entry.2.getQueued (usages entry.1)) =
      group.tx :: group.queued

theorem foldlM_addTracked {sequencer : ProposalSequencer}
    (h : tracked.foldlM (ProposalSequencer.addTracked usages baseFee) sequencer = .ok sequencer') :
    ∃ groups, sequencer'.heap = sequencer.heap ++ groups ∧
      (groups.map fun group => group.address).Sublist (tracked.map Prod.fst) ∧
      ∀ group ∈ groups, ∃ entry ∈ tracked, group.IsFrom usages baseFee entry := by
  induction tracked generalizing sequencer with
  | nil =>
    cases h
    exact ⟨[], by simp⟩
  | cons entry tracked ih =>
    obtain ⟨sequencer₁, hentry, hrest⟩ := foldlM_cons_eq_ok.mp h
    obtain ⟨groups, hheap, hsub, hfrom⟩ := ih hrest
    unfold ProposalSequencer.addTracked at hentry
    split at hentry
    · cases hentry
      exact ⟨groups, hheap, hsub.trans (sublist_cons_self _ _), fun group hgroup => by
        obtain ⟨entry', hentry', h'⟩ := hfrom group hgroup
        exact ⟨entry', mem_cons_of_mem _ hentry', h'⟩⟩
    next tx queued hqueued =>
      split at hentry
      · cases hentry
      cases hentry
      refine ⟨⟨tx, sequencer.virtualTime, entry.1, queued⟩ :: groups, ?_, hsub.cons_cons _, ?_⟩
      · rw [hheap, append_assoc, singleton_append]
      · refine forall_mem_cons.mpr
          ⟨⟨entry, mem_cons_self, rfl, hqueued⟩, fun group hgroup => ?_⟩
        obtain ⟨entry', hentry', h'⟩ := hfrom group hgroup
        exact ⟨entry', mem_cons_of_mem _ hentry', h'⟩

/-- The queues are those of different tracked accounts. -/
theorem new_eq_ok {extending : List (EthValidatedBlock env)} {sequencer : ProposalSequencer}
    (hshuffle : ∀ groups, (shuffle groups).Perm groups) (hnodup : (tracked.map Prod.fst).Nodup)
    (h : ProposalSequencer.new shuffle tracked extending baseFee txLimit = .ok sequencer) :
    (sequencer.heap.map fun group => group.address).Nodup ∧
      ∀ group ∈ sequencer.heap, ∃ entry ∈ tracked, group.IsFrom
        (NonceUsageMap.getNonceUsages (extending.map fun block => block.nonceUsages)) baseFee
        entry := by
  obtain ⟨all, hall, h⟩ := bind_eq_ok.mp h
  cases h
  obtain ⟨groups, hheap, hsub, hfrom⟩ := foldlM_addTracked hall
  rw [hheap]
  constructor
  · refine ((take_sublist _ _).map _).nodup ?_
    exact ((hshuffle groups).map _).nodup_iff.mpr (hsub.nodup hnodup)
  · intro group hgroup
    exact hfrom group ((hshuffle groups).mem_iff.mp (mem_of_mem_take hgroup))

/-- The base balance of an account does not depend on the other accounts. -/
theorem computeAccountBaseBalances_of_mem {seqNum : ℕ}
    {extending : Option (List (EthValidatedBlock env))} {addresses' : List Address}
    {balances balances' : AddressMap AccountBalanceState}
    (h : policy.computeAccountBaseBalances seqNum backend extending addresses = .ok balances)
    (h' : policy.computeAccountBaseBalances seqNum backend extending addresses' = .ok balances') :
    ∀ address ∈ addresses, address ∈ addresses' → balances address = balances' address := by
  obtain ⟨index, hindex, h⟩ := bind_eq_ok.mp h
  obtain ⟨index', hindex', h'⟩ := bind_eq_ok.mp h'
  cases hindex.symm.trans hindex'
  obtain ⟨statuses, hstatuses, h⟩ := bind_eq_ok.mp h
  obtain ⟨statuses', hstatuses', h'⟩ := bind_eq_ok.mp h'
  cases hstatuses.symm.trans hstatuses'
  obtain ⟨pairs, hpairs, h⟩ := bind_eq_ok.mp h
  obtain ⟨pairs', hpairs', h'⟩ := bind_eq_ok.mp h'
  cases h
  cases h'
  intro address haddress haddress'
  obtain ⟨state, hstate, hget⟩ := get?_mapM hpairs haddress
  obtain ⟨state', hstate', hget'⟩ := get?_mapM hpairs' haddress'
  cases hstate.symm.trans hstate'
  rw [hget, hget']

/-- The balances are those of the accounts asked for. -/
theorem computeAccountBaseBalances_isSome {seqNum : ℕ}
    {extending : Option (List (EthValidatedBlock env))} {balances : AddressMap AccountBalanceState}
    (h : policy.computeAccountBaseBalances seqNum backend extending addresses = .ok balances)
    (address : Address) : (balances address).isSome = true ↔ address ∈ addresses := by
  obtain ⟨index, -, h⟩ := bind_eq_ok.mp h
  obtain ⟨statuses, -, h⟩ := bind_eq_ok.mp h
  obtain ⟨pairs, hpairs, h⟩ := bind_eq_ok.mp h
  cases h
  constructor
  · intro hsome
    obtain ⟨state, hstate⟩ := Option.isSome_iff_exists.mp hsome
    exact mem_of_get?_mapM hpairs hstate
  · intro haddress
    obtain ⟨state, -, hget⟩ := get?_mapM hpairs haddress
    rw [hget]
    rfl

end Start

/-! ## Proposals are coherent -/

section Coherent

/-- A transaction that the pool took does not touch the system sender. -/
theorem touches_of_accepts {tx : Recovered} (h : PoolTx.Accepts tx pooled) :
    (recoverAuthorizations tx).Touches (· ≠ SYSTEM_SENDER_ETH_ADDRESS) := by
  constructor
  · have hsender := (Bool.or_eq_false_iff.mp h.notForbidden).1
    change tx.signer ≠ SYSTEM_SENDER_ETH_ADDRESS
    simpa [isSystemSender] using hsender
  intro auth hauth address haddress
  rw [← h.authorizations] at hauth
  obtain ⟨pooledAuth, hpooled, rfl⟩ := mem_map.mp hauth
  cases haddress
  exact h.notSystem pooledAuth hpooled

section

variable {systemTxns : List ValidatedTx}
  (hsystem : ∀ txn ∈ systemTxns, txn.signer = SYSTEM_SENDER_ETH_ADDRESS)
  (hne : address ≠ SYSTEM_SENDER_ETH_ADDRESS)

include hsystem hne

/-- System transactions only use nonces of the system sender. -/
theorem systemTransactionNonceCheck_frame
    (h : systemTransactionNonceCheck systemTxns nonces = .ok nonces') :
    nonces' address = nonces address := by
  induction systemTxns generalizing nonces with
  | nil => rw [← Except.ok.inj h]
  | cons txn txns ih =>
    obtain ⟨hsigner, hsigners⟩ := forall_mem_cons.mp hsystem
    obtain ⟨nonces₁, htxn, htxns⟩ := foldlM_cons_eq_ok.mp h
    rw [ih hsigners htxns, (nonceCheckAndUpdate_eq_ok htxn).2]
    exact update_of_ne (by rw [show txn.toRecovered.signer = _ from hsigner]; exact hne) _ _

theorem addSystemTransaction_frame {usages' : NonceUsageMap}
    (h : systemTxns.foldlM addSystemTransaction usages = .ok usages') :
    usages' address = usages address := by
  induction systemTxns generalizing usages with
  | nil => rw [← Except.ok.inj h]
  | cons txn txns ih =>
    obtain ⟨hsigner, hsigners⟩ := forall_mem_cons.mp hsystem
    obtain ⟨usages₁, htxn, htxns⟩ := foldlM_cons_eq_ok.mp h
    obtain ⟨_, -, htxn⟩ := bind_eq_ok.mp htxn
    rw [ih hsigners htxns, ← Except.ok.inj htxn]
    exact update_of_ne (by rw [hsigner]; exact hne) _ _

end

theorem foldlM_checkTransaction {v : EthBlockPolicyBlockValidator} {chainId : ℕ}
    {balances balances' : AddressMap AccountBalanceState}
    (hreplay : txns.foldlM (replayTransaction chainId) nonces = .ok nonces')
    (hcharge : v.addTransactions balances txns = .ok balances') :
    txns.foldlM (checkTransaction v chainId) (nonces, balances) = .ok (nonces', balances') := by
  induction txns generalizing nonces balances with
  | nil =>
    cases hreplay
    cases hcharge
    rfl
  | cons txn txns ih =>
    obtain ⟨nonces₁, htxn, htxns⟩ := foldlM_cons_eq_ok.mp hreplay
    obtain ⟨balances₁, hadd, hadds⟩ := foldlM_cons_eq_ok.mp hcharge
    exact foldlM_cons_eq_ok.mpr ⟨(nonces₁, balances₁),
      checkTransaction_eq_ok.mpr ⟨htxn, hadd⟩, ih htxns hadds⟩

/-- The signers of transactions that can be charged have balances. -/
theorem isSome_of_addTransactions {v : EthBlockPolicyBlockValidator}
    {balances balances' : AddressMap AccountBalanceState}
    (h : v.addTransactions balances txns = .ok balances') :
    ∀ txn ∈ txns, (balances txn.signer).isSome = true := by
  induction txns generalizing balances with
  | nil => simp
  | cons txn txns ih =>
    obtain ⟨balances₁, hadd, hadds⟩ := foldlM_cons_eq_ok.mp h
    refine forall_mem_cons.mpr ⟨?_, fun txn' htxn' => ?_⟩
    · obtain ⟨state, _, hstate, -⟩ := tryAddTransaction_eq_ok hadd
      rw [hstate]
      rfl
    · rw [← isSome_of_tryAddTransaction hadd]
      exact ih hadds txn' htxn'

variable {limits : ProposalLimits} {v v' : EthBlockPolicyBlockValidator} {start nonces : Address → ℕ}
  {balances : AddressMap AccountBalanceState} {state : SequencerState} {systemTxns : List ValidatedTx}

/-- The check of a block with the proposal passes. -/
theorem Sequenced.checks (h : Sequenced env limits v start balances state nonces)
    (hsystem : ∀ txn ∈ systemTxns, txn.signer = SYSTEM_SENDER_ETH_ADDRESS)
    {baseNonces nonces₁ : AddressMap ℕ}
    (hbaseNonces : ∀ address ∈ extractSigners (state.proposal.txs.map recoverAuthorizations)
      systemTxns, baseNonces address = some (start address))
    (hnonces₁ : systemTransactionNonceCheck systemTxns baseNonces = .ok nonces₁)
    {baseBalances : AddressMap AccountBalanceState}
    (hbaseBalances : ∀ address ∈ extractSigners (state.proposal.txs.map recoverAuthorizations)
      systemTxns, (balances address).isSome = true → balances address = baseBalances address) :
    ∃ final, (state.proposal.txs.map recoverAuthorizations).foldlM
      (checkTransaction v env.chainId) (nonces₁, baseBalances) = .ok final := by
  let txns := state.proposal.txs.map recoverAuthorizations
  let P := fun address => address ∈ extractSigners txns systemTxns ∧
    address ≠ SYSTEM_SENDER_ETH_ADDRESS
  have htouches : ∀ txn ∈ txns, txn.Touches P := by
    intro txn htxn
    obtain ⟨tx, htx, rfl⟩ := mem_map.mp htxn
    obtain ⟨pooled, hpooled⟩ := h.accepted tx htx
    have huser := touches_of_accepts hpooled
    refine ⟨⟨?_, huser.signer⟩, fun auth hauth address haddress =>
      ⟨?_, huser.authorities auth hauth address haddress⟩⟩
    · exact mem_append_left _ (mem_append_left _ (mem_map_of_mem htxn))
    · refine mem_append_left _ (mem_append_right _ (mem_flatMap.mpr
        ⟨_, htxn, mem_filterMap.mpr ⟨auth, hauth, haddress⟩⟩))
  have hagree : AgreeOn P (fun address => some (start address)) nonces₁ := by
    intro address hP
    rw [systemTransactionNonceCheck_frame hsystem hP.2 hnonces₁, hbaseNonces address hP.1]
  obtain ⟨final, hreplay, -⟩ := foldlM_simulates
    (fun txn htxn _ _ _ hR => replayTransaction_congr (htouches txn htxn) hR) hagree h.replayed
  obtain ⟨final', hcharge, -⟩ := foldlM_simulates (f := v.tryAddTransaction)
    (R := AgreeOn fun address =>
      address ∈ extractSigners txns systemTxns ∧ (balances address).isSome = true)
    (fun txn htxn _ _ _ hR hadd => tryAddTransaction_congr
      ⟨(htouches txn htxn).signer.1, isSome_of_addTransactions h.charged txn htxn⟩ hR hadd)
    (fun address hP => hbaseBalances address hP.1 hP.2) h.charged
  exact ⟨_, foldlM_checkTransaction hreplay hcharge⟩

/-- Block validation accepts the nonces of the proposal. -/
theorem Sequenced.follows (h : Sequenced env limits v start balances state nonces)
    (hsystem : ∀ txn ∈ systemTxns, txn.signer = SYSTEM_SENDER_ETH_ADDRESS)
    (husages : systemTxns.foldlM addSystemTransaction (fun _ => none) = .ok usages)
    (hbelow : ∀ tx ∈ state.proposal.txs, (recoverAuthorizations tx).NoncesBelow) :
    ∃ summary, (state.proposal.txs.map recoverAuthorizations).foldlM
      (addTransaction env.chainId v.baseFee) ⟨usages, fun _ => none⟩ = .ok summary := by
  have htouches : ∀ txn ∈ state.proposal.txs.map recoverAuthorizations,
      txn.Touches (· ≠ SYSTEM_SENDER_ETH_ADDRESS) := by
    refine forall_mem_map.mpr fun tx htx => ?_
    obtain ⟨pooled, hpooled⟩ := h.accepted tx htx
    exact touches_of_accepts hpooled
  have huser : ∀ address, address ≠ SYSTEM_SENDER_ETH_ADDRESS → usages address = none :=
    fun address hne => addSystemTransaction_frame hsystem hne husages
  -- the replay may as well start with what the system transactions have used
  obtain ⟨final, hreplay, -⟩ := foldlM_simulates (R := AgreeOn (· ≠ SYSTEM_SENDER_ETH_ADDRESS))
    (t := fun address => some (nonceAfter (usages address) (start address)))
    (fun txn htxn _ _ _ hR => replayTransaction_congr (htouches txn htxn) hR)
    (fun address hne => by dsimp only; rw [huser address hne]; rfl) h.replayed
  refine @addTransactions_of_replay env.chainId v.baseFee ⟨usages, fun _ => none⟩ start _ _
    (fun _ => rfl) (fun address hne n hn => ?_) _ ?_ ?_ htouches ?_ hreplay
  · exact absurd (hn.symm.trans (huser address hne)) (by simp)
  · exact forall_mem_map.mpr fun tx _ => wellFormed_recoverAuthorizations tx
  · exact forall_mem_map.mpr h.fee
  · exact forall_mem_map.mpr hbelow

theorem sequenced_empty {sequencer : ProposalSequencer}
    (haddresses : (sequencer.heap.map fun group => group.address).Nodup)
    (hqueued : ∀ group ∈ sequencer.heap, Queued v.baseFee group.address
      (start group.address) (group.tx :: group.queued))
    (hknown : ∀ group ∈ sequencer.heap, (balances group.address).isSome = true) :
    Sequenced env limits v start balances ⟨sequencer, .empty, [], balances⟩ start where
  replayed := rfl
  charged := rfl
  accepted := by simp [Proposal.empty]
  fee := by simp [Proposal.empty]
  count := Nat.zero_le _
  totalGas := rfl
  totalGas_le := Nat.zero_le _
  totalSize := rfl
  totalSize_le := Nat.zero_le _
  addresses := haddresses
  queued group hgroup := by
    have h := hqueued group hgroup
    rwa [← h.numbered.1] at h
  known := hknown
  nonce group hgroup := (hqueued group hgroup).numbered.1.symm

/-- Where the sequencer starts. -/
theorem sequenced_new {policy : EthBlockPolicy env} {seqNum : ℕ} {backend : StateBackend env}
    {extending : List (EthValidatedBlock env)} {tracked : List (Address × TrackedTxList)}
    (hnodup : (tracked.map Prod.fst).Nodup) (hwf : ∀ entry ∈ tracked, entry.2.WellFormed entry.1)
    (hstart : ∀ entry ∈ tracked, start entry.1 =
      nonceAfter (NonceUsageMap.getNonceUsages (extending.map fun block => block.nonceUsages) entry.1)
        entry.2.accountNonce) {shuffle : List OrderedTxGroup → List OrderedTxGroup}
    (hshuffle : ∀ groups, (shuffle groups).Perm groups) {sequencer : ProposalSequencer}
    (hnew : ProposalSequencer.new shuffle tracked extending v.baseFee limits.txLimit =
      .ok sequencer) (hbalances : policy.computeAccountBaseBalances seqNum backend (some extending)
      sequencer.addresses = .ok balances) :
    Sequenced env limits v start balances ⟨sequencer, .empty, [], balances⟩ start := by
  obtain ⟨haddresses, hfrom⟩ := new_eq_ok hshuffle hnodup hnew
  refine sequenced_empty haddresses (fun group hgroup => ?_) fun group hgroup =>
    (computeAccountBaseBalances_isSome hbalances _).mpr (mem_map_of_mem hgroup)
  obtain ⟨entry, hentry, haddress, hqueue⟩ := hfrom group hgroup
  rw [haddress, hstart entry hentry, ← hqueue]
  exact (hwf entry hentry).isQueued _

/-- How a proposal came about. -/
theorem sequenceUserTransactions_eq_ok {shuffle : List OrderedTxGroup → List OrderedTxGroup}
    {lastCommit : Option ℕ} {chainRevision : ChainParams} {tracked : List (Address × TrackedTxList)}
    {seqNum baseFee : ℕ} {extending : List (EthValidatedBlock env)}
    (h : sequenceUserTransactions shuffle lastCommit chainRevision tracked seqNum baseFee limits
      extending policy backend = .ok proposal) :
    proposal = .empty ∨ ∃ sequencer balances,
      ProposalSequencer.new shuffle tracked extending baseFee limits.txLimit = .ok sequencer ∧
      policy.computeAccountBaseBalances seqNum backend (some extending) sequencer.addresses =
        .ok balances ∧
      sequencer.buildProposal env limits balances
        ⟨seqNum, policy.executionDelay, baseFee, chainRevision⟩ = .ok proposal := by
  unfold sequenceUserTransactions at h
  split at h
  · exact .inl (Except.ok.inj h).symm
  split at h
  · cases h
  split at h
  · exact .inl (Except.ok.inj h).symm
  split at h
  · exact .inl (Except.ok.inj h).symm
  obtain ⟨sequencer, hnew, h⟩ := bind_eq_ok.mp h
  split at h
  · exact .inl (Except.ok.inj h).symm
  obtain ⟨balances, hbalances, h⟩ := bind_eq_ok.mp h
  exact .inr ⟨sequencer, balances, mapError_eq_ok.mp hnew, mapError_eq_ok.mp hbalances,
    mapError_eq_ok.mp h⟩

variable {k : ℕ} {genesis : Address → ℕ} {committed extending : List (EthValidatedBlock env)}

/-- A proposal that the pool sequences passes the checks of a block. The account nonces of the
pool are those after the committed blocks, and `shuffle` is any way to reorder the queues. -/
theorem sequenceUserTransactions_coherent (hk : 1 ≤ k)
    (hchain : CoherentChain k genesis (committed ++ extending))
    (hnum : Numbered EthValidatedBlock.getSeqNum 1 (committed ++ extending))
    {header : EthBlockHeader env} (hlen : (committed ++ extending).length + 1 = header.seqNum)
    (hfits : header.seqNum ≤ U64_MAX + 1) {policy : EthBlockPolicy env}
    (hpolicy : committed.foldlM updateCommittedBlock (.new env GENESIS_SEQ_NUM k) = .ok policy)
    {backend : StateBackend env}
    (hbackend : ReturnsReplay genesis (committed ++ extending) backend (max header.seqNum k - k))
    {committedNonces : AddressMap ℕ} (hcommitted : replayBlocks genesis committed = .ok committedNonces)
    {tracked : List (Address × TrackedTxList)} (hnodup : (tracked.map Prod.fst).Nodup)
    (hwf : ∀ entry ∈ tracked, entry.2.WellFormed entry.1)
    (hnonces : ∀ entry ∈ tracked, committedNonces entry.1 = some entry.2.accountNonce)
    {shuffle : List OrderedTxGroup → List OrderedTxGroup}
    (hshuffle : ∀ groups, (shuffle groups).Perm groups) {lastCommit : Option ℕ}
    {chainRevision : ChainParams} {proposal : Proposal}
    (hproposal : sequenceUserTransactions shuffle lastCommit chainRevision tracked header.seqNum
      header.baseFee limits extending policy backend = .ok proposal) :
    let txns := proposal.txs.map recoverAuthorizations
    (∀ systemTxns : List ValidatedTx, (∀ txn ∈ systemTxns, txn.signer = SYSTEM_SENDER_ETH_ADDRESS) →
      (∀ nonces nonces₁ balances, policy.getAccountBaseNonces header.seqNum backend extending
          (extractSigners txns systemTxns) = .ok nonces →
        policy.computeAccountBaseBalances header.seqNum backend (some extending)
          (extractSigners txns systemTxns) = .ok balances →
        systemTransactionNonceCheck systemTxns nonces = .ok nonces₁ →
        ∃ final, txns.foldlM (checkTransaction (header.validator k) env.chainId)
          (nonces₁, balances) = .ok final) ∧
      ∀ usages, systemTxns.foldlM BodySummary.addSystemTransaction (fun _ => none) = .ok usages →
        (∀ txn ∈ txns, txn.NoncesBelow) →
        ∃ summary, txns.foldlM (BodySummary.addTransaction env.chainId header.baseFee)
          ⟨usages, fun _ => none⟩ = .ok summary) ∧
    (∀ tx ∈ proposal.txs, header.baseFee ≤ tx.maxFeePerGas) ∧
    (proposal.txs.map fun tx => (tx.signer, tx.nonce)).Nodup ∧
    proposal.txs.length ≤ limits.txLimit ∧
    (proposal.txs.map fun tx => tx.gasLimit).sum ≤ limits.proposalGasLimit ∧
    (proposal.txs.map fun tx => env.length tx.toTxEnvelope).sum ≤ limits.proposalByteLimit := by
  obtain ⟨policy', hpolicy', hdelay, hlast, d, hd, hwindow⟩ := commit_window hk hnum (by omega)
  cases hpolicy.symm.trans hpolicy'
  subst hdelay
  -- the nonces before the block, for all accounts
  obtain ⟨total, htotal⟩ := hchain.replays hk hnum (by omega)
  obtain ⟨committedNonces', hcommitted', hextending⟩ := foldlM_append_eq_ok.mp htotal
  cases hcommitted.symm.trans hcommitted'
  have hvalid := hchain.validated
  have hcommittedNonces := summaries_replay
    (fun block hblock => hvalid block (mem_append_left _ hblock)) (fun _ => rfl) hcommitted
  have hsummaries := summaries_replay
    (fun block hblock => hvalid block (mem_append_right _ hblock)) hcommittedNonces hextending
  let start : Address → ℕ := fun address => extending.foldl
    (fun n block => nonceAfter (block.nonceUsages address) n)
    (committed.foldl (fun n block => nonceAfter (block.nonceUsages address) n) (genesis address))
  have hstart : ∀ entry ∈ tracked, start entry.1 =
      nonceAfter (NonceUsageMap.getNonceUsages (extending.map fun block => block.nonceUsages) entry.1)
        entry.2.accountNonce := by
    intro entry hentry
    have haccount := Option.some.inj ((hcommittedNonces entry.1).symm.trans (hnonces entry hentry))
    rw [NonceUsageMap.nonceAfter_getNonceUsages, foldl_map, ← haccount]
  have hbase := fun addresses => hwindow.getAccountBaseNonces hd hnum hk hlast hvalid hlen htotal
    hbackend addresses
  let v : EthBlockPolicyBlockValidator :=
    ⟨header.seqNum, policy.executionDelay, header.baseFee, chainRevision⟩
  obtain ⟨state, nonces, balances, hsequenced, rfl, hagree⟩ : ∃ state nonces balances,
      Sequenced env limits v start balances state nonces ∧ state.proposal = proposal ∧
      ∀ addresses balances', policy.computeAccountBaseBalances header.seqNum backend
        (some extending) addresses = .ok balances' → ∀ address ∈ addresses,
        (balances address).isSome = true → balances address = balances' address := by
    rcases sequenceUserTransactions_eq_ok hproposal with rfl |
      ⟨sequencer, balances, hnew, hbalances, hbuild⟩
    · exact ⟨⟨⟨[], 0⟩, .empty, [], fun _ => none⟩, start, _,
        sequenced_empty nodup_nil (by simp) (by simp), rfl, fun _ _ _ _ _ h => by cases h⟩
    · obtain ⟨state, nonces, hsequenced, hstate⟩ := (@sequenced_new env limits v start balances policy
        header.seqNum backend extending tracked hnodup hwf hstart shuffle hshuffle sequencer hnew
        hbalances).run hbuild
      refine ⟨state, nonces, balances, hsequenced, hstate, ?_⟩
      intro addresses balances' hbalances' address haddress hsome
      exact computeAccountBaseBalances_of_mem hbalances hbalances' address
        ((computeAccountBaseBalances_isSome hbalances address).mp hsome) haddress
  refine ⟨fun systemTxns hsystem => ⟨?_, ?_⟩, hsequenced.fee, ?_, hsequenced.count,
    hsequenced.totalGas.trans_le hsequenced.totalGas_le,
    hsequenced.totalSize.trans_le hsequenced.totalSize_le⟩
  · intro baseNonces nonces₁ baseBalances hbaseNonces hbaseBalances hnonces₁
    rw [hbase] at hbaseNonces
    refine hsequenced.checks hsystem (fun address haddress => ?_) hnonces₁
      (fun address haddress hsome => hagree _ _ hbaseBalances address haddress hsome)
    cases hbaseNonces
    dsimp only
    rw [if_pos haddress]
    exact hsummaries address
  · intro usages husages hbelow
    exact hsequenced.follows hsystem husages fun tx htx => hbelow _ (mem_map_of_mem htx)
  · have hnodup := (nodup_of_replay (forall_mem_map.mpr fun tx _ =>
      wellFormed_recoverAuthorizations tx) hsequenced.replayed).2
    rw [map_map] at hnodup
    exact hnodup

/-- A transfer in the pool. -/
def samplePooled (signer nonce : ℕ) : PoolTx :=
  ⟨⟨sampleTransfer signer nonce, signer⟩, .forwarded 0, 1, 0,
    computeTxnMaxValue (sampleTransfer signer nonce) 100000000000,
    computeTxnMaxGasCost (sampleTransfer signer nonce) 100000000000, []⟩

/-- The pool after the first block: the next transfers of two accounts. -/
def sampleTracked : List (Address × TrackedTxList) :=
  [(7, ⟨1, [(1, samplePooled 7 1, 0), (2, samplePooled 7 2, 0)]⟩), (8, ⟨0, [(1, samplePooled 8 1, 0)]⟩)]

theorem sampleTracked_wellFormed : ∀ entry ∈ sampleTracked, entry.2.WellFormed entry.1 := by
  have haccepts : ∀ signer nonce, signer ≠ SYSTEM_SENDER_ETH_ADDRESS →
      PoolTx.Accepts (samplePooled signer nonce).tx (samplePooled signer nonce) := by
    intro signer nonce hne
    refine ⟨rfl, ?_, rfl, by simp [samplePooled]⟩
    unfold isForbidden isSystemSender
    rw [show (samplePooled signer nonce).tx.signer = signer from rfl, decide_eq_false hne]
    rfl
  have hseven : (7 : Address) ≠ SYSTEM_SENDER_ETH_ADDRESS := by decide
  have height : (8 : Address) ≠ SYSTEM_SENDER_ETH_ADDRESS := by decide
  unfold sampleTracked
  simp only [forall_mem_cons, not_mem_nil, false_implies, implies_true, and_true]
  exact ⟨⟨by decide, by decide, by simp [haccepts _ _ hseven]⟩,
    ⟨by decide, by decide, by simp [haccepts _ _ height]⟩⟩

/-- The policy after the first block. -/
def samplePolicy : EthBlockPolicy sampleEnv :=
  ([sampleFirst].foldlM updateCommittedBlock
    (EthBlockPolicy.new sampleEnv GENESIS_SEQ_NUM 2)).toOption.get (by decide +kernel)

/-- Before block 3 the nonces of the second block are pending. An authorization has used nonce 1
of the first account, so its next transfer is the second one in the pool. -/
theorem sequenceUserTransactions_coherent_transfers :
    ∃ proposal, sequenceUserTransactions id (some 1) (sampleEnv.getChainRevision 3) sampleTracked 3
        100000000000 ⟨5000, 200000000, 2000000⟩ [sampleSecond] samplePolicy
        (replayBackend [sampleFirst, sampleSecond]) = .ok proposal ∧
      (proposal.txs.map fun tx => (tx.signer, tx.nonce)) = [(7, 2), (8, 1)] ∧
      ∀ tx ∈ proposal.txs, 100000000000 ≤ tx.maxFeePerGas := by
  refine ⟨_, eq_ok_get (by decide +kernel), by decide +kernel, ?_⟩
  exact (@sequenceUserTransactions_coherent sampleEnv ⟨5000, 200000000, 2000000⟩ 2 (fun _ => 0)
    [sampleFirst] [sampleSecond] (by decide) sampleChain_coherent (by decide +kernel)
    (sampleHeader 3) rfl (by decide) samplePolicy (eq_ok_get _)
    (replayBackend [sampleFirst, sampleSecond])
    (returnsReplay_replayBackend sampleChain_coherent.validated rfl)
    ((replayBlocks (fun _ => 0) [sampleFirst]).toOption.get (by decide +kernel)) (eq_ok_get _)
    sampleTracked (by decide) sampleTracked_wellFormed (by decide +kernel) id (fun _ => .refl _)
    (some 1) (sampleEnv.getChainRevision 3) _ (eq_ok_get (by decide +kernel))).2.1

end Coherent

end MonadBft
