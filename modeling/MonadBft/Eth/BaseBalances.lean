import MonadBft.Eth.CommittedBuffer

/-!
# Base balances are exact

The balance of an account before block `N` starts from the state of block `N - k`, `k` the
execution delay, and charges the blocks in between. A transaction is emptying if its account
is not delegated and is not mentioned by the `k - 1` blocks before (`emptyingAt`). The code
tests that with the number of the latest block that mentions the account. It starts to look at
block `N - 2k + 2`, and assumes that the block before mentions every account.

`LatestIn` is what the code's number tells about the whole history. It is enough for the test
at every block from `N - k + 1` to `N` (`LatestIn.emptying`), so the balances are those of
the complete history (`EthBlockPolicy.baseBalances_exact`).
-/

namespace MonadBft

open EthValidatedBlock List

variable {env : EthEnv}

/-! ## The exact balances -/

/-- A block mentions an account if its summary has an entry for it. -/
def EthValidatedBlock.mentions (block : EthValidatedBlock env) (address : Address) : Bool :=
  (block.txnFees address).isSome

/-- A block from `low` to before `high` mentions the account. -/
def mentionedIn (chain : List (EthValidatedBlock env)) (address : Address) (low high : ℕ) : Bool :=
  chain.any fun block => block.mentions address && decide (low ≤ block.getSeqNum) &&
    decide (block.getSeqNum < high)

/-- The latest block before `seqNum` that mentions the account, or the genesis block. -/
def latestBefore (chain : List (EthValidatedBlock env)) (address : Address) (seqNum : ℕ) : ℕ :=
  (chain.filter fun block => block.mentions address && decide (block.getSeqNum < seqNum)).foldl
    (fun latest block => max latest block.getSeqNum) GENESIS_SEQ_NUM

/-- A transaction in a block is emptying if its account is not delegated and none of the `k - 1`
blocks before mentions it. -/
def emptyingAt (chain : List (EthValidatedBlock env)) (k : ℕ) (address : Address) (seqNum : ℕ)
    (state : AccountBalanceState) : Bool :=
  !state.isDelegated && !mentionedIn chain address (seqNum + 1 - k) seqNum

/-- Charge an account for a block of the chain. -/
def applyExactly (chain : List (EthValidatedBlock env)) (k : ℕ) (address : Address)
    (state : AccountBalanceState) (block : EthValidatedBlock env) :
    Except BlockPolicyBlockValidatorError AccountBalanceState :=
  match block.txnFees address with
  | none => .ok state
  | some fee =>
    (block.header.validator k).applyBlockFees (emptyingAt chain k address block.getSeqNum state)
      state fee

/-- The balance of an account before block `seqNum`, from its state in the base block. -/
def exactBalance (chain : List (EthValidatedBlock env)) (k : ℕ) (base : EthValidatedBlock env)
    (status : Option EthAccount) (address : Address) :
    Except BlockPolicyBlockValidatorError AccountBalanceState :=
  (chain.filter fun block => decide (base.getSeqNum < block.getSeqNum)).foldlM
    (applyExactly chain k address)
    (EthBlockPolicy.baseState base.getSeqNum
      (env.getChainRevision base.header.blockRound).maxReserveBalance status)

/-! ## What the latest block tells -/

/-- From the block after `seed` to before `m`, `latest` is the last block that mentions the
account, or `seed` if there is none. -/
structure LatestIn (chain : List (EthValidatedBlock env)) (address : Address)
    (seed latest m : ℕ) : Prop where
  seed_le : seed ≤ latest
  lt : latest < m
  mentioned : latest = seed ∨
    ∃ block ∈ chain, block.getSeqNum = latest ∧ block.mentions address = true
  upper : ∀ block ∈ chain, block.mentions address = true → seed < block.getSeqNum →
    block.getSeqNum < m → block.getSeqNum ≤ latest

section Latest

variable {chain : List (EthValidatedBlock env)} {address : Address} {seed latest m k : ℕ}
  {block : EthValidatedBlock env}

theorem mentionedIn_eq_true {low high : ℕ} : mentionedIn chain address low high = true ↔
    ∃ block ∈ chain, block.mentions address = true ∧ low ≤ block.getSeqNum ∧
      block.getSeqNum < high := by
  simp [mentionedIn, and_assoc]

/-- The test sees what it needs to see. -/
theorem LatestIn.emptying (h : LatestIn chain address seed latest m) (hk : 1 ≤ k)
    (hseed : seed + k ≤ m) :
    decide (m - latest > k - 1) = !mentionedIn chain address (m + 1 - k) m := by
  have hlt := h.lt
  by_cases hmentioned : mentionedIn chain address (m + 1 - k) m = true
  · obtain ⟨block, hblock, hm, hlow, hhigh⟩ := mentionedIn_eq_true.mp hmentioned
    have := h.upper block hblock hm (by omega) hhigh
    rw [hmentioned, Bool.not_true, decide_eq_false_iff_not]
    omega
  · have hnot := Bool.not_eq_true _ ▸ hmentioned
    rw [hnot, Bool.not_false, decide_eq_true_eq]
    by_contra hgap
    rcases h.mentioned with rfl | ⟨block, hblock, rfl, hm⟩
    · omega
    · exact hmentioned (mentionedIn_eq_true.mpr ⟨block, hblock, hm, by omega, hlt⟩)

theorem LatestIn.mention (h : LatestIn chain address seed latest m) (hblock : block ∈ chain)
    (hm : block.getSeqNum = m) (hmentions : block.mentions address = true) :
    LatestIn chain address seed m (m + 1) where
  seed_le := by have := h.seed_le; have := h.lt; omega
  lt := by omega
  mentioned := .inr ⟨block, hblock, hm, hmentions⟩
  upper := fun _ _ _ _ hlt => by omega

theorem LatestIn.skip (h : LatestIn chain address seed latest m) {n : ℕ}
    (hnum : Numbered getSeqNum n chain) (hblock : block ∈ chain)
    (hm : block.getSeqNum = m) (hmentions : block.mentions address = false) :
    LatestIn chain address seed latest (m + 1) where
  seed_le := h.seed_le
  lt := by have := h.lt; omega
  mentioned := h.mentioned
  upper := by
    intro block' hblock' hm' hseed hlt
    by_cases heq : block'.getSeqNum = m
    · rw [hnum.eq_of_key_eq hblock' hblock (heq.trans hm.symm), hmentions] at hm'
      cases hm'
    · exact h.upper block' hblock' hm' hseed (by omega)

end Latest

/-! ## The code's loop and the exact one -/

/-- Everything but the latest transaction. -/
def AccountBalanceState.forget (state : AccountBalanceState) : AccountBalanceState :=
  { state with blockSeqnumOfLatestTxn := GENESIS_SEQ_NUM }

/-- The code has come to the exact balance and knows the latest transaction, or both refuse
for the same reason. -/
inductive Tracks (chain : List (EthValidatedBlock env)) (address : Address) (seed m : ℕ) :
    Except PolicyFailure AccountBalanceState →
    Except BlockPolicyBlockValidatorError AccountBalanceState → Prop
  | ok {state exact : AccountBalanceState} (hforget : state.forget = exact.forget)
      (hlatest : LatestIn chain address seed state.blockSeqnumOfLatestTxn m) :
      Tracks chain address seed m (.ok state) (.ok exact)
  | error (e : BlockPolicyBlockValidatorError) :
      Tracks chain address seed m (.error (.error (.blockPolicyBlockValidatorError e))) (.error e)

section Loops

variable {chain pre rest : List (EthValidatedBlock env)} {address : Address} {seed k r : ℕ}
  {state exact : AccountBalanceState} {block : EthValidatedBlock env} {emptying : Bool}
  {fee : TxnFee} {v : EthBlockPolicyBlockValidator}

/-- The latest transaction is overwritten when a block is charged. -/
theorem applyBlockFees_forget (h : state.forget = exact.forget) :
    v.applyBlockFees emptying state fee = v.applyBlockFees emptying exact fee := by
  obtain ⟨balance', reserve', maxReserve', latest', delegated'⟩ := exact
  obtain ⟨rfl, rfl, rfl, -, rfl⟩ := AccountBalanceState.mk.inj h
  rfl

theorem latest_of_applyBlockFees {state' : AccountBalanceState}
    (h : v.applyBlockFees emptying state fee = .ok state') :
    state'.blockSeqnumOfLatestTxn = v.blockSeqNum := by
  unfold EthBlockPolicyBlockValidator.applyBlockFees
    EthBlockPolicyBlockValidator.chargeReserve at h
  dsimp only at h
  split at h
  · split at h
    · cases h
    · split at h
      · cases h
      · rw [← Except.ok.inj h]
  · split at h
    · cases h
    · rw [← Except.ok.inj h]

/-- One block that is charged. -/
theorem tracks_applyBlock (hnum : Numbered getSeqNum 1 chain) (hk : 1 ≤ k)
    (hblock : block ∈ chain) (hr : r ≤ block.getSeqNum) (hseed : seed + k ≤ block.getSeqNum)
    (hforget : state.forget = exact.forget)
    (hlatest : LatestIn chain address seed state.blockSeqnumOfLatestTxn block.getSeqNum) :
    Tracks chain address seed (block.getSeqNum + 1) (applyBlock k r address state block)
      (applyExactly chain k address exact block) := by
  unfold applyBlock applyExactly
  cases hfee : block.txnFees address with
  | none =>
    exact .ok hforget
      (hlatest.skip hnum hblock rfl (by simp [mentions, hfee]))
  | some fee =>
    have hdelegated : state.isDelegated = exact.isDelegated :=
      (AccountBalanceState.mk.inj hforget).2.2.2.2
    have htest : isPossiblyEmptyingTransaction block.getSeqNum state k =
        emptyingAt chain k address block.getSeqNum exact := by
      unfold isPossiblyEmptyingTransaction emptyingAt
      rw [hlatest.emptying hk hseed, hdelegated]
    have hcharge : (block.header.validator k).tryApplyBlockFees state fee =
        (block.header.validator k).applyBlockFees
          (emptyingAt chain k address block.getSeqNum exact) exact fee := by
      rw [← applyBlockFees_forget hforget, ← htest]
      rfl
    dsimp only
    rw [if_neg (not_lt.mpr hr), hcharge]
    cases hresult : (block.header.validator k).applyBlockFees
        (emptyingAt chain k address block.getSeqNum exact) exact fee with
    | error e => exact .error e
    | ok state' =>
      refine .ok rfl ?_
      rw [latest_of_applyBlockFees hresult]
      exact hlatest.mention hblock rfl (by simp [mentions, hfee])

/-- The blocks that are charged. -/
theorem tracks_foldlM (hnum : Numbered getSeqNum 1 chain) (hk : 1 ≤ k)
    (hchain : chain = pre ++ rest) (hr : r ≤ 1 + pre.length) (hseed : seed + k ≤ 1 + pre.length)
    (hforget : state.forget = exact.forget)
    (hlatest : LatestIn chain address seed state.blockSeqnumOfLatestTxn (1 + pre.length)) :
    Tracks chain address seed (1 + chain.length) (rest.foldlM (applyBlock k r address) state)
      (rest.foldlM (applyExactly chain k address) exact) := by
  induction rest generalizing pre state exact with
  | nil =>
    rw [hchain, append_nil] at hlatest ⊢
    exact .ok hforget hlatest
  | cons block rest ih =>
    have hblock : block ∈ chain := by simp [hchain]
    have hseq : block.getSeqNum = 1 + pre.length := by
      rw [hchain] at hnum
      exact (Numbered.append_iff.mp hnum).2.1
    have hlen : 1 + (pre ++ [block]).length = block.getSeqNum + 1 := by
      rw [length_append, length_singleton, hseq, Nat.add_assoc]
    rw [← hseq] at hr hseed hlatest
    have hstep := tracks_applyBlock hnum hk hblock hr hseed hforget hlatest
    rw [foldlM_cons, foldlM_cons]
    generalize applyBlock k r address state block = code at hstep ⊢
    generalize applyExactly chain k address exact block = exact' at hstep ⊢
    cases hstep with
    | error e => exact .error e
    | ok hforget' hlatest' =>
      exact @ih (pre ++ [block]) _ _ (by rw [hchain]; simp) (by rw [hlen]; omega)
        (by rw [hlen]; omega) hforget' (by rw [hlen]; exact hlatest')

/-- Before the blocks that are charged, the loop finds the latest transaction. -/
theorem note_foldlM (hnum : Numbered getSeqNum 1 chain)
    {mid : List (EthValidatedBlock env)} (hchain : chain = pre ++ mid ++ rest)
    (hr : 1 + pre.length + mid.length ≤ r)
    (hlatest : LatestIn chain address seed state.blockSeqnumOfLatestTxn (1 + pre.length)) :
    ∃ state', mid.foldlM (applyBlock k r address) state = .ok state' ∧
      state'.forget = state.forget ∧
      LatestIn chain address seed state'.blockSeqnumOfLatestTxn (1 + pre.length + mid.length) := by
  induction mid generalizing pre state with
  | nil => exact ⟨state, rfl, rfl, hlatest⟩
  | cons block mid ih =>
    have hblock : block ∈ chain := by simp [hchain]
    have hseq : block.getSeqNum = 1 + pre.length := by
      rw [hchain, append_assoc] at hnum
      exact (Numbered.append_iff.mp hnum).2.1
    have hlen : 1 + (pre ++ [block]).length = block.getSeqNum + 1 := by
      rw [length_append, length_singleton, hseq, Nat.add_assoc]
    rw [length_cons] at hr
    rw [← hseq] at hlatest
    obtain ⟨state₁, happly, hforget, hlatest₁⟩ : ∃ state₁,
        applyBlock k r address state block = .ok state₁ ∧ state₁.forget = state.forget ∧
        LatestIn chain address seed state₁.blockSeqnumOfLatestTxn (block.getSeqNum + 1) := by
      unfold applyBlock
      cases hfee : block.txnFees address with
      | none =>
        exact ⟨state, rfl, rfl, hlatest.skip hnum hblock rfl (by simp [mentions, hfee])⟩
      | some fee =>
        refine ⟨_, if_pos (by omega), rfl, ?_⟩
        rw [max_eq_right hlatest.lt.le]
        exact hlatest.mention hblock rfl (by simp [mentions, hfee])
    obtain ⟨state', hrun, hforget', hlatest'⟩ := @ih (pre ++ [block]) state₁
      (by rw [hchain]; simp) (by rw [hlen]; omega) (by rw [hlen]; exact hlatest₁)
    refine ⟨state', foldlM_cons_eq_ok.mpr ⟨state₁, happly, hrun⟩, hforget'.trans hforget, ?_⟩
    rw [hlen, hseq] at hlatest'
    have : 1 + pre.length + 1 + mid.length = 1 + pre.length + (mid.length + 1) := by omega
    rwa [this] at hlatest'

end Loops

/-- The window of a policy is enough for the balances before the next block. -/
theorem Window.tracks {policy : EthBlockPolicy env} {c : ℕ}
    {kept extending chain : List (EthValidatedBlock env)} (h : Window policy c kept extending)
    (hk : 1 ≤ policy.executionDelay) (hnum : Numbered getSeqNum 1 chain)
    (hchain : kept ++ extending = chain.drop (c - 1)) {seqNum : ℕ}
    (hcommit : policy.lastCommit < seqNum) (hlen : chain.length + 1 = seqNum)
    (hlong : 2 * policy.executionDelay ≤ seqNum) (state : AccountBalanceState) (address : Address) :
    Tracks chain address (seqNum + 1 - 2 * policy.executionDelay) seqNum
      (policy.accountBaseBalance (policy.baseSeqNum seqNum) (some extending) state address)
      ((chain.filter fun block =>
        decide (seqNum - policy.executionDelay < block.getSeqNum)).foldlM
          (applyExactly chain policy.executionDelay address) state) := by
  have hone := h.one_le
  have hreaches := h.reaches
  have hbase : policy.baseSeqNum seqNum = seqNum - policy.executionDelay := by
    unfold EthBlockPolicy.baseSeqNum
    omega
  have hstart : policy.emptyingTxnCheckStart (seqNum - policy.executionDelay + 1) =
      seqNum + 2 - 2 * policy.executionDelay := by
    unfold EthBlockPolicy.emptyingTxnCheckStart GENESIS_SEQ_NUM
    dsimp only
    split <;> omega
  rw [h.accountBaseBalance hk hcommit, hbase, hstart, hchain]
  -- the blocks up to the base block are only noted, those after it are charged
  let e := seqNum + 2 - 2 * policy.executionDelay
  let r := seqNum - policy.executionDelay + 1
  let pre := chain.take (e - 1)
  let mid := (chain.drop (e - 1)).take (r - e)
  let rest := chain.drop (r - 1)
  have hpre : pre.length = e - 1 := length_take_of_le (by omega)
  have hmid : mid.length = r - e := length_take_of_le (by rw [length_drop]; omega)
  have hsplit : chain.drop (e - 1) = mid ++ rest := by
    have hr : r - 1 = e - 1 + (r - e) := by omega
    change _ = mid ++ chain.drop (r - 1)
    rw [hr, ← drop_drop, take_append_drop]
  have hwhole : chain = pre ++ mid ++ rest := by
    rw [append_assoc, ← hsplit, take_append_drop]
  have hwindow : ((chain.drop (c - 1)).filter fun block => decide (e ≤ block.getSeqNum)) =
      mid ++ rest := by
    have hdrop := hnum.drop (c - 1)
    rw [hdrop.filter_le, drop_drop, ← hsplit]
    congr 1
    omega
  have hcharged : (chain.filter fun block =>
      decide (seqNum - policy.executionDelay < block.getSeqNum)) = rest :=
    @Numbered.filter_le _ _ _ r chain hnum
  have hseed : LatestIn chain address (seqNum + 1 - 2 * policy.executionDelay) (e - 1)
      (1 + pre.length) := by
    refine ⟨by omega, by omega, .inl (by omega), fun block _ _ hlow hhigh => by omega⟩
  rw [hwindow, hcharged, foldlM_append]
  obtain ⟨state', hnote, hforget, hlatest⟩ := @note_foldlM _ chain pre rest address
    (seqNum + 1 - 2 * policy.executionDelay) policy.executionDelay r
    { state with blockSeqnumOfLatestTxn := e - 1 } hnum mid hwhole (by omega) hseed
  rw [hnote]
  have hboth : 1 + pre.length + mid.length = 1 + (pre ++ mid).length := by
    rw [length_append, Nat.add_assoc]
  rw [hboth] at hlatest
  have htracks := tracks_foldlM hnum hk hwhole (show r ≤ 1 + (pre ++ mid).length by omega)
    (by omega) (show state'.forget = state.forget from hforget) hlatest
  rwa [Nat.add_comm 1, hlen] at htracks

/-! ## The balances before a block -/

theorem foldl_max_getSeqNum (blocks : List (EthValidatedBlock env)) (n : ℕ) :
    let latest := blocks.foldl (fun latest block => max latest block.getSeqNum) n
    n ≤ latest ∧ (∀ block ∈ blocks, block.getSeqNum ≤ latest) ∧
      (latest = n ∨ ∃ block ∈ blocks, block.getSeqNum = latest) := by
  induction blocks generalizing n with
  | nil => simp
  | cons block blocks ih =>
    obtain ⟨hle, hall, hlatest⟩ := ih (max n block.getSeqNum)
    simp only [foldl_cons, forall_mem_cons, exists_mem_cons_iff]
    refine ⟨(le_max_left _ _).trans hle, ⟨(le_max_right _ _).trans hle, hall⟩, ?_⟩
    rcases hlatest with hlatest | hlatest
    · rcases max_choice n block.getSeqNum with hmax | hmax
      · exact .inl (hlatest.trans hmax)
      · exact .inr (.inl (hlatest.trans hmax).symm)
    · exact .inr (.inr hlatest)

theorem latestIn_latestBefore (chain : List (EthValidatedBlock env)) (address : Address) {m : ℕ}
    (hm : 1 ≤ m) : LatestIn chain address GENESIS_SEQ_NUM (latestBefore chain address m) m := by
  unfold latestBefore
  obtain ⟨hle, hall, hlatest⟩ := foldl_max_getSeqNum (chain.filter fun block =>
    block.mentions address && decide (block.getSeqNum < m)) GENESIS_SEQ_NUM
  simp only [mem_filter, Bool.and_eq_true, decide_eq_true_eq] at hall hlatest
  refine ⟨hle, ?_, ?_, fun block hblock hm _ hlt => hall block ⟨hblock, hm, hlt⟩⟩
  · rcases hlatest with hlatest | ⟨block, ⟨-, -, hlt⟩, hlatest⟩
    · exact hlatest.trans_lt hm
    · exact hlatest ▸ hlt
  · rcases hlatest with hlatest | ⟨block, ⟨hblock, hmentions, -⟩, hlatest⟩
    · exact .inl hlatest
    · exact .inr ⟨block, hblock, hlatest, hmentions⟩

/-- The latest block of the complete history answers the test. -/
theorem isPossiblyEmptyingTransaction_latestBefore {chain : List (EthValidatedBlock env)}
    {address : Address} {k m : ℕ} (hk : 1 ≤ k) (hm : k ≤ m) (state : AccountBalanceState) :
    isPossiblyEmptyingTransaction m
        { state with blockSeqnumOfLatestTxn := latestBefore chain address m } k =
      emptyingAt chain k address m state := by
  unfold isPossiblyEmptyingTransaction emptyingAt
  rw [(latestIn_latestBefore chain address (hk.trans hm)).emptying hk
    (by unfold GENESIS_SEQ_NUM; omega)]

namespace EthBlockPolicy

/-- Before block `N ≥ 2k` the balances are those of the complete history, for every split of the
chain into committed and extending blocks. The state the code gives for an account answers the
emptying test for block `N` as the complete history does, and the test that looks at the latest
transaction in the complete history is `emptyingAt`. -/
theorem baseBalances_exact {k : ℕ} (hk : 1 ≤ k) {committed extending : List (EthValidatedBlock env)}
    (hnum : Numbered EthValidatedBlock.getSeqNum 1 (committed ++ extending)) {seqNum : ℕ}
    (hlen : (committed ++ extending).length + 1 = seqNum) (hlong : 2 * k ≤ seqNum)
    (hfits : seqNum ≤ U64_MAX + 1) {base : EthValidatedBlock env}
    (hbase : base ∈ committed ++ extending) (hdelay : base.getSeqNum + k = seqNum)
    {backend : StateBackend env} {statuses : AddressMap EthAccount}
    (hbackend : ∀ isFinalized,
      backend.getAccountStatuses base.header.id base.getSeqNum isFinalized = .ok statuses)
    (addresses : List Address) :
    ∃ policy, committed.foldlM updateCommittedBlock (.new env GENESIS_SEQ_NUM k) = .ok policy ∧
      (match policy.computeAccountBaseBalances seqNum backend (some extending) addresses with
      | .ok balances => ∀ address ∈ addresses, ∃ exact state,
          exactBalance (committed ++ extending) k base (statuses address) address = .ok exact ∧
          balances address = some state ∧ state.forget = exact.forget ∧
          isPossiblyEmptyingTransaction seqNum state k =
            emptyingAt (committed ++ extending) k address seqNum exact
      | .error failure => ∃ address ∈ addresses, ∃ e,
          exactBalance (committed ++ extending) k base (statuses address) address = .error e ∧
          failure = .error (.blockPolicyBlockValidatorError e)) ∧
      ∀ address state m, base.getSeqNum < m → m ≤ seqNum →
        isPossiblyEmptyingTransaction m { state with
          blockSeqnumOfLatestTxn := latestBefore (committed ++ extending) address m } k =
        emptyingAt (committed ++ extending) k address m state := by
  obtain ⟨policy, hrun, hpolicy, hlast, d, hd, hwindow⟩ := commit_window hk hnum (by omega)
  rw [length_append] at hlen
  refine ⟨policy, hrun, ?_, fun address state m hm _ =>
    isPossiblyEmptyingTransaction_latestBefore hk (by omega) state⟩
  subst hpolicy
  have hsuffix : committed.drop d ++ extending = (committed ++ extending).drop (1 + d - 1) := by
    rw [Nat.add_sub_cancel_left, drop_append_of_le_length hd]
  have hseq : policy.baseSeqNum seqNum = base.getSeqNum := by
    unfold EthBlockPolicy.baseSeqNum
    omega
  have hreaches := hwindow.reaches
  -- the base block is in the window, so its state is what the backend gives
  have hindex : policy.getBlockIndex (some extending) base.getSeqNum =
      .ok (base.index (decide (base.getSeqNum ≤ policy.lastCommit))) := by
    obtain ⟨block, hblock, hkey, hindex⟩ := hwindow.getBlockIndex
      (show 1 + d ≤ base.getSeqNum by omega) (by rw [length_append, length_drop]; omega)
    rw [hsuffix] at hblock
    rw [hindex, hnum.eq_of_key_eq (mem_of_mem_drop hblock) hbase hkey]
  let code := fun address => policy.accountBaseBalance base.getSeqNum (some extending)
    (baseState base.getSeqNum (env.getChainRevision base.header.blockRound).maxReserveBalance
      (statuses address)) address
  have htracks : ∀ address, Tracks (committed ++ extending) address
      (seqNum + 1 - 2 * policy.executionDelay) seqNum (code address)
      (exactBalance (committed ++ extending) policy.executionDelay base (statuses address)
        address) := by
    intro address
    have := hwindow.tracks hk hnum hsuffix (by omega) (by rw [length_append]; omega) hlong
      (baseState base.getSeqNum (env.getChainRevision base.header.blockRound).maxReserveBalance
        (statuses address)) address
    have hgap : seqNum - policy.executionDelay = base.getSeqNum := by omega
    rwa [hseq, hgap] at this
  have hcompute : policy.computeAccountBaseBalances seqNum backend (some extending) addresses =
      (addresses.mapM fun address => code address >>= fun balance => pure (address, balance)) >>=
        fun balances => pure (Assoc.get? balances) := by
    unfold computeAccountBaseBalances getAccountStatuses
    dsimp only
    rw [hseq, hindex]
    dsimp only [Except.bind, bind, EthValidatedBlock.index]
    rw [hbackend]
    rfl
  rw [hcompute]
  cases hmap : addresses.mapM fun address =>
      code address >>= fun balance => pure (address, balance) with
  | error failure =>
    obtain ⟨address, haddress, hfailure⟩ := mapM_eq_error hmap
    have ht := htracks address
    generalize code address = balance at hfailure ht
    generalize hexact : exactBalance (committed ++ extending) policy.executionDelay base
      (statuses address) address = exact at ht
    cases ht with
    | ok => cases hfailure
    | error e => exact ⟨address, haddress, e, hexact, (Except.error.inj hfailure).symm⟩
  | ok pairs =>
    intro address haddress
    obtain ⟨state, hcode, hget⟩ := Assoc.get?_mapM hmap haddress
    have ht := htracks address
    rw [hcode] at ht
    generalize exactBalance (committed ++ extending) policy.executionDelay base
      (statuses address) address = exact at ht ⊢
    cases ht with
    | @ok _ exact hforget hlatest =>
      refine ⟨exact, state, rfl, hget, hforget, ?_⟩
      unfold isPossiblyEmptyingTransaction emptyingAt
      rw [hlatest.emptying hk (by omega), (AccountBalanceState.mk.inj hforget).2.2.2.2]

/-- A block in which one account pays for a transaction. -/
def samplePayment (seqNum : ℕ) : EthValidatedBlock sampleEnv :=
  { sampleBlock seqNum with
    txnFees := fun address =>
      if address = 7 then some ⟨10 ^ 18, 10 ^ 16, 0, false, false⟩ else none }

/-- With a delay of two blocks, two of three blocks committed and a payment in each, a payment in
the fourth is not emptying. -/
theorem baseBalances_exact_payments :
    ∃ policy, [samplePayment 1, samplePayment 2].foldlM updateCommittedBlock
        (.new sampleEnv GENESIS_SEQ_NUM 2) = .ok policy ∧
      ∃ balances state, policy.computeAccountBaseBalances 4
          ⟨fun _ _ _ => .ok fun _ => some ⟨2, 3 * 10 ^ 19, false⟩, fun _ _ _ => .ok (0 : ℕ)⟩
          (some [samplePayment 3]) [7] = .ok balances ∧
        balances 7 = some state ∧ isPossiblyEmptyingTransaction 4 state 2 = false := by
  obtain ⟨policy, hrun, hbalances, -⟩ := @baseBalances_exact sampleEnv 2 (by decide)
    [samplePayment 1, samplePayment 2] [samplePayment 3] (by decide) 4 rfl (by decide) (by decide)
    (samplePayment 2) (by simp) rfl
    ⟨fun _ _ _ => .ok fun _ => some ⟨2, 3 * 10 ^ 19, false⟩, fun _ _ _ => .ok (0 : ℕ)⟩
    (fun _ => some ⟨2, 3 * 10 ^ 19, false⟩) (fun _ => rfl) [7]
  refine ⟨policy, hrun, ?_⟩
  split at hbalances
  next balances hcompute =>
    obtain ⟨exact, state, -, hstate, -, htest⟩ := hbalances 7 mem_cons_self
    have hmentioned : mentionedIn ([samplePayment 1, samplePayment 2] ++ [samplePayment 3]) 7 3 4 =
        true := by decide
    refine ⟨balances, state, hcompute, hstate, htest.trans ?_⟩
    unfold emptyingAt
    rw [hmentioned, Bool.not_true, Bool.and_false]
  · obtain ⟨address, haddress, e, hexact, -⟩ := hbalances
    rw [mem_singleton.mp haddress] at hexact
    have hok : (exactBalance ([samplePayment 1, samplePayment 2] ++ [samplePayment 3]) 2
        (samplePayment 2) (some ⟨2, 3 * 10 ^ 19, false⟩) 7).toOption.isSome = true := by
      decide +kernel
    rw [hexact] at hok
    cases hok

end EthBlockPolicy

end MonadBft
