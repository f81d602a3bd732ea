import MonadBft.Eth.PoolParts

/-!
# The bookkeeping of the pool

Four things of the pool have to agree (`TrackedTxMap.Book`): the lists of the accounts, the
priorities by account, the priorities in order, and the counters of the limits. Every operation
keeps them so (`TrackedTxMap.run_consistent`).
-/

namespace MonadBft

open Assoc List TrackedTxList IndexMap TrackedTxLimits

variable {env : PoolEnv}

/-! ## The map -/

/-- The lists, the priorities and the counters agree. -/
structure TrackedTxMap.Book (env : PoolEnv) (timely : ℕ → Prop) (map : TrackedTxMap) : Prop where
  nodup : (map.txs.map Prod.fst).Nodup
  lists : ∀ e ∈ map.txs, e.2.Sound timely ∧ e.2.txs ≠ []
  indexes : map.priority.Indexes (map.txs.map Prod.fst)
  counts : map.limits.Counts env map.iterTxs

/-- No limit is exceeded. -/
def TrackedTxMap.Within (map : TrackedTxMap) : Prop :=
  map.limits.isExceedingLimits map.txs.length = false

/-- What removals from the map do. -/
structure TrackedTxMap.Shrinks (env : PoolEnv) (s s' : TrackedTxMap × EthTxPoolEventTracker) :
    Prop where
  limits : s'.1.limits.Below s.1.limits
  addresses : s'.1.txs.length ≤ s.1.txs.length
  changes : PoolChanges env (s.1.iterTxs, s.2.events) [] (s'.1.iterTxs, s'.2.events)
  now : s'.2.now = s.2.now

namespace TrackedTxMap

variable {timely : ℕ → Prop} {config : TrackedTxLimitsConfig} {map : TrackedTxMap}
  {tracker : EthTxPoolEventTracker} {s s' s'' : TrackedTxMap × EthTxPoolEventTracker}
  {r : Option TrackedTxList × TrackedTxLimits × EthTxPoolEventTracker}
  {entries : List (Address × TrackedTxList)}

theorem Shrinks.refl : Shrinks env s s := ⟨.refl, le_rfl, .refl, rfl⟩

theorem Shrinks.trans (h : Shrinks env s s') (h' : Shrinks env s' s'') : Shrinks env s s'' :=
  ⟨h'.limits.trans h.limits, h'.addresses.trans h.addresses, h.changes.trans h'.changes,
    h'.now.trans h.now⟩

theorem Shrinks.within (h : Shrinks env s s') (hw : s.1.Within) : s'.1.Within := by
  unfold Within isExceedingLimits at hw ⊢
  simp only [Bool.or_eq_false_iff, decide_eq_false_iff_not, not_lt] at hw ⊢
  rw [h.limits.config]
  exact ⟨⟨h.addresses.trans hw.1.1, h.limits.txs.trans hw.1.2⟩, h.limits.bytes.trans hw.2⟩

def txsOf (entries : List (Address × TrackedTxList)) : List PoolTx :=
  entries.flatMap fun e => e.2.poolTxs

theorem txsOf_perm {entries' : List (Address × TrackedTxList)} (h : entries.Perm entries') :
    (txsOf entries).Perm (txsOf entries') :=
  h.flatMap_right _

/-- The order of the entries does not matter. -/
theorem Book.perm {txs' : List (Address × TrackedTxList)} (h : map.Book env timely)
    (hperm : map.txs.Perm txs') : Book env timely { map with txs := txs' } :=
  ⟨(hperm.map _).nodup_iff.mp h.nodup, fun e he => h.lists e (hperm.mem_iff.mpr he),
    h.indexes.perm (hperm.map _), h.counts.perm (txsOf_perm hperm)⟩

section Entries

variable {address : Address} {txList txList' : TrackedTxList} {limits : TrackedTxLimits}
  {others txs' : List (Address × TrackedTxList)}

section

variable (hperm : map.txs.Perm ((address, txList) :: others)) {priority : PriorityMap}

include hperm

/-- An account and the others. -/
theorem Book.split (h : map.Book env timely) :
    (address :: others.map Prod.fst).Nodup ∧ (txList.Sound timely ∧ txList.txs ≠ []) ∧
      (∀ e ∈ others, e.2.Sound timely ∧ e.2.txs ≠ []) ∧
      map.priority.Indexes (address :: others.map Prod.fst) ∧
      map.limits.Counts env (txList.poolTxs ++ txsOf others) := by
  have h' := h.perm hperm
  exact ⟨h'.nodup, h'.lists _ mem_cons_self,
    fun e he => h'.lists e (mem_cons_of_mem _ he), h'.indexes, h'.counts⟩

omit hperm in
/-- An account that is put to the others. -/
theorem Book.of_split (hnodup : (address :: others.map Prod.fst).Nodup)
    (hlist : txList'.Sound timely ∧ txList'.txs ≠ [])
    (hothers : ∀ e ∈ others, e.2.Sound timely ∧ e.2.txs ≠ [])
    (hindexes : priority.Indexes (address :: others.map Prod.fst))
    (hcounts : limits.Counts env (txList'.poolTxs ++ txsOf others))
    (hperm : txs'.Perm ((address, txList') :: others)) :
    Book env timely ⟨txs', priority, limits⟩ := by
  have h : Book env timely ⟨(address, txList') :: others, priority, limits⟩ :=
    ⟨hnodup, forall_mem_cons.mpr ⟨hlist, hothers⟩, hindexes, hcounts⟩
  exact h.perm hperm.symm

/-- An account whose list has changed gets a new priority. -/
theorem Book.changed (h : map.Book env timely) (hperm' : txs'.Perm ((address, txList') :: others))
    (hlist : txList'.Sound timely ∧ txList'.txs ≠ [])
    (hcounts : limits.Counts env (txList'.poolTxs ++ txsOf others)) (now : ℕ) :
    ∃ priority, updatePriority ⟨txs', map.priority, limits⟩ now address = .ok priority ∧
      Book env timely ⟨txs', priority, limits⟩ := by
  obtain ⟨hnodup, -, hothers, hindexes, -⟩ := h.split hperm
  obtain ⟨priority, hupdate, hindexes'⟩ := PriorityMap.updatePriority_ok hindexes hnodup now txList'
  refine ⟨priority, ?_, .of_split hnodup hlist hothers hindexes' hcounts hperm'⟩
  have hget : get? txs' address = some txList' :=
    get?_of_mem ((hperm'.map _).nodup_iff.mpr hnodup) (hperm'.mem_iff.mpr (by simp))
  unfold updatePriority
  rw [hget]
  exact hupdate

theorem Book.removed (h : map.Book env timely) (hperm' : txs'.Perm others)
    (hcounts : limits.Counts env (txsOf others)) :
    ∃ priority, map.priority.remove address = .ok priority ∧
      Book env timely ⟨txs', priority, limits⟩ := by
  obtain ⟨hnodup, -, hothers, hindexes, -⟩ := h.split hperm
  obtain ⟨priority, hremove, hindexes'⟩ := PriorityMap.remove_ok hindexes hnodup
  refine ⟨priority, hremove, ?_⟩
  have h : Book env timely ⟨others, priority, limits⟩ :=
    ⟨(nodup_cons.mp hnodup).2, hothers, hindexes', hcounts⟩
  exact h.perm hperm'.symm

/-- What has happened to one list has happened to the pool. -/
theorem Shrinks.of_shortens
    (hshortens : txList.Shortens env timely map.limits tracker (txsOf others) r)
    (hperm' : txs'.Perm (r.1.toList.map (fun l => (address, l)) ++ others)) :
    Shrinks env (map, tracker) (⟨txs', priority, r.2.1⟩, r.2.2) := by
  refine ⟨hshortens.below, ?_, ?_, hshortens.now⟩
  · have hlen := hperm.length_eq
    have hlen' := hperm'.length_eq
    have hone : (r.1.toList.map fun l => (address, l)).length ≤ 1 := by
      cases r.1 <;> simp
    rw [length_cons] at hlen
    rw [length_append] at hlen'
    dsimp only
    omega
  · have hbefore : map.iterTxs.Perm (txList.poolTxs ++ txsOf others) := txsOf_perm hperm
    have hafter : (poolTxsOf r.1 ++ txsOf others).Perm (txsOf txs') := by
      refine List.Perm.trans ?_ (txsOf_perm hperm').symm
      cases r.1 <;> exact .refl _
    have hstart : PoolChanges env (map.iterTxs, tracker.events) []
        (txList.poolTxs ++ txsOf others, tracker.events) := .none hbefore
    exact (hstart.trans hshortens.changes).perm hafter

end

end Entries

section

variable (h : map.Book env timely) {address : Address}

include h

/-- The list of an account is put back. -/
theorem withList_ok {txList : TrackedTxList} (hget : get? map.txs address = some txList)
    (hshortens : txList.Shortens env timely map.limits tracker
      (txsOf (swapRemove map.txs address)) r)
    (now : ℕ) :
    ∃ map', map.withList address r.1 r.2.1 now = .ok map' ∧ map'.Book env timely ∧
      Shrinks env (map, tracker) (map', r.2.2) := by
  have hsplits := IndexMap.Splits.of_get? h.nodup hget
  obtain ⟨txList', limits, tracker'⟩ := r
  cases txList' with
  | none =>
    obtain ⟨priority, hremove, hbook⟩ := h.removed hsplits.perm (.refl _) hshortens.counts
    refine ⟨_, ?_, hbook, .of_shortens hsplits.perm hshortens (.refl _)⟩
    simp only [withList, hremove]
    rfl
  | some txList' =>
    obtain ⟨priority, hupdate, hbook⟩ := h.changed hsplits.perm hsplits.replace.perm
      (hshortens.sound _ rfl) hshortens.counts now
    refine ⟨_, ?_, hbook, .of_shortens hsplits.perm hshortens hsplits.replace.perm⟩
    simp only [withList, hupdate]
    rfl

omit h in
theorem updateCommittedNonceUsage_ok (h : s.1.Book env timely) (usage : Address × NonceUsage) :
    ∃ s', updateCommittedNonceUsage env s usage = .ok s' ∧ s'.1.Book env timely ∧
      Shrinks env s s' := by
  unfold updateCommittedNonceUsage
  cases hget : get? s.1.txs usage.1 with
  | none => exact ⟨s, rfl, h, .refl⟩
  | some txList =>
    have hsplits := IndexMap.Splits.of_get? h.nodup hget
    obtain ⟨-, ⟨hsound, hne⟩, -, -, hcounts⟩ := h.split hsplits.perm
    obtain ⟨r, hlist, hshortens⟩ :=
      TrackedTxList.updateCommittedNonceUsage_ok hsound hne hcounts usage.2
    obtain ⟨map', hmap, hbook, hshrinks⟩ := withList_ok h hget hshortens r.2.2.now
    refine ⟨(map', r.2.2), ?_, hbook, hshrinks⟩
    simp only [hlist]
    show (s.1.withList usage.1 r.1 r.2.1 r.2.2.now >>= _) = _
    rw [hmap]
    rfl

theorem updateCommittedNonceUsages_ok (tracker : EthTxPoolEventTracker)
    (nonceUsages : List (Address × NonceUsage)) :
    ∃ s', map.updateCommittedNonceUsages env tracker nonceUsages = .ok s' ∧
      s'.1.Book env timely ∧ Shrinks env (map, tracker) s' := by
  suffices ∀ s : TrackedTxMap × EthTxPoolEventTracker, s.1.Book env timely →
      ∃ s', nonceUsages.foldlM (updateCommittedNonceUsage env) s = .ok s' ∧
        s'.1.Book env timely ∧ Shrinks env s s' from this (map, tracker) h
  induction nonceUsages with
  | nil => exact fun s hs => ⟨s, rfl, hs, .refl⟩
  | cons usage nonceUsages ih =>
    intro s hs
    obtain ⟨s₁, hfirst, hbook₁, hshrinks₁⟩ := updateCommittedNonceUsage_ok hs usage
    obtain ⟨s₂, hrest, hbook₂, hshrinks₂⟩ := ih s₁ hbook₁
    refine ⟨s₂, ?_, hbook₂, hshrinks₁.trans hshrinks₂⟩
    rw [foldlM_cons, hfirst]
    exact hrest

/-- The loop looks at the entry at an index and goes on. -/
theorem evictExpiredFrom_safe {txExpiry : ℕ} (clock : Address → ℕ)
    (hexpiry : txExpiry ≤ max config.softTxExpiry config.hardTxExpiry) (n : ℕ) {idx : ℕ}
    (hn : map.txs.length - idx ≤ n) :
    Safe (Overflows env config timely) (evictExpiredFrom env txExpiry clock map tracker idx)
      fun s' => s'.1.Book env timely ∧ Shrinks env (map, tracker) s' := by
  induction n generalizing map tracker idx with
  | zero =>
    have hnone : map.txs[idx]? = none := List.getElem?_eq_none (by omega)
    rw [evictExpiredFrom]
    split
    · exact ⟨h, .refl⟩
    next hsome =>
      rw [hnone] at hsome
      cases hsome
  | succ n ih =>
    rw [evictExpiredFrom]
    split
    · exact ⟨h, .refl⟩
    next address txList hsome =>
      have hremoved := perm_swapRemoveIndex hsome
      obtain ⟨-, ⟨hsound, hne⟩, -, -, hcounts⟩ := h.split hremoved
      refine .bind (evictExpiredTxs_safe hsound hcounts hexpiry)
        fun r hshortens => ?_
      obtain ⟨txList', limits, tracker'⟩ := r
      cases txList' with
      | none =>
        obtain ⟨priority, hremove, hbook⟩ := h.removed hremoved (.refl _) hshortens.counts
        refine .bind_ok hremove ((ih hbook ?_).mono fun s' hs' => ⟨hs'.1, ?_⟩)
        · have hlen := hremoved.length_eq
          rw [length_cons] at hlen
          dsimp only
          omega
        · exact (Shrinks.of_shortens hremoved hshortens (.refl _)).trans hs'.2
      | some txList' =>
        have hset := perm_set hsome (address, txList')
        obtain ⟨priority, hupdate, hbook⟩ := h.changed hremoved hset
          (hshortens.sound _ rfl) hshortens.counts tracker'.now
        refine .bind_ok hupdate ((ih hbook ?_).mono fun s' hs' => ⟨hs'.1, ?_⟩)
        · dsimp only
          rw [length_set]
          omega
        · exact (Shrinks.of_shortens hremoved hshortens hset).trans hs'.2

theorem evictExpiredTxs_safe (hconfig : map.limits.config = config) (clock : Address → ℕ) :
    Safe (Overflows env config timely) (map.evictExpiredTxs env tracker clock) fun s' =>
      s'.1.Book env timely ∧ Shrinks env (map, tracker) s' := by
  refine evictExpiredFrom_safe h clock ?_ _ le_rfl
  rw [← hconfig]
  unfold expiryDurationDuringEvict
  split
  · exact le_max_right _ _
  · exact le_max_left _ _

omit h in
/-- The entries that are retained so far, with those that are left. -/
theorem staticValidateEntry_ok {entry : Address × TrackedTxList}
    {left : List (Address × TrackedTxList)} (chainId : ℕ) (chainParams : ChainParams)
    (executionParams : ExecutionChainParams)
    (h : Book env timely { s.1 with txs := s.1.txs ++ entry :: left }) :
    Safe False (staticValidateEntry env chainId chainParams executionParams s entry) fun s' =>
      Book env timely { s'.1 with txs := s'.1.txs ++ left } ∧
        Shrinks env ({ s.1 with txs := s.1.txs ++ entry :: left }, s.2)
          ({ s'.1 with txs := s'.1.txs ++ left }, s'.2) := by
  have hperm : (s.1.txs ++ entry :: left).Perm (entry :: (s.1.txs ++ left)) := perm_middle
  obtain ⟨hnodup, ⟨hsound, hne⟩, hothers, hindexes, hcounts⟩ := h.split hperm
  refine .bind (staticValidateAllTxs_ok hsound hcounts chainId chainParams
    executionParams) fun r hshortens => ?_
  obtain ⟨txList', limits, tracker'⟩ := r
  cases txList' with
  | none =>
    obtain ⟨priority, hremove, hbook⟩ := h.removed hperm (.refl _) hshortens.counts
    exact .bind_ok hremove ⟨hbook, .of_shortens hperm hshortens (.refl _)⟩
  | some txList' =>
    have hperm' : (s.1.txs ++ [(entry.1, txList')] ++ left).Perm
        ((entry.1, txList') :: (s.1.txs ++ left)) := by
      rw [append_assoc, singleton_append]
      exact perm_middle
    exact ⟨.of_split hnodup (hshortens.sound _ rfl) hothers hindexes hshortens.counts hperm',
      .of_shortens hperm hshortens hperm'⟩

/-- A priority is computed anew. -/
theorem updatePriorityOf_ok (now : ℕ) (hmem : address ∈ map.txs.map Prod.fst) :
    ∃ priority, updatePriorityOf now map address = .ok { map with priority } ∧
      Book env timely { map with priority } := by
  obtain ⟨txList, hget⟩ := exists_get?_of_mem_keys hmem
  have hperm := (IndexMap.Splits.of_get? h.nodup hget).perm
  obtain ⟨-, hlist, -, -, hcounts⟩ := h.split hperm
  obtain ⟨priority, hupdate, hbook⟩ := h.changed hperm hperm hlist hcounts now
  refine ⟨priority, ?_, hbook⟩
  unfold updatePriorityOf
  rw [hupdate]
  rfl

theorem updatePriorities_ok (now : ℕ) (addresses : List Address)
    (hmem : ∀ address ∈ addresses, address ∈ map.txs.map Prod.fst) :
    ∃ priority, addresses.foldlM (updatePriorityOf now) map = .ok { map with priority } ∧
      Book env timely { map with priority } := by
  induction addresses generalizing map with
  | nil => exact ⟨map.priority, rfl, h⟩
  | cons address addresses ih =>
    obtain ⟨priority, hupdate, hbook⟩ := updatePriorityOf_ok h now (hmem address (by simp))
    obtain ⟨priority', hrest, hbook'⟩ := ih hbook fun a ha => hmem a (mem_cons_of_mem _ ha)
    refine ⟨priority', ?_, hbook'⟩
    rw [foldlM_cons, hupdate]
    exact hrest

theorem staticValidateAllTxs_ok (chainId : ℕ) (chainParams : ChainParams)
    (executionParams : ExecutionChainParams) :
    Safe False (map.staticValidateAllTxs env tracker chainId chainParams executionParams)
      fun s' => s'.1.Book env timely ∧ Shrinks env (map, tracker) s' := by
  refine .bind (.foldlM (fun _ left s =>
    Book env timely { s.1 with txs := s.1.txs ++ left } ∧
      Shrinks env (map, tracker) ({ s.1 with txs := s.1.txs ++ left }, s.2))
    (fun done entry left s hs => ?_) map.txs ⟨h, .refl⟩) fun s hs => ?_
  · exact (staticValidateEntry_ok chainId chainParams executionParams hs.1).mono
      fun s' hs' => ⟨hs'.1, hs.2.trans hs'.2⟩
  · obtain ⟨map', tracker'⟩ := s
    rw [append_nil] at hs
    obtain ⟨priority, hupdate, hbook⟩ := updatePriorities_ok hs.1 tracker'.now
      (map'.txs.map Prod.fst) fun _ ha => ha
    exact .bind_ok hupdate ⟨hbook, { hs.2 with }⟩

/-- Accounts are there if the limits are exceeded. -/
theorem Book.ne_nil (hexceeding : map.limits.isExceedingLimits map.txs.length = true) :
    map.txs ≠ [] := by
  intro hnil
  have hcounts := h.counts
  have hiter : map.iterTxs = [] := by
    unfold iterTxs
    rw [hnil]
    rfl
  rw [hiter] at hcounts
  have htxs : map.limits.txs = 0 := hcounts.count
  have hbytes : map.limits.eip2718Bytes = 0 := hcounts.bytes
  simp [isExceedingLimits, hnil, htxs, hbytes] at hexceeding

theorem evictWhileExceeding_ok (tracker : EthTxPoolEventTracker) (n : ℕ) (hn : map.txs.length ≤ n) :
    ∃ s', evictWhileExceeding env map tracker = .ok s' ∧ s'.1.Book env timely ∧
      Shrinks env (map, tracker) s' ∧ s'.1.Within := by
  induction n generalizing map tracker with
  | zero =>
    have hnil : map.txs = [] := length_eq_zero_iff.mp (Nat.le_zero.mp hn)
    have hwithin : ¬ map.limits.isExceedingLimits map.txs.length = true :=
      fun hexceeding => h.ne_nil hexceeding hnil
    rw [evictWhileExceeding, if_neg hwithin]
    exact ⟨_, rfl, h, .refl, Bool.eq_false_iff.mpr hwithin⟩
  | succ n ih =>
    rw [evictWhileExceeding]
    split
    next hexceeding =>
      have hne : map.txs.map Prod.fst ≠ [] := by
        simpa using h.ne_nil hexceeding
      obtain ⟨evicted, priority, keys, hpop, hkeys, hindexes⟩ :=
        PriorityMap.popEvictionAddress_ok h.indexes h.nodup hne
      obtain ⟨txList, hget⟩ := exists_get?_of_mem_keys (hkeys.mem_iff.mpr mem_cons_self)
      have hperm := (IndexMap.Splits.of_get? h.nodup hget).perm
      obtain ⟨hnodup, -, hothers, -, hcounts⟩ := h.split hperm
      obtain ⟨limits, hremove, hcounts', hbelow⟩ := removeTxs_ok hcounts
      have hbook : Book env timely ⟨swapRemove map.txs evicted, priority, limits⟩ :=
        ⟨(nodup_cons.mp hnodup).2, hothers,
          hindexes.perm (hkeys.symm.trans (hperm.map Prod.fst)).cons_inv, hcounts'⟩
      have hlen := hperm.length_eq
      rw [length_cons] at hlen
      have hshrinks : Shrinks env (map, tracker)
          (⟨swapRemove map.txs evicted, priority, limits⟩,
            tracker.dropAll env (txList.poolTxs.map PoolTx.tx) .poolFull) := by
        refine ⟨hbelow, by dsimp only; omega, ?_, ?_⟩
        · rw [EthTxPoolEventTracker.dropAll_eq]
          have hstart : PoolChanges env (map.iterTxs, tracker.events) []
              (txList.poolTxs ++ txsOf (swapRemove map.txs evicted), tracker.events) :=
            .none (txsOf_perm hperm)
          exact hstart.trans (.removeAll _ (EthTxPoolEventType.drop .poolFull) rfl)
        · rw [EthTxPoolEventTracker.dropAll_eq]
      obtain ⟨s', hrest, hbook', hshrinks', hwithin⟩ := ih hbook _ (by dsimp only; omega)
      refine ⟨s', ?_, hbook', hshrinks.trans hshrinks', hwithin⟩
      split
      next heq => rw [hpop] at heq; cases heq
      next heq => rw [hpop] at heq; cases heq
      next heq =>
        rw [hpop] at heq
        cases heq
        simp only [hget, hremove]
        exact hrest
    next hwithin => exact ⟨_, rfl, h, .refl, Bool.eq_false_iff.mpr hwithin⟩

/-- The state after transactions of an account have come. -/
structure Inserts (env : PoolEnv) (offered : List TxHash)
    (s s' : TrackedTxMap × EthTxPoolEventTracker) : Prop where
  config : s'.1.limits.config = s.1.limits.config
  changes : PoolChanges env (s.1.iterTxs, s.2.events) offered (s'.1.iterTxs, s'.2.events)
  now : s'.2.now = s.2.now
  within : s.1.Within → s'.1.Within

/-- What follows once the list of the account is there: its priority, and evictions. -/
theorem finishInsert_safe {overflows : Prop} {acc : ListUpdate} {offered : List TxHash}
    (hconfig : acc.limits.config = map.limits.config) (hnow : acc.tracker.now = tracker.now)
    (hchanges : PoolChanges env (map.iterTxs, tracker.events) offered
      (txsOf entries, acc.tracker.events))
    (hidle : acc.inserted = false → map.txs.Perm entries ∧ acc.limits = map.limits)
    (hinserted : acc.inserted = true → ∃ priority,
      updatePriority ⟨entries, map.priority, acc.limits⟩ acc.tracker.now address = .ok priority ∧
        Book env timely ⟨entries, priority, acc.limits⟩) :
    Safe overflows
      (if ¬ acc.inserted then .ok (⟨entries, map.priority, acc.limits⟩, acc.tracker)
        else do
          let priority ← updatePriority ⟨entries, map.priority, acc.limits⟩ acc.tracker.now address
          evictWhileExceeding env ⟨entries, priority, acc.limits⟩ acc.tracker)
      fun s' => s'.1.Book env timely ∧ Inserts env offered (map, tracker) s' := by
  cases hi : acc.inserted with
  | false =>
    obtain ⟨hperm, hlimits⟩ := hidle hi
    rw [if_pos (by simp), hlimits]
    refine ⟨h.perm hperm, ⟨rfl, hchanges, hnow, fun hwithin => ?_⟩⟩
    unfold Within at hwithin ⊢
    rwa [← hperm.length_eq]
  | true =>
    obtain ⟨priority, hupdate, hbook⟩ := hinserted hi
    obtain ⟨s', hevict, hbook', hshrinks, hwithin⟩ :=
      evictWhileExceeding_ok hbook acc.tracker _ le_rfl
    refine .bind_ok hupdate (.of_ok hevict ⟨hbook', ?_⟩)
    refine ⟨hshrinks.limits.config.trans hconfig, ?_, hshrinks.now.trans hnow, fun _ => hwithin⟩
    have := hchanges.trans hshrinks.changes
    rwa [append_nil] at this

theorem tryInsertTxs_safe (hconfig : map.limits.config = config) (hnow : timely tracker.now)
    (address : Address) (txs : List PoolTx) (accountNonce : ℕ) :
    Safe (Overflows env config timely) (map.tryInsertTxs env tracker address txs accountNonce)
      fun s' => s'.1.Book env timely ∧
        Inserts env (txs.map (PoolTx.hash env)) (map, tracker) s' := by
  unfold tryInsertTxs
  cases hget : get? map.txs address with
  | some txList =>
    have hsplits := IndexMap.Splits.of_get? h.nodup hget
    obtain ⟨-, ⟨hsound, -⟩, -, -, hcounts⟩ := h.split hsplits.perm
    have hstart : PoolChanges env (map.iterTxs, tracker.events) []
        (txList.poolTxs ++ txsOf (swapRemove map.txs address), tracker.events) :=
      .none (txsOf_perm hsplits.perm)
    have hgood : ListUpdate.Good env timely (txsOf (swapRemove map.txs address))
        ⟨txList, map.limits, tracker, false⟩ := ⟨hsound, hcounts, nofun, hnow⟩
    refine .bind (tryInsertAll_safe hconfig hgood txs) fun acc hacc => ?_
    obtain ⟨hgood', hext⟩ := hacc
    have hperm : (replace map.txs address acc.list).Perm
        ((address, acc.list) :: swapRemove map.txs address) := hsplits.replace.perm
    refine finishInsert_safe h hext.config hext.now
      ((hstart.trans hext.changes).perm (txsOf_perm hperm).symm) (fun hidle => ?_) fun hinserted =>
        h.changed hsplits.perm hperm ⟨hgood'.sound, hgood'.kept hinserted⟩ hgood'.counts _
    obtain ⟨-, hlist, hlimits⟩ := hext.idle hidle
    rw [hlist] at hperm ⊢
    exact ⟨hsplits.perm.trans hperm.symm, hlimits⟩
  | none =>
    have hnew : address ∉ map.txs.map Prod.fst := by
      intro hmem
      obtain ⟨txList, hsome⟩ := exists_get?_of_mem_keys hmem
      rw [hget] at hsome
      cases hsome
    have hgood : ListUpdate.Good env timely (txsOf map.txs)
        ⟨⟨accountNonce, []⟩, map.limits, tracker, false⟩ :=
      ⟨⟨.nil, nofun, nofun, nofun⟩, h.counts, nofun, hnow⟩
    refine .bind (tryInsertAll_safe hconfig hgood txs) fun acc hacc => ?_
    obtain ⟨hgood', hext⟩ := hacc
    have hperm : (map.txs ++ [(address, acc.list)]).Perm ((address, acc.list) :: map.txs) :=
      perm_append_singleton _ _
    refine finishInsert_safe h hext.config hext.now (hext.changes.perm ?_) (fun hidle => ?_)
      fun hinserted => ?_
    · change (acc.list.poolTxs ++ txsOf map.txs).Perm
        (txsOf (if acc.list.txs = [] then map.txs else map.txs ++ [(address, acc.list)]))
      split
      next hnil =>
        unfold poolTxs
        rw [hnil]
        exact .refl _
      · exact (txsOf_perm hperm).symm
    · obtain ⟨-, hlist, hlimits⟩ := hext.idle hidle
      rw [hlist, if_pos rfl]
      exact ⟨.refl _, hlimits⟩
    · rw [if_neg (hgood'.kept hinserted)]
      obtain ⟨priority, hupdate, hindexes⟩ :=
        PriorityMap.updatePriority_new h.indexes hnew acc.tracker.now acc.list
      have hnodup : (address :: map.txs.map Prod.fst).Nodup := nodup_cons.mpr ⟨hnew, h.nodup⟩
      refine ⟨priority, ?_, .of_split hnodup ⟨hgood'.sound, hgood'.kept hinserted⟩ h.lists
        hindexes hgood'.counts hperm⟩
      have hget' : get? (map.txs ++ [(address, acc.list)]) address = some acc.list :=
        get?_of_mem ((hperm.map _).nodup_iff.mpr hnodup) (by simp)
      unfold updatePriority
      rw [hget']
      exact hupdate

end

end TrackedTxMap

/-! ## Runs -/

inductive TrackedOp where
  | tryInsertTxs (tracker : EthTxPoolEventTracker) (address : Address) (txs : List PoolTx)
      (accountNonce : ℕ)
  | updateCommittedNonceUsages (tracker : EthTxPoolEventTracker)
      (nonceUsages : List (Address × NonceUsage))
  | evictExpiredTxs (tracker : EthTxPoolEventTracker) (clock : Address → ℕ)
  | staticValidateAllTxs (tracker : EthTxPoolEventTracker) (chainId : ℕ)
      (chainParams : ChainParams) (executionParams : ExecutionChainParams)
  | reset

namespace TrackedOp

/-- The time of an insertion is one of these. -/
def InsertsAt (timely : ℕ → Prop) : TrackedOp → Prop
  | tryInsertTxs tracker _ _ _ => timely tracker.now
  | _ => True

end TrackedOp

namespace TrackedTxMap

variable {timely : ℕ → Prop} {config : TrackedTxLimitsConfig}

def apply (env : PoolEnv) (map : TrackedTxMap) : TrackedOp → Except PoolArm TrackedTxMap
  | .tryInsertTxs tracker address txs accountNonce =>
    (map.tryInsertTxs env tracker address txs accountNonce).map Prod.fst
  | .updateCommittedNonceUsages tracker nonceUsages =>
    (map.updateCommittedNonceUsages env tracker nonceUsages).map Prod.fst
  | .evictExpiredTxs tracker clock => (map.evictExpiredTxs env tracker clock).map Prod.fst
  | .staticValidateAllTxs tracker chainId chainParams executionParams =>
    (map.staticValidateAllTxs env tracker chainId chainParams executionParams).map Prod.fst
  | .reset => .ok map.reset

/-- Operations one after the other, from the empty pool. -/
def run (env : PoolEnv) (config : TrackedTxLimitsConfig) (ops : List TrackedOp) :
    Except PoolArm TrackedTxMap :=
  ops.foldlM (apply env) (new config)

structure Kept (env : PoolEnv) (timely : ℕ → Prop) (config : TrackedTxLimitsConfig)
    (map : TrackedTxMap) : Prop where
  book : map.Book env timely
  within : map.Within
  config : map.limits.config = config

theorem Kept.of_shrinks {s s' : TrackedTxMap × EthTxPoolEventTracker}
    (h : Kept env timely config s.1) (hbook : s'.1.Book env timely) (hshrinks : Shrinks env s s') :
    Kept env timely config s'.1 :=
  ⟨hbook, hshrinks.within h.within, hshrinks.limits.config.trans h.config⟩

theorem kept_empty : Kept env timely config ⟨[], .empty, ⟨config, 0, 0⟩⟩ := by
  refine ⟨⟨.nil, nofun, ⟨.nil, .nil⟩, ⟨rfl, rfl⟩⟩, ?_, rfl⟩
  simp [Within, isExceedingLimits]

theorem apply_safe {map : TrackedTxMap} (h : Kept env timely config map) (op : TrackedOp)
    (hop : op.InsertsAt timely) :
    Safe (Overflows env config timely) (map.apply env op) (Kept env timely config) := by
  cases op with
  | tryInsertTxs tracker address txs accountNonce =>
    refine .map_fst ((tryInsertTxs_safe h.book h.config hop address txs accountNonce).mono
      fun s' hs' => ?_)
    exact ⟨hs'.1, hs'.2.within h.within, hs'.2.config.trans h.config⟩
  | updateCommittedNonceUsages tracker nonceUsages =>
    obtain ⟨s', hs', hbook, hshrinks⟩ := updateCommittedNonceUsages_ok h.book tracker nonceUsages
    exact .map_fst (.of_ok hs' (h.of_shrinks hbook hshrinks))
  | evictExpiredTxs tracker clock =>
    exact .map_fst ((evictExpiredTxs_safe h.book h.config clock).mono
      fun s' hs' => h.of_shrinks hs'.1 hs'.2)
  | staticValidateAllTxs tracker chainId chainParams executionParams =>
    exact .map_fst (((staticValidateAllTxs_ok h.book chainId chainParams
      executionParams).imp False.elim).mono fun s' hs' => h.of_shrinks hs'.1 hs'.2)
  | reset =>
    obtain ⟨-, -, rfl⟩ := h
    exact kept_empty

theorem run_safe (ops : List TrackedOp) (hops : ∀ op ∈ ops, op.InsertsAt timely) :
    Safe (Overflows env config timely) (run env config ops) (Kept env timely config) := by
  refine Safe.foldlM (fun _ left map => Kept env timely config map ∧
    ∀ op ∈ left, op.InsertsAt timely) (fun done op left map h => ?_) ops ⟨kept_empty, hops⟩
    |>.mono fun map h => h.1
  obtain ⟨hop, hleft⟩ := forall_mem_cons.mp h.2
  exact (apply_safe h.1 op hop).mono fun map' h' => ⟨h', hleft⟩

/-- In every run from the empty pool the lists, the priorities and the counters agree and the
limits hold, and the clock is the only thing that stops it. It does not if the clock can hold the
times at which the inserted transactions expire. -/
theorem run_consistent (env : PoolEnv) (config : TrackedTxLimitsConfig) (ops : List TrackedOp) :
    (∀ map, run env config ops = .ok map → map.Book env (fun _ => True) ∧ map.Within) ∧
      (∀ arm, run env config ops = .error arm → arm = .timeOverflow) ∧
      ((∀ op ∈ ops, op.InsertsAt fun now =>
          now + max config.softTxExpiry config.hardTxExpiry ≤ env.maxInstant) →
        ∃ map, run env config ops = .ok map) := by
  have hrun : Safe (Overflows env config fun _ => True) (run env config ops)
      (Kept env (fun _ => True) config) :=
    run_safe ops fun op _ => by cases op <;> trivial
  refine ⟨fun map hok => ?_, fun arm herror => ?_, fun htimely => ?_⟩
  · rw [hok] at hrun
    exact ⟨hrun.book, hrun.within⟩
  · rw [herror] at hrun
    exact hrun.1
  · have hrun' := @run_safe env _ config ops htimely
    cases hr : run env config ops with
    | ok map => exact ⟨map, rfl⟩
    | error arm =>
      rw [hr] at hrun'
      obtain ⟨-, t, ht, hlt⟩ := hrun'
      omega

/-- The same transfer twice, then one of another account that is over the limit. -/
def sampleInsertions : List TrackedOp :=
  let tx (signer nonce : ℕ) : PoolTx :=
    ⟨⟨sampleTransfer signer nonce, signer⟩, .forwarded 0, 1, 0, 0, 0, []⟩
  [.tryInsertTxs ⟨5, []⟩ 7 [tx 7 0, tx 7 0, tx 7 1] 0, .tryInsertTxs ⟨6, []⟩ 8 [tx 8 3] 0,
    .evictExpiredTxs ⟨7, []⟩ fun _ => 8]

theorem run_consistent_sampleInsertions :
    ∃ map, run (samplePoolEnv 1000) (sampleLimits 300) sampleInsertions = .ok map :=
  (run_consistent (samplePoolEnv 1000) (sampleLimits 300) sampleInsertions).2.2 (by
    simp [sampleInsertions, TrackedOp.InsertsAt, sampleLimits, samplePoolEnv])

/-- An expiry without end, which the clock cannot hold: the second transfer stops the pool. -/
theorem run_overflows :
    run (samplePoolEnv 1000) (sampleLimits 1000) sampleInsertions = .error .timeOverflow :=
  rfl

end TrackedTxMap

end MonadBft
