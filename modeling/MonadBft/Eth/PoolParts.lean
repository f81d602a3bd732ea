import Mathlib.Algebra.BigOperators.Group.List.Basic
import MonadBft.Eth.TrackedMap
import MonadBft.Replay

/-!
# The parts of the pool

What the operations on the counters, the priorities and the list of one account do. None comes
to an arm that the code takes to be out of reach, but for one. The time at which a transaction
expires is computed when another one comes for its nonce and when the pool looks for expired
ones, and the code stops where that time cannot be represented. `Safe` is the form of what is
proved about an operation: it ends with what is wanted, or in that arm. Which times of insertion
occur is a parameter (`timely`), so that one proof serves runs with and without a bound on them.

Transactions come and go in steps that the events report (`PoolChanges`).
-/

namespace MonadBft

open Assoc List

/-! ## Operations that end or overflow the clock -/

/-- Some time of insertion is too late for an expiry. -/
def Overflows (env : PoolEnv) (config : TrackedTxLimitsConfig) (timely : ℕ → Prop) : Prop :=
  ∃ t, timely t ∧ env.maxInstant < t + max config.softTxExpiry config.hardTxExpiry

/-- The operation ends with what is wanted, or the clock overflows. -/
def Safe (overflows : Prop) {β : Type} (r : Except PoolArm β) (post : β → Prop) : Prop :=
  match r with
  | .ok x => post x
  | .error arm => arm = .timeOverflow ∧ overflows

section Safe

variable {overflows : Prop} {β γ : Type} {r : Except PoolArm β} {post : β → Prop} {x : β}
  {f : β → Except PoolArm γ} {post' : γ → Prop}

theorem Safe.of_ok (hr : r = .ok x) (h : post x) : Safe overflows r post := by
  rw [hr]
  exact h

theorem Safe.mono {post' : β → Prop} (h : Safe overflows r post) (himp : ∀ x, post x → post' x) :
    Safe overflows r post' := by
  cases r with
  | error arm => exact h
  | ok x => exact himp x h

theorem Safe.imp {overflows' : Prop} (h : Safe overflows r post)
    (himp : overflows → overflows') : Safe overflows' r post := by
  cases r with
  | error arm => exact ⟨h.1, himp h.2⟩
  | ok x => exact h

theorem Safe.ok (h : Safe overflows r post) (hr : r = .ok x) : post x := by
  rw [hr] at h
  exact h

theorem Safe.bind (h : Safe overflows r post) (hf : ∀ x, post x → Safe overflows (f x) post') :
    Safe overflows (r >>= f) post' := by
  cases r with
  | error arm => exact h
  | ok x => exact hf x h

theorem Safe.bind_ok (hr : r = .ok x) (h : Safe overflows (f x) post') :
    Safe overflows (r >>= f) post' := by
  rw [hr]
  exact h

theorem Safe.map_fst {r : Except PoolArm (β × γ)} (h : Safe overflows r fun x => post x.1) :
    Safe overflows (r.map Prod.fst) post := by
  cases r with
  | error arm => exact h
  | ok x => exact h

/-- A loop over a list. The invariant speaks of what is done and what is left. -/
theorem Safe.foldlM {f : γ → β → Except PoolArm γ} (inv : List β → List β → γ → Prop)
    (hstep : ∀ done b left c, inv done (b :: left) c →
      Safe overflows (f c b) (inv (done ++ [b]) left)) (l : List β) {c : γ} (h : inv [] l c) :
    Safe overflows (l.foldlM f c) (inv l []) := by
  suffices ∀ done, inv done l c → Safe overflows (l.foldlM f c) (inv (done ++ l) []) from this [] h
  clear h
  intro done h
  induction l generalizing done c with
  | nil =>
    rw [append_nil]
    exact h
  | cons b l ih =>
    refine Safe.bind (hstep done b l c h) fun c' hc' => ?_
    have := ih _ hc'
    rwa [append_assoc, singleton_append] at this

end Safe

/-- Events that tell of a transaction in the pool. -/
def EthTxPoolEventType.isInsert : EthTxPoolEventType → Bool
  | .insert _ _ _ => true
  | _ => false

/-- Changes to the transactions of the pool that are reported by events. -/
abbrev PoolChanges (env : PoolEnv) :
    List PoolTx × List (TxHash × EthTxPoolEventType) → List TxHash →
      List PoolTx × List (TxHash × EthTxPoolEventType) → Prop :=
  Replay.Changes (PoolTx.hash env) EthTxPoolEventType.isInsert

variable {env : PoolEnv}

/-! ## Events -/

namespace EthTxPoolEventTracker

variable {tracker : EthTxPoolEventTracker}

theorem emitAll (f : PoolTx → EthTxPoolEventType) (txs : List PoolTx) :
    (txs.foldl (fun tracker tx => tracker.emit (tx.hash env) (f tx)) tracker) =
      ⟨tracker.now,
        txs.foldl (fun events tx => Assoc.set events (tx.hash env) (f tx)) tracker.events⟩ := by
  induction txs generalizing tracker with
  | nil => rfl
  | cons tx txs ih => exact ih

theorem trackedCommit_eq (txs : List PoolTx) :
    tracker.trackedCommit (txs.map (PoolTx.hash env)) =
      ⟨tracker.now,
        txs.foldl (fun events tx => Assoc.set events (tx.hash env) .commit) tracker.events⟩ := by
  unfold trackedCommit
  rw [foldl_map]
  exact emitAll (fun _ => .commit) txs

theorem trackedEvictExpired_eq (txs : List PoolTx) :
    tracker.trackedEvictExpired (txs.map (PoolTx.hash env)) =
      ⟨tracker.now, txs.foldl
        (fun events tx => Assoc.set events (tx.hash env) (.evict .expired)) tracker.events⟩ := by
  unfold trackedEvictExpired
  rw [foldl_map]
  exact emitAll (fun _ => .evict .expired) txs

theorem dropAll_eq (txs : List PoolTx) (reason : EthTxPoolDropReason) :
    tracker.dropAll env (txs.map PoolTx.tx) reason =
      ⟨tracker.now, txs.foldl
        (fun events tx => Assoc.set events (tx.hash env) (.drop reason)) tracker.events⟩ := by
  unfold dropAll
  rw [foldl_map]
  exact emitAll (fun _ => .drop reason) txs

end EthTxPoolEventTracker

/-! ## Counters -/

/-- The counters are those of the transactions. -/
structure TrackedTxLimits.Counts (env : PoolEnv) (limits : TrackedTxLimits) (txs : List PoolTx) :
    Prop where
  count : limits.txs = txs.length
  bytes : limits.eip2718Bytes = (txs.map (PoolTx.eip2718EncodedLength env)).sum

namespace TrackedTxLimits

variable {limits : TrackedTxLimits} {txs txs' : List PoolTx} {tx : PoolTx}

theorem Counts.perm (h : limits.Counts env txs) (hperm : txs.Perm txs') : limits.Counts env txs' :=
  ⟨h.count.trans hperm.length_eq, h.bytes.trans (hperm.map _).sum_nat⟩

theorem Counts.addTx (h : limits.Counts env txs) : (limits.addTx env tx).Counts env (tx :: txs) := by
  refine ⟨?_, ?_⟩
  · simp [TrackedTxLimits.addTx, h.count]
  · simp [TrackedTxLimits.addTx, h.bytes, Nat.add_comm]

/-- The limits after something has been taken away. -/
structure Below (limits' limits : TrackedTxLimits) : Prop where
  config : limits'.config = limits.config
  txs : limits'.txs ≤ limits.txs
  bytes : limits'.eip2718Bytes ≤ limits.eip2718Bytes

theorem Below.refl : Below limits limits := ⟨rfl, le_rfl, le_rfl⟩

theorem Below.trans {limits' limits'' : TrackedTxLimits} (h : Below limits'' limits')
    (h' : Below limits' limits) : Below limits'' limits :=
  ⟨h.config.trans h'.config, h.txs.trans h'.txs, h.bytes.trans h'.bytes⟩

theorem removeTx_ok (h : limits.Counts env (tx :: txs)) :
    ∃ limits', limits.removeTx env tx = .ok limits' ∧ limits'.Counts env txs ∧
      Below limits' limits := by
  have htxs : limits.txs = txs.length + 1 := h.count
  have hbytes := h.bytes
  rw [map_cons, sum_cons] at hbytes
  unfold removeTx
  rw [if_neg (by omega), if_neg (by omega)]
  refine ⟨_, rfl, ⟨?_, ?_⟩, rfl, Nat.sub_le _ _, Nat.sub_le _ _⟩
  · simp [htxs]
  · simp [hbytes]

theorem removeTxs_ok (h : limits.Counts env (txs ++ txs')) :
    ∃ limits', limits.removeTxs env txs = .ok limits' ∧ limits'.Counts env txs' ∧
      Below limits' limits := by
  induction txs generalizing limits with
  | nil => exact ⟨limits, rfl, h, .refl⟩
  | cons tx txs ih =>
    obtain ⟨limits₁, hremove, hcounts, hbelow⟩ := removeTx_ok h
    obtain ⟨limits₂, hrest, hcounts₂, hbelow₂⟩ := ih hcounts
    refine ⟨limits₂, ?_, hcounts₂, hbelow₂.trans hbelow⟩
    unfold removeTxs at hrest ⊢
    rw [foldlM_cons, hremove]
    exact hrest

end TrackedTxLimits

/-! ## Priorities -/

/-- The two indices have the accounts `keys`, each once, with one priority. -/
structure PriorityMap.Indexes (map : PriorityMap) (keys : List Address) : Prop where
  byAddress : (map.byAddress.map Prod.fst).Perm keys
  sorted : map.sorted.Perm (map.byAddress.map fun e => (e.2.1, e.2.2, e.1))

namespace PriorityMap

variable {map : PriorityMap} {keys keys' : List Address} {address : Address}

theorem Indexes.perm (h : map.Indexes keys) (hperm : keys.Perm keys') : map.Indexes keys' :=
  ⟨h.byAddress.trans hperm, h.sorted⟩

/-- An account that is indexed, with its priority, and the others. -/
theorem Indexes.split (h : map.Indexes (address :: keys)) (hnodup : (address :: keys).Nodup) :
    ∃ priority time, get? map.byAddress address = some (priority, time) ∧
      (priority, time, address) ∈ map.sorted ∧
      PriorityMap.Indexes ⟨Assoc.remove map.byAddress address,
        map.sorted.erase (priority, time, address)⟩ keys := by
  have hkeys : (map.byAddress.map Prod.fst).Nodup := h.byAddress.nodup_iff.mpr hnodup
  have hmem : address ∈ map.byAddress.map Prod.fst := h.byAddress.mem_iff.mpr (by simp)
  obtain ⟨⟨priority, time⟩, hget⟩ := exists_get?_of_mem_keys hmem
  have hsplit := perm_cons_remove hkeys hget
  have hsorted := h.sorted.trans (hsplit.map _)
  refine ⟨priority, time, hget, hsorted.mem_iff.mpr (by simp), ?_, ?_⟩
  · exact ((hsplit.map Prod.fst).symm.trans h.byAddress).cons_inv
  · have := hsorted.erase (priority, time, address)
    rwa [map_cons, erase_cons_head] at this

theorem Indexes.insert (entry : Priority × ℕ) (h : map.Indexes keys) (hnew : address ∉ keys) :
    PriorityMap.Indexes ⟨(address, entry) :: map.byAddress,
      map.insertSorted (entry.1, entry.2, address)⟩ (address :: keys) := by
  have hnot : (entry.1, entry.2, address) ∉ map.sorted := by
    intro hmem
    obtain ⟨e, he, heq⟩ := mem_map.mp (h.sorted.mem_iff.mp hmem)
    have haddr : e.1 = address := congrArg (fun x => x.2.2) heq
    exact hnew (h.byAddress.mem_iff.mp (haddr ▸ mem_map_of_mem he))
  refine ⟨h.byAddress.cons address, ?_⟩
  unfold insertSorted
  rw [if_neg hnot]
  exact h.sorted.cons _

theorem remove_ok (h : map.Indexes (address :: keys)) (hnodup : (address :: keys).Nodup) :
    ∃ map', map.remove address = .ok map' ∧ map'.Indexes keys := by
  obtain ⟨priority, time, hget, hmem, hindexes⟩ := h.split hnodup
  refine ⟨_, ?_, hindexes⟩
  unfold remove
  rw [hget]
  exact if_neg (not_not.mpr hmem)

/-- The priority of an account that has one. -/
theorem updatePriority_ok (h : map.Indexes (address :: keys)) (hnodup : (address :: keys).Nodup)
    (now : ℕ) (txList : TrackedTxList) :
    ∃ map', map.updatePriority now address txList = .ok map' ∧ map'.Indexes (address :: keys) := by
  obtain ⟨priority, time, hget, hmem, hindexes⟩ := h.split hnodup
  refine ⟨_, ?_, hindexes.insert (txList.computePriority, time) (nodup_cons.mp hnodup).1⟩
  unfold updatePriority
  rw [hget]
  exact if_neg (not_not.mpr hmem)

/-- The priority of a new account. -/
theorem updatePriority_new (h : map.Indexes keys) (hnew : address ∉ keys) (now : ℕ)
    (txList : TrackedTxList) :
    ∃ map', map.updatePriority now address txList = .ok map' ∧ map'.Indexes (address :: keys) := by
  have hnone : get? map.byAddress address = none := by
    refine get?_eq_none fun e he heq => hnew (h.byAddress.mem_iff.mp ?_)
    rw [← heq]
    exact mem_map_of_mem he
  have hset : Assoc.set map.byAddress address (txList.computePriority, now) =
      (address, txList.computePriority, now) :: map.byAddress :=
    congrArg _ (remove_eq_self hnone)
  refine ⟨_, ?_, h.insert (txList.computePriority, now) hnew⟩
  unfold updatePriority
  rw [hnone, ← hset]

/-- An account is found for eviction unless there is none. -/
theorem popEvictionAddress_ok (h : map.Indexes keys) (hnodup : keys.Nodup) (hne : keys ≠ []) :
    ∃ evicted map' keys', map.popEvictionAddress = .ok (some (evicted, map')) ∧
      keys.Perm (evicted :: keys') ∧ map'.Indexes keys' := by
  have hsorted : map.sorted ≠ [] := by
    intro hnil
    have hlen := h.sorted.length_eq
    have hlen' := h.byAddress.length_eq
    rw [hnil, length_map] at hlen
    rw [length_map, ← hlen] at hlen'
    exact hne (length_eq_zero_iff.mp hlen'.symm)
  cases hpop : popMax sortedLt map.sorted with
  | none => exact absurd (eq_nil_of_popMax hpop) hsorted
  | some popped =>
    obtain ⟨⟨priority, time, evicted⟩, sorted⟩ := popped
    have hperm := popMax_perm hpop
    have hmem : (priority, time, evicted) ∈ map.byAddress.map fun e => (e.2.1, e.2.2, e.1) :=
      h.sorted.mem_iff.mp (hperm.mem_iff.mpr (by simp))
    obtain ⟨e, he, heq⟩ := mem_map.mp hmem
    obtain rfl : e = (evicted, priority, time) := by
      cases heq
      rfl
    have hkeys : (map.byAddress.map Prod.fst).Nodup := h.byAddress.nodup_iff.mpr hnodup
    have hget := get?_of_mem hkeys he
    have hsplit := perm_cons_remove hkeys hget
    have hbyAddress := (hsplit.map Prod.fst).symm.trans h.byAddress
    refine ⟨evicted, ⟨Assoc.remove map.byAddress evicted, sorted⟩,
      (Assoc.remove map.byAddress evicted).map Prod.fst, ?_, hbyAddress.symm, .refl _, ?_⟩
    · unfold popEvictionAddress
      rw [hpop]
      dsimp only
      rw [hget]
    · exact (hperm.symm.trans (h.sorted.trans (hsplit.map _))).cons_inv

end PriorityMap

/-! ## Lists -/

/-- A list is by nonce, from the nonce of its account on. -/
structure TrackedTxList.Sound (timely : ℕ → Prop) (list : TrackedTxList) : Prop where
  sorted : list.txs.Pairwise fun e e' => e.1 < e'.1
  keyed : ∀ e ∈ list.txs, e.1 = e.2.1.tx.nonce
  nonces : ∀ e ∈ list.txs, list.accountNonce ≤ e.1
  times : ∀ e ∈ list.txs, timely e.2.2

section Lists

variable {timely : ℕ → Prop} {config : TrackedTxLimitsConfig}

theorem txExpired_safe {txInsert expiry : ℕ} (now : ℕ) (ht : timely txInsert)
    (hexpiry : expiry ≤ max config.softTxExpiry config.hardTxExpiry) :
    Safe (Overflows env config timely) (txExpired env txInsert expiry now) fun _ => True := by
  unfold txExpired
  split
  next hlt => exact ⟨rfl, txInsert, ht, by omega⟩
  · trivial

/-- A list on the way through insertions, next to the transactions of other accounts. -/
structure ListUpdate.Good (env : PoolEnv) (timely : ℕ → Prop) (others : List PoolTx)
    (acc : ListUpdate) : Prop where
  sound : acc.list.Sound timely
  counts : acc.limits.Counts env (acc.list.poolTxs ++ others)
  kept : acc.inserted = true → acc.list.txs ≠ []
  now : timely acc.tracker.now

/-- What insertions do. -/
structure ListUpdate.Extends (env : PoolEnv) (others : List PoolTx) (offered : List TxHash)
    (acc acc' : ListUpdate) : Prop where
  changes : PoolChanges env (acc.list.poolTxs ++ others, acc.tracker.events) offered
    (acc'.list.poolTxs ++ others, acc'.tracker.events)
  now : acc'.tracker.now = acc.tracker.now
  config : acc'.limits.config = acc.limits.config
  idle : acc'.inserted = false →
    acc.inserted = false ∧ acc'.list = acc.list ∧ acc'.limits = acc.limits

namespace TrackedTxList

variable {list : TrackedTxList} {limits : TrackedTxLimits} {tracker : EthTxPoolEventTracker}
  {acc : ListUpdate} {others : List PoolTx} {txs : List (ℕ × PoolTx × ℕ)} {now txExpiry : ℕ}

theorem Sound.nodup (h : list.Sound timely) : (list.txs.map Prod.fst).Nodup :=
  pairwise_map.mpr (h.sorted.imp fun hlt => hlt.ne)

theorem Sound.sublist {accountNonce : ℕ} (h : list.Sound timely) (hsub : txs.Sublist list.txs)
    (hnonces : ∀ e ∈ txs, accountNonce ≤ e.1) : Sound timely ⟨accountNonce, txs⟩ :=
  ⟨h.sorted.sublist hsub, fun e he => h.keyed e (hsub.subset he), hnonces,
    fun e he => h.times e (hsub.subset he)⟩

theorem Sound.insert {tx : PoolTx} (h : list.Sound timely)
    (hnonce : list.accountNonce ≤ tx.tx.nonce) (hnow : timely now) :
    Sound timely { list with txs := Assoc.insert list.txs tx.tx.nonce (tx, now) } := by
  refine ⟨pairwise_insert h.sorted, fun e he => ?_, fun e he => ?_, fun e he => ?_⟩
  all_goals rcases mem_insert.mp he with rfl | ⟨he, -⟩
  · rfl
  · exact h.keyed e he
  · exact hnonce
  · exact h.nonces e he
  · exact hnow
  · exact h.times e he

theorem insert_ne_nil {nonce : ℕ} {entry : PoolTx × ℕ} :
    Assoc.insert txs nonce entry ≠ [] := fun h => by
  have := (perm_insert (l := txs) (k := nonce) (v := entry)).length_eq
  rw [h] at this
  cases this

theorem tryInsertTx_safe (hconfig : acc.limits.config = config)
    (h : acc.Good env timely others) (tx : PoolTx) :
    Safe (Overflows env config timely) (tryInsertTx env acc tx) fun acc' =>
      acc'.Good env timely others ∧ acc.Extends env others [tx.hash env] acc' := by
  have hrefuse : ∀ reason, Safe (Overflows env config timely)
      (.ok { acc with tracker := acc.tracker.drop (tx.hash env) reason }) fun acc' =>
        acc'.Good env timely others ∧ acc.Extends env others [tx.hash env] acc' := fun reason =>
    ⟨{ h with }, Replay.Changes.refl.refuse _ (EthTxPoolEventType.drop reason) rfl, rfl, rfl,
      fun hidle => ⟨hidle, rfl, rfl⟩⟩
  unfold tryInsertTx
  split
  · exact hrefuse _
  next hnonce =>
    have hsound := h.sound.insert (not_lt.mp hnonce) h.now
    have hperm := perm_insert (l := acc.list.txs) (k := tx.tx.nonce)
      (v := (tx, acc.tracker.now))
    split
    next hget =>
      rw [remove_eq_self hget] at hperm
      have hpool := (hperm.map fun e => e.2.1).append_right others
      exact ⟨⟨hsound, h.counts.addTx.perm hpool.symm, fun _ => insert_ne_nil, h.now⟩,
        Replay.Changes.refl.add tx _ rfl hpool, rfl, rfl, fun hidle => nomatch hidle⟩
    next existingTx existingTxInsertTime hget =>
      have hmem := mem_of_get? hget
      have hexpiry : acc.limits.expiryDurationDuringInsert ≤
          max config.softTxExpiry config.hardTxExpiry := by
        rw [← hconfig]
        exact le_max_right _ _
      refine Safe.bind (txExpired_safe _ (h.sound.times _ hmem) hexpiry) fun expired _ => ?_
      split
      · exact hrefuse _
      have hold := ((perm_cons_remove h.sound.nodup hget).map
        fun e => e.2.1).append_right others
      have hpool := (hperm.map fun e => e.2.1).append_right others
      have hcounts : (acc.limits.addTx env tx).Counts env
          (existingTx :: (tx :: (Assoc.remove acc.list.txs tx.tx.nonce).map fun e => e.2.1)
            ++ others) :=
        (h.counts.perm hold).addTx.perm (.swap _ _ _)
      obtain ⟨limits, hremove, hcounts', hbelow⟩ := TrackedTxLimits.removeTx_ok hcounts
      rw [hremove]
      refine ⟨⟨hsound, hcounts'.perm hpool.symm, fun _ => insert_ne_nil, h.now⟩, ?_, rfl,
        hbelow.config, fun hidle => nomatch hidle⟩
      exact (Replay.Changes.refl.remove existingTx _ rfl hold).add tx _ rfl hpool

theorem tryInsertAll_safe (hconfig : acc.limits.config = config)
    (h : acc.Good env timely others) (txs : List PoolTx) :
    Safe (Overflows env config timely) (tryInsertAll env acc txs) fun acc' =>
      acc'.Good env timely others ∧ acc.Extends env others (txs.map (PoolTx.hash env)) acc' := by
  refine Safe.foldlM (fun done _ acc' => acc'.Good env timely others ∧
    acc.Extends env others (done.map (PoolTx.hash env)) acc') (fun done tx left acc₁ h₁ => ?_) txs
    ⟨h, Replay.Changes.refl, rfl, rfl, fun hidle => ⟨hidle, rfl, rfl⟩⟩
  obtain ⟨hgood₁, hext₁⟩ := h₁
  refine (tryInsertTx_safe (hext₁.config.trans hconfig) hgood₁ tx).mono fun acc₂ h₂ => ?_
  obtain ⟨hgood₂, hext₂⟩ := h₂
  refine ⟨hgood₂, ?_, hext₂.now.trans hext₁.now, hext₂.config.trans hext₁.config, fun hidle => ?_⟩
  · rw [map_append]
    exact hext₁.changes.trans hext₂.changes
  · obtain ⟨hidle₁, hlist₂, hlimits₂⟩ := hext₂.idle hidle
    obtain ⟨hidle₀, hlist₁, hlimits₁⟩ := hext₁.idle hidle₁
    exact ⟨hidle₀, hlist₂.trans hlist₁, hlimits₂.trans hlimits₁⟩

/-- The transactions of a list that may be gone. -/
def poolTxsOf (list : Option TrackedTxList) : List PoolTx := list.elim [] poolTxs

/-- The list that is left, or none if it is empty. -/
theorem poolTxsOf_ite (accountNonce : ℕ) (txs : List (ℕ × PoolTx × ℕ)) :
    poolTxsOf (if txs = [] then none else some ⟨accountNonce, txs⟩) = txs.map fun e => e.2.1 := by
  split
  next h =>
    rw [h]
    rfl
  · rfl

/-- What removals from a list do, next to the transactions of other accounts. -/
structure Shortens (env : PoolEnv) (timely : ℕ → Prop) (list : TrackedTxList)
    (limits : TrackedTxLimits) (tracker : EthTxPoolEventTracker) (others : List PoolTx)
    (r : Option TrackedTxList × TrackedTxLimits × EthTxPoolEventTracker) : Prop where
  sound : ∀ list' ∈ r.1, list'.Sound timely ∧ list'.txs ≠ []
  counts : r.2.1.Counts env (poolTxsOf r.1 ++ others)
  below : r.2.1.Below limits
  changes : PoolChanges env (list.poolTxs ++ others, tracker.events) []
    (poolTxsOf r.1 ++ others, r.2.2.events)
  now : r.2.2.now = tracker.now

/-- Some transactions are removed with one event for each. -/
theorem Shortens.of_removed (tracker : EthTxPoolEventTracker) (accountNonce : ℕ)
    {removed kept : List (ℕ × PoolTx × ℕ)} (hsound : list.Sound timely) (hcounts : limits.Counts env (list.poolTxs ++ others))
    (hperm : list.txs.Perm (removed ++ kept)) (hsub : kept.Sublist list.txs)
    (hnonces : ∀ e ∈ kept, accountNonce ≤ e.1) (event : EthTxPoolEventType)
    (hevent : event.isInsert = false) :
    ∃ limits', limits.removeTxs env (removed.map fun e => e.2.1) = .ok limits' ∧
      Shortens env timely list limits tracker others
        (if kept = [] then none else some ⟨accountNonce, kept⟩, limits',
          ⟨tracker.now, (removed.map fun e => e.2.1).foldl
            (fun events tx => Assoc.set events (tx.hash env) event) tracker.events⟩) := by
  have hpool : (list.poolTxs ++ others).Perm
      ((removed.map fun e => e.2.1) ++ ((kept.map fun e => e.2.1) ++ others)) := by
    rw [← append_assoc, ← map_append]
    exact (hperm.map _).append_right others
  obtain ⟨limits', hremove, hcounts', hbelow⟩ := TrackedTxLimits.removeTxs_ok (hcounts.perm hpool)
  refine ⟨limits', hremove, ⟨fun list' hlist' => ?_, ?_, hbelow, ?_, rfl⟩⟩
  · split at hlist'
    · cases hlist'
    next hne =>
      cases hlist'
      exact ⟨hsound.sublist hsub hnonces, hne⟩
  · rw [poolTxsOf_ite]
    exact hcounts'
  · rw [poolTxsOf_ite]
    exact (Replay.Changes.none hpool).trans (Replay.Changes.removeAll _ event hevent)

/-- The first nonce is the lowest. -/
theorem Sound.head_le {e e' : ℕ × PoolTx × ℕ} (h : list.Sound timely) (htxs : list.txs = e :: txs)
    (he' : e' ∈ list.txs) : e.1 ≤ e'.1 := by
  have hsorted := h.sorted
  rw [htxs] at hsorted he'
  rcases mem_cons.mp he' with rfl | he'
  · exact le_rfl
  · exact ((pairwise_cons.mp hsorted).1 e' he').le

theorem updateCommittedNonceUsage_ok (hsound : list.Sound timely) (hne : list.txs ≠ [])
    (hcounts : limits.Counts env (list.poolTxs ++ others)) (nonceUsage : NonceUsage) :
    ∃ r, list.updateCommittedNonceUsage env limits tracker nonceUsage = .ok r ∧
      Shortens env timely list limits tracker others r := by
  unfold updateCommittedNonceUsage
  dsimp only
  split
  next hnil => exact absurd hnil hne
  next lowestNonce entry txs htxs =>
    split
    next hle =>
      refine ⟨_, rfl, ⟨fun list' hlist' => ?_, hcounts, .refl, .refl, rfl⟩⟩
      cases hlist'
      exact ⟨hsound.sublist (.refl _) fun e he => hle.trans (hsound.head_le htxs he), hne⟩
    · have hfilter : (fun e : ℕ × PoolTx × ℕ =>
          decide (nonceUsage.applyToAccountNonce list.accountNonce ≤ e.1)) =
          fun e => !decide (e.1 < nonceUsage.applyToAccountNonce list.accountNonce) := by
        funext e
        rw [← decide_not, decide_eq_decide]
        exact not_lt.symm
      have hperm := (filter_append_perm (fun e : ℕ × PoolTx × ℕ =>
        decide (e.1 < nonceUsage.applyToAccountNonce list.accountNonce)) list.txs).symm
      rw [← hfilter] at hperm
      obtain ⟨limits', hremove, hshortens⟩ := Shortens.of_removed tracker
        (nonceUsage.applyToAccountNonce list.accountNonce) hsound hcounts hperm
        filter_sublist (fun e he => by simpa using (mem_filter.mp he).2) .commit rfl
      rw [hremove]
      refine ⟨_, rfl, ?_⟩
      rw [← EthTxPoolEventTracker.trackedCommit_eq, map_map] at hshortens
      exact hshortens

theorem splitExpired_safe (htimes : ∀ e ∈ txs, timely e.2.2)
    (hexpiry : txExpiry ≤ max config.softTxExpiry config.hardTxExpiry) :
    Safe (Overflows env config timely) (splitExpired env txExpiry now txs) fun r =>
      txs.Perm (r.1 ++ r.2) ∧ r.2.Sublist txs := by
  induction txs with
  | nil => exact ⟨.refl _, .refl _⟩
  | cons e txs ih =>
    have hrest := ih fun e' he' => htimes e' (mem_cons_of_mem _ he')
    refine Safe.bind (txExpired_safe now (htimes e (by simp)) hexpiry) fun expired _ => ?_
    refine Safe.bind hrest fun r hr => ?_
    obtain ⟨hperm, hsub⟩ := hr
    cases expired with
    | true => exact ⟨hperm.cons e, hsub.cons e⟩
    | false => exact ⟨(hperm.cons e).trans perm_middle.symm, hsub.cons_cons e⟩

theorem evictExpiredTxs_safe (hsound : list.Sound timely)
    (hcounts : limits.Counts env (list.poolTxs ++ others))
    (hexpiry : txExpiry ≤ max config.softTxExpiry config.hardTxExpiry) :
    Safe (Overflows env config timely) (list.evictExpiredTxs env limits tracker txExpiry now)
      (Shortens env timely list limits tracker others) := by
  refine Safe.bind (splitExpired_safe hsound.times hexpiry) fun r hr => ?_
  obtain ⟨hperm, hsub⟩ := hr
  obtain ⟨limits', hremove, hshortens⟩ := Shortens.of_removed tracker
    list.accountNonce hsound hcounts hperm hsub
    (fun e he => hsound.nonces e (hsub.subset he)) (.evict .expired) rfl
  rw [← EthTxPoolEventTracker.trackedEvictExpired_eq, map_map] at hshortens
  exact Safe.bind_ok hremove hshortens

theorem staticValidateAllTxs_ok (hsound : list.Sound timely)
    (hcounts : limits.Counts env (list.poolTxs ++ others)) (chainId : ℕ)
    (chainParams : ChainParams) (executionParams : ExecutionChainParams) :
    Safe False (list.staticValidateAllTxs env limits tracker chainId chainParams executionParams)
      (Shortens env timely list limits tracker others) := by
  refine Safe.bind (Safe.foldlM (fun _ left acc =>
    acc.list.accountNonce = list.accountNonce ∧
    (acc.list.txs ++ left).Sublist list.txs ∧
    acc.limits.Counts env ((acc.list.txs ++ left).map (fun e => e.2.1) ++ others) ∧
    acc.limits.Below limits ∧
    PoolChanges env (list.poolTxs ++ others, tracker.events) []
      ((acc.list.txs ++ left).map (fun e => e.2.1) ++ others, acc.tracker.events) ∧
    acc.tracker.now = tracker.now)
    (fun done e left acc hinv => ?_) list.txs
    ⟨rfl, .refl _, hcounts, .refl, .refl, rfl⟩) fun acc hinv => ?_
  · obtain ⟨hnonce, hsub, hcounts, hbelow, hchanges, hnow⟩ := hinv
    unfold staticValidateTx
    split
    · refine ⟨hnonce, ?_, ?_, hbelow, ?_, hnow⟩
      all_goals
        rw [append_assoc, singleton_append]
        assumption
    · have hperm : ((acc.list.txs ++ e :: left).map (fun e => e.2.1) ++ others).Perm
          (e.2.1 :: ((acc.list.txs ++ left).map (fun e => e.2.1) ++ others)) :=
        (perm_middle.map _).append_right others
      obtain ⟨limits', hremove, hcounts', hbelow'⟩ :=
        TrackedTxLimits.removeTx_ok (hcounts.perm hperm)
      refine Safe.bind_ok hremove ?_
      exact ⟨hnonce, ((sublist_cons_self _ _).append_left _).trans hsub, hcounts',
        hbelow'.trans hbelow, .remove e.2.1 _ rfl hperm hchanges, hnow⟩
  · obtain ⟨hnonce, hsub, hcounts, hbelow, hchanges, hnow⟩ := hinv
    rw [append_nil] at hsub hcounts hchanges
    refine ⟨fun list' hlist' => ?_, ?_, hbelow, ?_, hnow⟩
    · dsimp only at hlist'
      split at hlist'
      · cases hlist'
      next hne =>
        cases hlist'
        exact ⟨hsound.sublist hsub fun e he => hnonce ▸ hsound.nonces e (hsub.subset he), hne⟩
    · exact poolTxsOf_ite acc.list.accountNonce acc.list.txs ▸ hcounts
    · exact poolTxsOf_ite acc.list.accountNonce acc.list.txs ▸ hchanges

end TrackedTxList

end Lists

end MonadBft
