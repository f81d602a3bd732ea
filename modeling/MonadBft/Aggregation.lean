import MonadBft.Run

/-!
# Timeout certificates a node forms

A node aggregates the timeouts of a supermajority of its round. `TimeoutCertificate.new`
groups the signatures by what they sign and picks the highest report, while `verifyTc`
goes through the groups again. `verifyTc_of_new` says that the two agree on timeouts that
validate under one epoch schedule (`Collected`).

A timeout is validated when it arrives, and the schedule may change while it is pending:
a block that ends an epoch may be committed late, in a round that then belongs to another
epoch (`Run.formed_tc_verifies`, `Run.formed_tc_rejected`).
-/

namespace MonadBft

open Assoc List TimeoutMessage HighExtendRank

variable {T : Types} {env : Env T}

/-! ## From timeouts to groups to signers -/

/-- A signature group of a certificate, as it was aggregated. -/
structure AggregateOf (env : Env T) (mapping : ValidatorMapping)
    (g : TimeoutInfo × List (NodeId × T.SignatureType)) (t : HighTipRoundSigColTuple T) : Prop where
  sigs : env.newCollection g.2 mapping (.timeout g.1) = .ok t.sigs
  qcRound : t.highQcRound = g.1.highQcRound
  tipRound : t.highTipRound = g.1.highTipRound

theorem exists_of_mem_forall₂ {α β : Type*} {R : α → β → Prop} {l : List α} {l' : List β}
    (h : List.Forall₂ R l l') {b : β} (hb : b ∈ l') : ∃ a ∈ l, R a b := by
  induction h with
  | nil => cases hb
  | @cons a b' l l' hr _ ih =>
    rcases mem_cons.mp hb with rfl | hb
    · exact ⟨a, by simp, hr⟩
    · obtain ⟨a', ha', hr'⟩ := ih hb
      exact ⟨a', by simp [ha'], hr'⟩

theorem aggregateGroups_ok {mapping : ValidatorMapping} :
    ∀ {groups : TimeoutGroups T} {tuples : List (HighTipRoundSigColTuple T)},
      aggregateGroups env mapping groups = .ok tuples →
      List.Forall₂ (AggregateOf env mapping) groups tuples
  | [], tuples, h => by
    cases h
    exact .nil
  | (info, sigs) :: groups, tuples, h => by
    obtain ⟨sct, hsct, h⟩ := bind_eq_ok.mp h
    obtain ⟨rest, hrest, h⟩ := bind_eq_ok.mp h
    cases h
    exact .cons ⟨hsct, rfl, rfl⟩ (aggregateGroups_ok hrest)

/-- Timeouts of one round that validate under one epoch schedule, of distinct senders. -/
structure Collected (env : Env T) (validatorsOf : EpochToValidators) (validators : ValidatorSet)
    (epoch round : ℕ) (timeouts : List (NodeId × TimeoutMessage T)) : Prop where
  senders : (timeouts.map Prod.fst).Nodup
  member : ∀ t ∈ timeouts, t.1 ∈ validators.getMembers
  epoch_eq : ∀ t ∈ timeouts, t.2.tminfo.epoch = epoch
  round_eq : ∀ t ∈ timeouts, t.2.tminfo.round = round
  rank : ∀ t ∈ timeouts, t.2.highExtend.rank = t.2.tminfo.rank
  extend : ∀ t ∈ timeouts, verifyHighExtend env validatorsOf t.2.highExtend.toHighExtend = .ok ()
  qcRound_lt : ∀ t ∈ timeouts, t.2.highExtend.getQc.getRound < round

namespace Collected

variable {validatorsOf : EpochToValidators} {validators : ValidatorSet} {mapping : ValidatorMapping}
  {leader : NodeId} {epoch round : ℕ} {timeouts : List (NodeId × TimeoutMessage T)}
  {tuples : List (HighTipRoundSigColTuple T)} {groups : TimeoutGroups T}
  {g : TimeoutInfo × List (NodeId × T.SignatureType)} {t : HighTipRoundSigColTuple T}

/-- The signers of an aggregate are the senders of its group. -/
theorem signersOf_perm (hlaw : LawfulSignatures env mapping) (hnd : (g.2.map Prod.fst).Nodup)
    (ht : AggregateOf env mapping g t) (hinfo : t.tminfo epoch round = g.1) :
    env.verifyCollection t.sigs mapping (.timeout (t.tminfo epoch round)) =
        some (signersOf env mapping epoch round t) ∧
      (signersOf env mapping epoch round t).Perm (g.2.map Prod.fst) := by
  obtain ⟨signers, hverify, hperm⟩ := hlaw.verify_new hnd ht.sigs
  have hsigners : signersOf env mapping epoch round t = signers := by
    rw [signersOf, hinfo, hverify]
    rfl
  rw [hsigners, hinfo]
  exact ⟨hverify, hperm⟩

section Groups

variable (hperm : groups.Perm (groupTimeouts timeouts))

include hperm

/-- What a group signs comes from one of the timeouts. -/
theorem exists_timeout (hg : g ∈ groups) : ∃ t ∈ timeouts, t.2.tminfo = g.1 := by
  obtain ⟨hne, hmem⟩ := of_mem_group (hperm.mem_iff.mp hg)
  obtain ⟨v, hv⟩ := exists_mem_of_ne_nil _ hne
  obtain ⟨t, ht, hkey, -⟩ := hmem v hv
  exact ⟨t, ht, hkey⟩

/-- The senders, group by group. -/
theorem senders_perm : (groups.flatMap fun g => g.2.map Prod.fst).Perm (timeouts.map Prod.fst) := by
  have hflat : (groups.flatMap Prod.snd).Perm
      (timeouts.map fun t => (t.1, t.2.timeoutSignature)) :=
    (hperm.flatMap_right _).trans perm_group
  have hmap := hflat.map Prod.fst
  rw [map_flatMap, map_map] at hmap
  exact hmap

variable (h : Collected env validatorsOf validators epoch round timeouts)

include h

/-- The group that a tuple was aggregated from signs what the certificate says. -/
theorem tminfo_eq (hg : g ∈ groups) (ht : AggregateOf env mapping g t) :
    t.tminfo epoch round = g.1 := by
  obtain ⟨m, hm, hinfo⟩ := exists_timeout hperm hg
  have hepoch := h.epoch_eq m hm
  have hround := h.round_eq m hm
  rw [hinfo] at hepoch hround
  rw [HighTipRoundSigColTuple.tminfo, ht.qcRound, ht.tipRound, ← hepoch, ← hround]

theorem nodup_group (hg : g ∈ groups) : (g.2.map Prod.fst).Nodup :=
  (nodup_flatMap.mp ((senders_perm hperm).nodup_iff.mpr h.senders)).1 g hg

theorem groupOk (hlaw : LawfulSignatures env mapping) (hg : g ∈ groups)
    (ht : AggregateOf env mapping g t) : GroupOk env mapping epoch round t := by
  have hnd := h.nodup_group hperm hg
  have hinfo := h.tminfo_eq hperm hg ht
  obtain ⟨m, hm, hkey⟩ := exists_timeout hperm hg
  refine ⟨?_, ?_, (signersOf_perm hlaw hnd ht hinfo).1⟩
  · -- the QC round that is signed is that of the report
    have hlt := h.qcRound_lt m hm
    have hqc : m.2.highExtend.getQc.getRound = m.2.tminfo.highQcRound := by
      have hrank := congrArg qcRound (h.rank m hm)
      rwa [HighExtendVote.rank, HighExtend.qcRound_rank, TimeoutInfo.rank,
        qcRound_ofRounds] at hrank
    rw [ht.qcRound, ← hkey, ← hqc]
    exact hlt
  · rw [hlaw.num_new hnd ht.sigs]
    have hne := (of_mem_group (hperm.mem_iff.mp hg)).1
    exact fun hlen => hne (length_eq_zero_iff.mp hlen)

theorem signers_perm (hlaw : LawfulSignatures env mapping)
    (htuples : List.Forall₂ (AggregateOf env mapping) groups tuples) :
    (tuples.flatMap (signersOf env mapping epoch round)).Perm (timeouts.map Prod.fst) := by
  have hgroups : ∀ g ∈ groups, ∀ t, AggregateOf env mapping g t →
      (signersOf env mapping epoch round t).Perm (g.2.map Prod.fst) := fun g hg t ht =>
    (signersOf_perm hlaw (h.nodup_group hperm hg) ht (h.tminfo_eq hperm hg ht)).2
  refine List.Perm.trans ?_ (senders_perm hperm)
  clear hperm
  induction htuples with
  | nil => exact .refl _
  | @cons g t groups tuples ht _ ih =>
    exact (hgroups g (by simp) t ht).append (ih fun g' hg' => hgroups g' (by simp [hg']))

/-- Groups differ in what they sign, and all of it is of one epoch and round. -/
theorem nodup_pairs (htuples : List.Forall₂ (AggregateOf env mapping) groups tuples) :
    (tuples.map fun t => (t.highQcRound, t.highTipRound)).Nodup := by
  have hpairs : (tuples.map fun t => (t.highQcRound, t.highTipRound)) =
      (groups.map Prod.fst).map fun info => (info.highQcRound, info.highTipRound) := by
    clear hperm
    induction htuples with
    | nil => rfl
    | cons ht _ ih => rw [map_cons, map_cons, map_cons, ih, ht.qcRound, ht.tipRound]
  rw [hpairs]
  have hkeys : (groups.map Prod.fst).Nodup := (hperm.map Prod.fst).nodup_iff.mpr Assoc.nodup_group
  refine hkeys.map_on fun info hinfo info' hinfo' heq => ?_
  have hfixed : ∀ info ∈ groups.map Prod.fst, info.epoch = epoch ∧ info.round = round := by
    intro info hinfo
    obtain ⟨g, hg, rfl⟩ := mem_map.mp hinfo
    obtain ⟨t, ht, hkey⟩ := exists_timeout hperm hg
    rw [← hkey]
    exact ⟨h.epoch_eq t ht, h.round_eq t ht⟩
  obtain ⟨hepoch, hround⟩ := hfixed info hinfo
  obtain ⟨hepoch', hround'⟩ := hfixed info' hinfo'
  obtain ⟨e, r, q, t⟩ := info
  obtain ⟨e', r', q', t'⟩ := info'
  simp_all

theorem length_le : groups.length ≤ validators.getMembers.length := by
  have hsenders : groups.length ≤ (groups.flatMap fun g => g.2.map Prod.fst).length := by
    have hone : ∀ k ∈ groups.map fun g => (g.2.map Prod.fst).length, 1 ≤ k := by
      intro k hk
      obtain ⟨g, hg, rfl⟩ := mem_map.mp hk
      have hne := (of_mem_group (hperm.mem_iff.mp hg)).1
      simpa [Nat.one_le_iff_ne_zero] using hne
    simpa using length_le_sum_of_one_le _ hone
  have hsub : (timeouts.map Prod.fst) ⊆ validators.getMembers := by
    intro id hid
    obtain ⟨t, ht, rfl⟩ := mem_map.mp hid
    exact h.member t ht
  calc groups.length ≤ (timeouts.map Prod.fst).length := by
        rw [← (senders_perm hperm).length_eq]
        exact hsenders
    _ ≤ validators.getMembers.length := (subperm_of_subset h.senders hsub).length_le

/-- Both sides compute the highest rank: one over the timeouts, one over the groups. -/
theorem rank_eq (htuples : List.Forall₂ (AggregateOf env mapping) groups tuples)
    (hne : timeouts ≠ []) :
    (highestExtend env timeouts).rank =
      tuples.foldl (fun r t => max r t.rank) (.qc GENESIS_ROUND) := by
  obtain ⟨hfold, hge, hall⟩ := foldl_max_rank tuples (.qc GENESIS_ROUND)
  obtain ⟨hhigh, hle⟩ := @highestExtend_spec T env timeouts
  have hrank : ∀ {g t m}, AggregateOf env mapping g t → m ∈ timeouts → m.2.tminfo = g.1 →
      t.rank = m.2.highExtend.rank := by
    intro g t m ht hm hkey
    rw [h.rank m hm, hkey, HighTipRoundSigColTuple.rank, ht.qcRound, ht.tipRound]
    rfl
  -- every timeout is in a group, and every group has a timeout
  have hgroup : ∀ m ∈ timeouts, ∃ t ∈ tuples, t.rank = m.2.highExtend.rank := by
    intro m hm
    have hkey : m.2.tminfo ∈ (groupTimeouts timeouts).map Prod.fst := by
      exact key_mem_group hm
    obtain ⟨g, hg, hkey⟩ := mem_map.mp hkey
    obtain ⟨t, ht, hagg⟩ := exists_of_mem_forall₂ htuples.flip (hperm.mem_iff.mpr hg)
    exact ⟨t, ht, hrank hagg hm hkey.symm⟩
  have htimeout : ∀ t ∈ tuples, ∃ m ∈ timeouts, t.rank = m.2.highExtend.rank := by
    intro t ht
    obtain ⟨g, hg, hagg⟩ := exists_of_mem_forall₂ htuples ht
    obtain ⟨m, hm, hkey⟩ := exists_timeout hperm hg
    exact ⟨m, hm, hrank hagg hm hkey⟩
  refine le_antisymm ?_ ?_
  · rcases hhigh with hgen | ⟨m, hm, hext⟩
    · rw [hgen]
      exact hge
    · obtain ⟨t, ht, htm⟩ := hgroup m hm
      rw [hext]
      exact htm.symm.le.trans (hall t ht)
  · rcases hfold with hfold | ⟨t, ht, hfold⟩
    · rw [hfold]
      obtain ⟨m, hm⟩ := exists_mem_of_ne_nil _ hne
      have hlow : qc GENESIS_ROUND ≤ m.2.highExtend.rank := by
        rw [h.rank m hm]
        exact qc_genesis_le_ofRounds _ _
      exact hlow.trans (hle m hm)
    · obtain ⟨m, hm, htm⟩ := htimeout t ht
      rw [hfold, htm]
      exact hle m hm

end Groups

variable (h : Collected env validatorsOf validators epoch round timeouts)

include h

/-- What is picked verifies: it was reported, or it is the genesis QC and was reported as
well. -/
theorem verifyHighExtend_highestExtend (hne : timeouts ≠ []) :
    verifyHighExtend env validatorsOf (highestExtend env timeouts) = .ok () := by
  obtain ⟨hhigh, hle⟩ := @highestExtend_spec T env timeouts
  rcases hhigh with hgen | ⟨m, hm, hext⟩
  · obtain ⟨m, hm⟩ := exists_mem_of_ne_nil _ hne
    have hlow := hle m hm
    have hextend := h.extend m hm
    rw [hgen] at hlow ⊢
    rw [h.rank m hm, TimeoutInfo.rank] at hlow
    have hrank := h.rank m hm
    -- a report that is not above the genesis QC is the genesis QC
    unfold ofRounds at hlow
    split at hlow
    next htip =>
      rw [TimeoutInfo.rank, ofRounds, if_pos htip] at hrank
      rcases hx : m.2.highExtend.toHighExtend with tip | qc
      · rw [HighExtendVote.rank, hx] at hrank
        cases hrank
      rw [HighExtendVote.rank, hx] at hrank
      have hround : qc.getRound = m.2.tminfo.highQcRound := by simpa [HighExtend.rank] using hrank
      have hzero : qc.getRound = GENESIS_ROUND := by
        have : m.2.tminfo.highQcRound ≤ GENESIS_ROUND := (qc_le_qc _ _).mp hlow
        rw [hround]
        exact Nat.le_zero.mp this
      rw [hx] at hextend
      rcases verifyQc_ok hextend with ⟨-, rfl⟩ | ⟨hne, -⟩
      · exact hextend
      · exact absurd hzero hne
    next htip =>
      have hzero : m.2.tminfo.highTipRound ≤ GENESIS_ROUND := (tip_le_qc _ _ _).mp hlow
      exact absurd (Nat.le_zero.mp hzero) htip
  · rw [hext]
    exact h.extend m hm

/-- **Aggregation and verification agree.** A certificate of collected timeouts of a
supermajority verifies. -/
theorem verifyTc_of_new (hvalidators : validatorsOf epoch round = .ok (validators, mapping, leader))
    (hlaw : LawfulSignatures env mapping) (horder : ∀ groups, (env.groupOrder groups).Perm groups)
    (hmaj : validators.hasSuperMajorityVotes (timeouts.map Prod.fst) = .ok true)
    {tc : TimeoutCertificate T}
    (hnew : TimeoutCertificate.new env epoch round timeouts mapping = .ok tc) :
    verifyTc env validatorsOf tc = .ok () := by
  obtain ⟨rfl, rfl, hext, hagg⟩ := TimeoutCertificate.new_eq_ok.mp hnew
  have hperm := horder (groupTimeouts timeouts)
  have htuples := aggregateGroups_ok hagg
  have hne : timeouts ≠ [] := by
    have := validators.ne_nil_of_hasSuperMajorityVotes hmaj
    simpa using this
  have hsigners := h.signers_perm hperm hlaw htuples
  refine verifyTc_eq_ok.mpr ⟨⟨validators, mapping, leader, hvalidators, ?_, fun t ht => ?_,
    hsigners.nodup_iff.mpr h.senders, validators.hasSuperMajorityVotes_perm hsigners.symm hmaj⟩,
    h.nodup_pairs hperm htuples, ?_, ?_⟩
  · rw [← htuples.length_eq]
    exact h.length_le hperm
  · obtain ⟨g, hg, hagg⟩ := exists_of_mem_forall₂ htuples ht
    exact h.groupOk hperm hlaw hg hagg
  · rw [hext]
    exact h.verifyHighExtend_highestExtend hne
  · rw [hext]
    exact h.rank_eq hperm htuples hne

end Collected

/-! ## Certificates formed in a run -/

section Formed

variable {id author : NodeId} {em : EpochManager} {root : RootInfo T} {cert : RoundCertificate T}
  {validatorsOf : EpochToValidators} {n₀ n n' : Node env} {log : List (Entry env)} {ctx : Ctx env}
  {m : TimeoutMessage T} {cmds : List (ConsensusCommand env)}

/-- Every pending timeout would still be admitted. -/
def pendingStillValid : Condition env := fun ctx n _ =>
  ∀ t ∈ n.pacemaker.pendingTimeouts, (Event.message t.1 (.timeout t.2)).Valid ctx n

instance (ctx : Ctx env) (n : Node env) (e : Event env) : Decidable (pendingStillValid ctx n e) :=
  inferInstanceAs (Decidable (∀ t ∈ n.pacemaker.pendingTimeouts, _))

/-- What a node has collected when it forms a certificate. -/
theorem collected_of_valid {n₁ : Node env} {validators : ValidatorSet} {mapping : ValidatorMapping}
    (hvalid : (Event.message author (.timeout m)).Valid ctx n)
    (hpending : ∀ t ∈ n.pacemaker.pendingTimeouts, (Event.message t.1 (.timeout t.2)).Valid ctx n)
    (hn₁ : NodeInv n₁) (hq₁ : QcInv n₁) (hround : m.tminfo.round = n₁.getCurrentRound)
    (hvals : ctx.valEpochMap m.tminfo.epoch = some (validators, mapping))
    (hsub : ∀ t ∈ n₁.pacemaker.pendingTimeouts, t ∈ n.pacemaker.pendingTimeouts ∨ t = (author, m)) :
    Collected env (epochToValidators env n.epochManager ctx.valEpochMap) validators
      m.tminfo.epoch m.tminfo.round n₁.pacemaker.pendingTimeouts := by
  have hall : ∀ t ∈ n₁.pacemaker.pendingTimeouts, (Event.message t.1 (.timeout t.2)).Valid ctx n := by
    intro t ht
    rcases hsub t ht with ht | rfl
    · exact hpending t ht
    · exact hvalid
  have hrounds : ∀ t ∈ n₁.pacemaker.pendingTimeouts, t.2.tminfo.round = m.tminfo.round :=
    fun t ht => (hn₁.pending t ht).trans hround.symm
  have hepoch := (validate_ok hvalid.2).2.1
  have hepochs : ∀ t ∈ n₁.pacemaker.pendingTimeouts, t.2.tminfo.epoch = m.tminfo.epoch := by
    intro t ht
    have hte := (validate_ok (hall t ht).2).2.1
    rw [hrounds t ht, hepoch] at hte
    exact (Option.some.inj hte).symm
  refine ⟨hn₁.senders, fun t ht => ?_, hepochs, hrounds, fun t ht => ?_, fun t ht => ?_,
    fun t ht => ?_⟩
  · -- the sender is a member of the epoch that the schedule gives the round
    obtain ⟨epoch, validators', mapping', hepoch', hvals', hmem⟩ :=
      ProtocolMessage.verifyAuthor_ok (hall t ht).1
    have hsame : n.epochManager.getEpoch t.2.tminfo.round = some epoch := hepoch'
    rw [hrounds t ht, hepoch] at hsame
    cases hsame
    rw [hvals] at hvals'
    obtain ⟨rfl, -⟩ : validators = validators' ∧ mapping = mapping' := by simpa using hvals'
    exact hmem
  · exact (wellFormedTimeout_ok (validate_ok (hall t ht).2).1).1
  · exact (validate_ok (hall t ht).2).2.2.2
  · rw [hround]
    exact hq₁.pending t ht

/-- **Formed certificates verify.** In every run of a node, when a timeout arrives and all
timeouts pending still validate, a timeout certificate the node makes of them is accepted
by every node with the same validators. -/
theorem Run.formed_tc_verifies (hcert : verifyRoundCertificate env validatorsOf cert = .ok ())
    (hnew : Node.new env em root cert = .ok n₀) (hrun : Run id anyEvent n₀ log n)
    (hvalid : (Event.message author (.timeout m)).Valid ctx n)
    (hpending : pendingStillValid ctx n (.message author (.timeout m)))
    (hlaw : ∀ epoch validators mapping, ctx.valEpochMap epoch = some (validators, mapping) →
      LawfulSignatures env mapping) (horder : ∀ groups, (env.groupOrder groups).Perm groups)
    (hhandle : Node.handle ctx (.message author (.timeout m)) n = .ok (⟨⟩, n', cmds)) :
    ∀ c ∈ cmds, ∀ tc, c.entered? = some (.tc tc) → tc.round = m.tminfo.round →
      verifyTc env (epochToValidators env n.epochManager ctx.valEpochMap) tc = .ok () := by
  have hn := hrun.inv (Node.inv_new hnew)
  have hq := hrun.qcInv (Node.inv_new hnew)
    (Node.qcInv_new hnew (qcRound_le_of_verifyRoundCertificate hcert))
  obtain ⟨acts, rfl, htrace⟩ := trace_handle hn hvalid hhandle
  intro c hc tc hentered hround
  obtain ⟨n₁, acts₁, htrace₁, horigin, -⟩ := htrace.entered hc hentered
  have hn₁ := htrace₁.inv hn
  have hq₁ := htrace₁.qcInv hvalid.wellFormed hq
  cases horigin with
  | carried hmem =>
    -- the certificate a timeout carries is of the round before
    have hform := (wellFormedTimeout_ok (validate_ok hvalid.2).1).2
    have hlast : m.lastRoundCertificate = some (.tc tc) := by
      simpa [Event.certificates] using hmem
    rcases hform with ⟨-, hnone⟩ | ⟨cert', hsome, hround'⟩
    · rw [hnone] at hlast
      cases hlast
    · rw [hlast] at hsome
      cases hsome
      have : m.tminfo.round = tc.round + 1 := hround'
      omega
  | @timeouts author' m' validators mapping tc' he hr hvals hnewTc hmaj =>
    obtain ⟨rfl, rfl⟩ : author = author' ∧ m = m' := by simpa using he
    have hcollected := collected_of_valid hvalid hpending hn₁ hq₁ hr hvals htrace₁.pending
    have hepoch := (validate_ok hvalid.2).2.1
    exact hcollected.verifyTc_of_new (epochToValidators_eq hepoch hvals) (hlaw _ _ _ hvals) horder
      hmaj hnewTc

end Formed

namespace Ideal

def timeoutOne (node : NodeId) : TimeoutMessage types :=
  timeout node { epoch := 1, round := 1, highQcRound := 0, highTipRound := 0 } (.qc genesisQc) none

/-- Node 1 collects two timeouts of the first round. -/
def twoTimeouts : List (Ctx soleLeader × Event soleLeader) :=
  [(member 1 10, .message 0 (.timeout (timeoutOne 0))),
    (member 1 10, .message 2 (.timeout (timeoutOne 2)))]

def twoTimeoutsRun : List (Entry soleLeader) × Node soleLeader :=
  (execute (fun _ _ _ => true) twoTimeouts (genesisNode _)).get (by decide +kernel)

theorem run_twoTimeoutsRun : Run 1 anyEvent (genesisNode _) twoTimeoutsRun.1 twoTimeoutsRun.2 :=
  Run.of_get (fun _ _ _ _ => trivial) (by simp [twoTimeouts, member]) _

/-- The third one completes a certificate. -/
def thirdTimeout : PUnit × Node soleLeader × List (ConsensusCommand soleLeader) :=
  (Node.handle (member 1 10) (.message 3 (.timeout (timeoutOne 3)))
    twoTimeoutsRun.2).toOption.get (by decide +kernel)

/-- Epochs of two blocks. -/
def shortEpochs : EpochManager where
  epochLength := 2
  epochStartDelay := 3
  epochStarts := [(1, 0)]

def shortEpochNode : Node soleLeader := { genesisNode _ with epochManager := shortEpochs }

theorem new_shortEpochNode :
    Node.new soleLeader shortEpochs root (.qc genesisQc) = .ok shortEpochNode :=
  rfl

/-- The block of the second round ends the first epoch. Two blocks are built on it. -/
def nextTip : ConsensusTip types :=
  tip 0 3 (qc [0, 2, 3] (headerId tipTwo.blockHeader) 2 1) 2 0 none

def lastTip : ConsensusTip types :=
  tip 0 4 (qc [0, 2, 3] (headerId nextTip.blockHeader) 3 1) 3 0 none

def lastQc : QuorumCertificate types := qc [0, 2, 3] (headerId lastTip.blockHeader) 4 1

def timeoutFive (node epoch : ℕ) : TimeoutMessage types :=
  timeout node { epoch, round := 5, highQcRound := 4, highTipRound := 0 } (.qc lastQc) none

/-- The blocks up to the last certified one. -/
def lastBlocks : List (ConsensusFullBlock soleLeader) :=
  [⟨tipTwo.blockHeader, 0, rfl⟩, ⟨nextTip.blockHeader, 0, rfl⟩, ⟨lastTip.blockHeader, 0, rfl⟩]

/-- Node 1 enters the fifth round without the blocks, and takes it to be of the first epoch.
A timeout of the first epoch arrives, then the blocks, which put the round into the second
epoch, then a timeout of the second epoch. -/
def lateEvents : List (Ctx soleLeader × Event soleLeader) :=
  [(member 1 10, .message 0 (.advanceRound ⟨.qc lastQc⟩)),
    (member 1 10, .message 0 (.timeout (timeoutFive 0 1))),
    (member 1 10, .blockSync ⟨headerId lastTip.blockHeader, 1⟩ lastBlocks),
    (member 1 10, .message 2 (.timeout (timeoutFive 2 2)))]

def lateRun : List (Entry soleLeader) × Node soleLeader :=
  (execute (fun _ _ _ => true) lateEvents shortEpochNode).get (by decide +kernel)

/-- A second timeout of the second epoch completes a certificate. -/
def lateTimeout : PUnit × Node soleLeader × List (ConsensusCommand soleLeader) :=
  (Node.handle (member 1 10) (.message 3 (.timeout (timeoutFive 3 2)))
    lateRun.2).toOption.get (by decide +kernel)

/-- Two groups report the same rounds, one signed for each epoch. -/
def lateTc : TimeoutCertificate types where
  epoch := 2
  round := 5
  tipRounds :=
    [tipRounds [0] { epoch := 1, round := 5, highQcRound := 4, highTipRound := 0 },
      tipRounds [2, 3] { epoch := 2, round := 5, highQcRound := 4, highTipRound := 0 }]
  highExtend := .qc lastQc

end Ideal

open MonadBft.Ideal

theorem Run.formed_tc_verifies_thirdTimeout :
    ∃ c ∈ thirdTimeout.2.2, c.entered? = some (.tc (tc 1 [([0, 2, 3], 0, 0)] (.qc genesisQc))) ∧
      verifyTc soleLeader (epochToValidators soleLeader
        twoTimeoutsRun.2.epochManager fun _ => some (committee, keys))
        (tc 1 [([0, 2, 3], 0, 0)] (.qc genesisQc)) = .ok () := by
  have hverify : verifyRoundCertificate soleLeader (epochToValidators soleLeader
      epochs fun _ => some (committee, keys)) (.qc genesisQc) = .ok () := by
    decide +kernel
  have hentered : .tc (tc 1 [([0, 2, 3], 0, 0)] (.qc genesisQc)) ∈
      thirdTimeout.2.2.filterMap ConsensusCommand.entered? := by
    decide +kernel
  obtain ⟨c, hc, hcert⟩ := mem_filterMap.mp hentered
  have hall := Run.formed_tc_verifies (n := twoTimeoutsRun.2) hverify
    new_genesisNode run_twoTimeoutsRun (by decide +kernel) (by decide +kernel)
    (fun _ _ mapping _ => lawfulSignatures _ mapping) (fun _ => .refl _)
    (eq_ok_get (by decide +kernel) : Node.handle (member 1 10)
      (.message 3 (.timeout (timeoutOne 3))) twoTimeoutsRun.2 = _)
  exact ⟨c, hc, hcert, hall c hc _ hcert rfl⟩

/-- Without the condition a node may form a certificate that no node accepts. -/
theorem Run.formed_tc_rejected :
    Node.new soleLeader shortEpochs root (.qc genesisQc) = .ok shortEpochNode ∧
    Run 1 anyEvent shortEpochNode lateRun.1 lateRun.2 ∧
    (Event.message 3 (.timeout (timeoutFive 3 2))).Valid (member 1 10) lateRun.2 ∧
    Node.handle (member 1 10) (.message 3 (.timeout (timeoutFive 3 2)))
      lateRun.2 = .ok lateTimeout ∧
    .tc lateTc ∈ lateTimeout.2.2.filterMap ConsensusCommand.entered? ∧
    lateTc.round = 5 ∧
    verifyTc soleLeader (epochToValidators soleLeader lateRun.2.epochManager
      fun _ => some (committee, keys)) lateTc = .error .invalidSignature :=
  ⟨new_shortEpochNode, Run.of_get (fun _ _ _ _ => trivial) (by simp [lateEvents, member]) _,
    by decide +kernel, eq_ok_get _, by decide +kernel, rfl, by decide +kernel⟩

end MonadBft
