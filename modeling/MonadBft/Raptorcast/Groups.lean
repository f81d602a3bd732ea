import MonadBft.Raptorcast.Packet
import MonadBft.Validator

/-!
# Broadcast groups

A chunk is broadcast among the validators of an epoch or among a group of full nodes that a
validator leads for a span of rounds. The group maps say which groups are established
(`BroadcastGroup.fromGroupId`). A member to whom the author sent a chunk as first hop sends
it on to the other members (`tryRebroadcast`, `RebroadcastContext.peers`).
-/

namespace MonadBft.Raptorcast

/-- Full nodes, at least one. -/
structure SecondaryGroup where
  fullNodes : List NodeId
  nodup : fullNodes.Nodup
  ne_nil : fullNodes ≠ []

def SecondaryGroup.isMember (group : SecondaryGroup) (nodeId : NodeId) : Bool :=
  decide (nodeId ∈ group.fullNodes)

/-- Groups of one publisher, each for the rounds from `start` to before `stop`. -/
structure SecondaryGroupMap where
  spans : List ((ℕ × ℕ) × SecondaryGroup)
  /-- No round is in two spans. -/
  disjoint : spans.Pairwise fun a b => a.1.2 ≤ b.1.1 ∨ b.1.2 ≤ a.1.1

def SecondaryGroupMap.get (groupMap : SecondaryGroupMap) (round : ℕ) : Option SecondaryGroup :=
  (groupMap.spans.find? fun e => decide (e.1.1 ≤ round ∧ round < e.1.2)).map Prod.snd

/-- The groups a full node is in, by publisher. -/
abbrev FullNodeGroupMap := NodeId → Option SecondaryGroupMap

/-- The validators of an epoch. -/
abbrev ValidatorGroupMap := ℕ → Option ValidatorSet

/-- The validators of an epoch, one of which is the author. -/
structure PrimaryBroadcastGroup where
  epoch : ℕ
  author : NodeId
  group : ValidatorSet
  author_mem : group.isMember author = true

structure SecondaryBroadcastGroup where
  round : ℕ
  publisher : NodeId
  group : SecondaryGroup

inductive BroadcastGroupError where
  | groupNotFound (groupId : GroupId)
  | invalidAuthor

def PrimaryBroadcastGroup.groupId (g : PrimaryBroadcastGroup) : GroupId := .primary g.epoch

def SecondaryBroadcastGroup.groupId (g : SecondaryBroadcastGroup) : GroupId := .secondary g.round

def PrimaryBroadcastGroup.ofEpoch (epoch : ℕ) (author : NodeId)
    (validatorGroupMap : ValidatorGroupMap) : Except BroadcastGroupError PrimaryBroadcastGroup :=
  match validatorGroupMap epoch with
  | none => .error (.groupNotFound (.primary epoch))
  | some group =>
    if h : group.isMember author = true then .ok { epoch, author, group, author_mem := h }
    else .error .invalidAuthor

def SecondaryBroadcastGroup.ofRound (round : ℕ) (publisher : NodeId)
    (fullNodeGroupMap : FullNodeGroupMap) : Except BroadcastGroupError SecondaryBroadcastGroup :=
  match (fullNodeGroupMap publisher).bind (·.get round) with
  | none => .error (.groupNotFound (.secondary round))
  | some group => .ok { round, publisher, group }

/-- The members a chunk may go to, and those it does not go to. -/
structure RebroadcastContext where
  members : List NodeId
  excluded : List NodeId

def RebroadcastContext.peers (ctx : RebroadcastContext) : List NodeId :=
  ctx.members.filter fun nid => decide (nid ∉ ctx.excluded)

inductive BroadcastGroup where
  | primary (g : PrimaryBroadcastGroup)
  | secondary (g : SecondaryBroadcastGroup)

namespace BroadcastGroup

def fromGroupId (groupId : GroupId) (author : NodeId) (validatorGroupMap : ValidatorGroupMap)
    (fullNodeGroupMap : FullNodeGroupMap) : Except BroadcastGroupError BroadcastGroup :=
  match groupId with
  | .primary epoch => (PrimaryBroadcastGroup.ofEpoch epoch author validatorGroupMap).map primary
  | .secondary round => (SecondaryBroadcastGroup.ofRound round author fullNodeGroupMap).map secondary

def isMember : BroadcastGroup → NodeId → Bool
  | .primary g, node => g.group.isMember node
  | .secondary g, node => g.group.isMember node

/-- A chunk comes from a validator of the group, or from the publisher or a full node of
it. -/
def isSenderValid : BroadcastGroup → NodeId → Bool
  | .primary g, sender => g.group.isMember sender
  | .secondary g, sender => sender == g.publisher || g.group.isMember sender

/-- Who to send a chunk on to. The author of a chunk among validators has it already. -/
def tryRebroadcast (selfId : NodeId) (isFirstHopRecipient : Bool) :
    BroadcastGroup → Option RebroadcastContext
  | .primary g =>
    if !g.group.isMember selfId || !isFirstHopRecipient then none
    else some { members := g.group.getMembers, excluded := [selfId, g.author] }
  | .secondary g =>
    if !g.group.isMember selfId || !isFirstHopRecipient then none
    else some { members := g.group.fullNodes, excluded := [selfId] }

/-- The nodes that a member sends a chunk of the group on to. -/
def Reaches (selfId : NodeId) : BroadcastGroup → NodeId → Prop
  | .primary g, node => g.group.isMember node = true ∧ node ≠ selfId ∧ node ≠ g.author
  | .secondary g, node => g.group.isMember node = true ∧ node ≠ selfId

section

variable {group : BroadcastGroup} {selfId : NodeId} {firstHop : Bool} {ctx : RebroadcastContext}
  (h : group.tryRebroadcast selfId firstHop = some ctx)

include h

theorem mem_peers (node : NodeId) : node ∈ ctx.peers ↔ group.Reaches selfId node := by
  cases group with
  | primary g =>
    simp only [tryRebroadcast] at h
    split at h
    · cases h
    · cases h
      simp [RebroadcastContext.peers, Reaches, ValidatorSet.isMember]
  | secondary g =>
    simp only [tryRebroadcast] at h
    split at h
    · cases h
    · cases h
      simp [RebroadcastContext.peers, Reaches, SecondaryGroup.isMember]

/-- A chunk is sent on to a peer once. -/
theorem nodup_peers : ctx.peers.Nodup := by
  cases group with
  | primary g =>
    simp only [tryRebroadcast] at h
    split at h
    · cases h
    · cases h
      exact g.group.nodup.filter _
  | secondary g =>
    simp only [tryRebroadcast] at h
    split at h
    · cases h
    · cases h
      exact g.group.nodup.filter _

end

end BroadcastGroup

end MonadBft.Raptorcast
