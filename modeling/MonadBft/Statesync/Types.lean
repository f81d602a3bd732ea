import Mathlib.Data.List.Lex
import Mathlib.Data.List.Sort
import MonadBft.Assoc
import MonadBft.Bytes

/-!
# Statesync messages

The messages by which a node fetches the execution state from others. A request asks for the
upserts of one range of accounts, between two blocks. It is answered by a sequence of responses
with the same nonce, numbered from zero, of which the last has a nonzero `responseN`.

Requests are compared field by field, the version first, as the sets and maps that are keyed by
them do.
-/

namespace MonadBft.Statesync

/-! ## Versions -/

structure StateSyncVersion where
  major : UInt16
  minor : UInt16
  deriving DecidableEq

/-- The version as one number. The derived order, major version first, is the order of these. -/
def StateSyncVersion.toU32 (v : StateSyncVersion) : ℕ := v.major.toNat * 2 ^ 16 + v.minor.toNat

instance : LE StateSyncVersion := ⟨fun v w => v.toU32 ≤ w.toU32⟩

instance : LT StateSyncVersion := ⟨fun v w => v.toU32 < w.toU32⟩

instance (v w : StateSyncVersion) : Decidable (v ≤ w) :=
  inferInstanceAs (Decidable (v.toU32 ≤ w.toU32))

instance (v w : StateSyncVersion) : Decidable (v < w) :=
  inferInstanceAs (Decidable (v.toU32 < w.toU32))

variable {v w : StateSyncVersion}

theorem StateSyncVersion.lt_iff : v < w ↔ v.toU32 < w.toU32 := .rfl

theorem StateSyncVersion.le_iff : v ≤ w ↔ v.toU32 ≤ w.toU32 := .rfl

def STATESYNC_VERSION_V0 : StateSyncVersion := { major := 1, minor := 0 }

def STATESYNC_VERSION_V1 : StateSyncVersion := { major := 1, minor := 1 }

/-- Clients have to send completions since this version. -/
def STATESYNC_VERSION_V2 : StateSyncVersion := { major := 1, minor := 2 }

def SELF_STATESYNC_VERSION : StateSyncVersion := STATESYNC_VERSION_V2

def STATESYNC_VERSION_MIN : StateSyncVersion := STATESYNC_VERSION_V0

def StateSyncVersion.isCompatible (v : StateSyncVersion) : Bool :=
  decide (STATESYNC_VERSION_MIN ≤ v) && decide (v ≤ SELF_STATESYNC_VERSION)

/-! ## Messages -/

structure StateSyncRequest where
  version : StateSyncVersion
  /-- `prefix` -/
  prefixValue : UInt64
  prefixBytes : UInt8
  target : UInt64
  /-- `from` -/
  fromBlock : UInt64
  /-- `until` -/
  untilBlock : UInt64
  oldTarget : UInt64
  deriving DecidableEq

namespace StateSyncRequest

def fields (r : StateSyncRequest) : List ℕ :=
  [r.version.toU32, r.prefixValue.toNat, r.prefixBytes.toNat, r.target.toNat, r.fromBlock.toNat,
    r.untilBlock.toNat, r.oldTarget.toNat]

/-- The derived order. -/
def Before (r r' : StateSyncRequest) : Prop := r.fields ≤ r'.fields

instance : DecidableRel Before := fun r r' => inferInstanceAs (Decidable (r.fields ≤ r'.fields))

end StateSyncRequest

/-- A request for a range of blocks. -/
def Ideal.wholeRange : StateSyncRequest where
  version := SELF_STATESYNC_VERSION
  prefixValue := 0
  prefixBytes := 1
  target := 100
  fromBlock := 0
  untilBlock := 99
  oldTarget := 0

inductive StateSyncUpsertType where
  | code
  | account
  | storage
  | accountDelete
  | storageDelete
  | header
  deriving DecidableEq

structure StateSyncUpsertV1 where
  upsertType : StateSyncUpsertType
  data : Bytes
  deriving DecidableEq

structure StateSyncResponse where
  version : StateSyncVersion
  nonce : UInt64
  responseIndex : UInt32
  request : StateSyncRequest
  response : List StateSyncUpsertV1
  responseN : UInt64
  deriving DecidableEq

structure StateSyncBadVersion where
  minVersion : StateSyncVersion
  maxVersion : StateSyncVersion
  deriving DecidableEq

inductive StateSyncNetworkMessage where
  | request (request : StateSyncRequest)
  | response (response : StateSyncResponse)
  | badVersion (badVersion : StateSyncBadVersion)
  | completion (sessionId : UInt64)
  | notWhitelisted
  deriving DecidableEq

end MonadBft.Statesync
