import MonadBft.Rlp
import MonadBft.Statesync.Ipc

/-!
# The wire format of statesync messages

A message is a list of its name, a tag and its contents. The upserts of a response have two
formats: since `STATESYNC_VERSION_V1` their data is a byte string, before it was a list of numbers,
one for each byte. The encoder looks at the version of the request, and the decoder at that of the
response.

Encoders, decoders and lengths are written separately in the code, so they are here. A response
whose version is that of its request, and that is compatible, is read back to the last byte
(`StateSyncNetworkMessage.reads_response`), and its encoding has the length that is computed for it
(`StateSyncNetworkMessage.length_encode_response`).
-/

namespace MonadBft.Statesync

open List Rlp StateSyncUpsertV1

/-! ## Numbers -/

def decodeUInt8 : Decoder UInt8 := UInt8.ofNat <$> decodeUint 1

def decodeUInt16 : Decoder UInt16 := UInt16.ofNat <$> decodeUint 2

def decodeUInt32 : Decoder UInt32 := UInt32.ofNat <$> decodeUint 4

def decodeUInt64 : Decoder UInt64 := UInt64.ofNat <$> decodeUint 8

theorem reads_uint8 (n : UInt8) : Reads decodeUInt8 (encodeUint n.toNat) n := by
  have h : Reads (decodeUint 1) (encodeUint n.toNat) n.toNat := .uint n.toNat_lt (by omega)
  have hmap := h.map UInt8.ofNat
  rwa [UInt8.ofNat_toNat] at hmap

theorem reads_uint16 (n : UInt16) : Reads decodeUInt16 (encodeUint n.toNat) n := by
  have h : Reads (decodeUint 2) (encodeUint n.toNat) n.toNat := .uint n.toNat_lt (by omega)
  have hmap := h.map UInt16.ofNat
  rwa [UInt16.ofNat_toNat] at hmap

theorem reads_uint32 (n : UInt32) : Reads decodeUInt32 (encodeUint n.toNat) n := by
  have h : Reads (decodeUint 4) (encodeUint n.toNat) n.toNat := .uint n.toNat_lt (by omega)
  have hmap := h.map UInt32.ofNat
  rwa [UInt32.ofNat_toNat] at hmap

theorem reads_uint64 (n : UInt64) : Reads decodeUInt64 (encodeUint n.toNat) n := by
  have h : Reads (decodeUint 8) (encodeUint n.toNat) n.toNat := .uint n.toNat_lt (by omega)
  have hmap := h.map UInt64.ofNat
  rwa [UInt64.ofNat_toNat] at hmap

/-! ## Versions and requests -/

namespace StateSyncVersion

def encode (v : StateSyncVersion) : Bytes :=
  encodeList [encodeUint v.major.toNat, encodeUint v.minor.toNat].flatten

def length (v : StateSyncVersion) : ℕ :=
  listLength [uintLength v.major.toNat, uintLength v.minor.toNat].sum

def decode : Decoder StateSyncVersion := decodeRecord do
  let major ← decodeUInt16
  let minor ← decodeUInt16
  return { major, minor }

theorem length_encode (v : StateSyncVersion) : v.encode.length = v.length := by
  simp [encode, length, length_encodeList, length_encodeUint]

theorem length_le (v : StateSyncVersion) : v.length ≤ 7 := by
  have hmajor : uintLength v.major.toNat ≤ 1 + 2 := uintLength_le v.major.toNat_lt
  have hminor : uintLength v.minor.toNat ≤ 1 + 2 := uintLength_le v.minor.toNat_lt
  unfold length listLength lengthOfLength
  rw [sum_cons, sum_cons, sum_nil, if_pos (by omega)]
  omega

theorem reads (v : StateSyncVersion) : Reads decode v.encode v := by
  have hlen := v.length_le
  rw [← v.length_encode] at hlen
  exact Recovers.record (.bind (reads_uint16 v.major).recovers <|
    .bind (reads_uint16 v.minor).recovers <| .done _) (hlen.trans_lt (by omega))

end StateSyncVersion

namespace StateSyncRequest

def numbers (r : StateSyncRequest) : List ℕ :=
  [r.prefixValue.toNat, r.prefixBytes.toNat, r.target.toNat, r.fromBlock.toNat, r.untilBlock.toNat,
    r.oldTarget.toNat]

def encode (r : StateSyncRequest) : Bytes :=
  encodeList (r.version.encode ++ r.numbers.flatMap encodeUint)

def length (r : StateSyncRequest) : ℕ :=
  listLength (r.version.length + (r.numbers.map uintLength).sum)

def decodeFields (version : StateSyncVersion) : Decoder StateSyncRequest := do
  let prefixValue ← decodeUInt64
  let prefixBytes ← decodeUInt8
  let target ← decodeUInt64
  let fromBlock ← decodeUInt64
  let untilBlock ← decodeUInt64
  let oldTarget ← decodeUInt64
  return { version, prefixValue, prefixBytes, target, fromBlock, untilBlock, oldTarget }

/-- What comes after a version that is not compatible is skipped. -/
def decodePayload (payload : Bytes) : Except Rlp.Error StateSyncRequest := do
  let (version, payload) ← StateSyncVersion.decode.run payload
  if version.isCompatible then do
    let (request, payload) ← (decodeFields version).run payload
    if payload.isEmpty then .ok request else .error .unexpectedLength
  else
    .ok { version, prefixValue := 0, prefixBytes := 0, target := 0, fromBlock := 0,
          untilBlock := 0, oldTarget := 0 }

def decode : Decoder StateSyncRequest := do
  let payload ← decodeBytes true
  decodePayload payload

theorem length_encode (r : StateSyncRequest) : r.encode.length = r.length := by
  simp [encode, length, numbers, length_encodeList, length_encodeUint,
    StateSyncVersion.length_encode]

theorem length_le (r : StateSyncRequest) : r.length ≤ 56 := by
  have hversion := r.version.length_le
  have hword : ∀ n : UInt64, uintLength n.toNat ≤ 1 + 8 := fun n => uintLength_le n.toNat_lt
  have hbyte : uintLength r.prefixBytes.toNat ≤ 1 + 1 := uintLength_le r.prefixBytes.toNat_lt
  have h₁ := hword r.prefixValue
  have h₂ := hword r.target
  have h₃ := hword r.fromBlock
  have h₄ := hword r.untilBlock
  have h₅ := hword r.oldTarget
  unfold length listLength lengthOfLength numbers
  simp only [map_cons, map_nil, sum_cons, sum_nil]
  rw [if_pos (by omega)]
  omega

theorem reads_fields (r : StateSyncRequest) :
    Reads (decodeFields r.version) (r.numbers.flatMap encodeUint) r :=
  .bind (reads_uint64 r.prefixValue) <| .bind (reads_uint8 r.prefixBytes) <|
    .bind (reads_uint64 r.target) <| .bind (reads_uint64 r.fromBlock) <|
    .bind (reads_uint64 r.untilBlock) <| .bind (reads_uint64 r.oldTarget) <|
    .done _

variable {r : StateSyncRequest}

theorem decodePayload_encode (h : r.version.isCompatible = true) :
    decodePayload (r.version.encode ++ r.numbers.flatMap encodeUint) = .ok r := by
  rw [decodePayload, r.version.reads, except_ok_bind]
  dsimp only
  rw [if_pos h, r.reads_fields.run_eq, except_ok_bind]
  exact if_pos rfl

theorem reads (h : r.version.isCompatible = true) : Reads decode r.encode r := by
  have hlen := r.length_le
  rw [← r.length_encode] at hlen
  have hlt : (r.version.encode ++ r.numbers.flatMap encodeUint).length < 2 ^ 64 :=
    length_lt_of_encodeList (Nat.lt_of_le_of_lt hlen (by omega))
  intro rest
  rw [decode, StateT.run_bind, encode, Reads.decodeBytes_list hlt rest]
  change ((decodePayload _ : Decoder StateSyncRequest).run rest) = _
  rw [decodePayload_encode h]
  rfl

end StateSyncRequest

/-! ## Upserts -/

namespace StateSyncUpsertType

def tag : StateSyncUpsertType → UInt8
  | .code => 1
  | .account => 2
  | .storage => 3
  | .accountDelete => 4
  | .storageDelete => 5
  | .header => 6

def encode (t : StateSyncUpsertType) : Bytes := encodeList (encodeUint t.tag.toNat)

/-- A list of one byte takes two. -/
def length (_ : StateSyncUpsertType) : ℕ := 2

def ofTag (tag : UInt8) : Decoder StateSyncUpsertType :=
  match tag with
  | 1 => return .code
  | 2 => return .account
  | 3 => return .storage
  | 4 => return .accountDelete
  | 5 => return .storageDelete
  | 6 => return .header
  | _ => throw (.custom "failed to decode unknown StateSyncUpsertType")

def decode : Decoder StateSyncUpsertType := inPayload (decodeUInt8 >>= ofTag)

theorem length_encode (t : StateSyncUpsertType) : t.encode.length = t.length := by
  cases t <;> rfl

theorem reads (t : StateSyncUpsertType) : Reads decode t.encode t := by
  have htag : Reads (ofTag t.tag) [] t := by
    cases t <;> exact .done _
  have h := (reads_uint8 t.tag).bind htag
  rw [append_nil] at h
  have hlen : t.encode.length < 2 ^ 64 := by
    rw [length_encode, length]
    omega
  exact .inPayload h.run_eq (length_lt_of_encodeList hlen)

end StateSyncUpsertType

/-- The upserts of the first version. -/
structure StateSyncUpsertV0 where
  upsertType : StateSyncUpsertType
  data : List UInt8
  deriving DecidableEq

namespace StateSyncUpsertV0

def asV1 (u : StateSyncUpsertV0) : StateSyncUpsertV1 := ⟨u.upsertType, u.data⟩

/-- The data is a list of numbers. -/
def encode (u : StateSyncUpsertV0) : Bytes :=
  encodeList [u.upsertType.encode, encodeList (u.data.flatMap fun b => encodeUint b.toNat)].flatten

def length (u : StateSyncUpsertV0) : ℕ :=
  listLength [u.upsertType.length, listLength (u.data.map fun b => uintLength b.toNat).sum].sum

def decode : Decoder StateSyncUpsertV0 := decodeRecord do
  let upsertType ← StateSyncUpsertType.decode
  let data ← decodeVec decodeUInt8
  return { upsertType, data }

theorem length_encode (u : StateSyncUpsertV0) : u.encode.length = u.length := by
  simp only [encode, length, length_encodeList, flatten_cons, flatten_nil,
    length_append, length_nil, sum_cons, sum_nil, length_flatMap,
    length_encodeUint, StateSyncUpsertType.length_encode]

theorem reads {u : StateSyncUpsertV0} : Recovers decode u.encode u :=
  .record <| .bind (StateSyncUpsertType.reads u.upsertType).recovers <|
    .bind (.vec (fun b _ => (reads_uint8 b).recovers) fun _ _ => encodeUint_ne_nil _) <| .done _

end StateSyncUpsertV0

namespace StateSyncUpsertV1

def asV0 (u : StateSyncUpsertV1) : StateSyncUpsertV0 := ⟨u.upsertType, u.data⟩

/-- The data is a byte string. -/
def encode (u : StateSyncUpsertV1) : Bytes :=
  encodeList [u.upsertType.encode, encodeBytes u.data].flatten

def length (u : StateSyncUpsertV1) : ℕ := listLength [u.upsertType.length, bytesLength u.data].sum

def decode : Decoder StateSyncUpsertV1 := decodeRecord do
  let upsertType ← StateSyncUpsertType.decode
  let data ← decodeBytes false
  return { upsertType, data }

theorem length_encode (u : StateSyncUpsertV1) : u.encode.length = u.length := by
  simp only [encode, length, length_encodeList, flatten_cons, flatten_nil,
    length_append, length_nil, sum_cons, sum_nil, length_encodeBytes,
    StateSyncUpsertType.length_encode]

theorem reads {u : StateSyncUpsertV1} : Recovers decode u.encode u :=
  .record <| .bind (StateSyncUpsertType.reads u.upsertType).recovers <| .bind .string <| .done _

end StateSyncUpsertV1

/-! ## Responses -/

namespace StateSyncResponse

variable (y : StateSyncResponse)

/-- The upserts in the format of the version of the request. -/
def encodeUpserts : Bytes :=
  if STATESYNC_VERSION_V1 ≤ y.request.version then
    encodeList (y.response.flatMap StateSyncUpsertV1.encode)
  else encodeList ((y.response.map asV0).flatMap StateSyncUpsertV0.encode)

def lengthUpserts : ℕ :=
  if STATESYNC_VERSION_V1 ≤ y.request.version then
    listLength (y.response.map StateSyncUpsertV1.length).sum
  else listLength ((y.response.map asV0).map StateSyncUpsertV0.length).sum

def encode : Bytes :=
  encodeList [y.version.encode, encodeUint y.nonce.toNat, encodeUint y.responseIndex.toNat,
    y.request.encode, y.encodeUpserts, encodeUint y.responseN.toNat].flatten

def length : ℕ :=
  listLength [y.version.length, uintLength y.nonce.toNat, uintLength y.responseIndex.toNat,
    y.request.length, y.lengthUpserts, uintLength y.responseN.toNat].sum

/-- The upserts in the format of the version of the response. -/
def decodeUpserts (version : StateSyncVersion) : Decoder (List StateSyncUpsertV1) :=
  if STATESYNC_VERSION_V1 ≤ version then
    decodeLimitedVec MAX_UPSERTS_PER_RESPONSE StateSyncUpsertV1.decode
  else
    List.map StateSyncUpsertV0.asV1 <$>
      decodeLimitedVec MAX_UPSERTS_PER_RESPONSE StateSyncUpsertV0.decode

def decode : Decoder StateSyncResponse := inPayload do
  let version ← StateSyncVersion.decode
  let nonce ← decodeUInt64
  let responseIndex ← decodeUInt32
  let request ← StateSyncRequest.decode
  let response ← decodeUpserts version
  let responseN ← decodeUInt64
  return { version, nonce, responseIndex, request, response, responseN }

theorem length_encodeUpserts : y.encodeUpserts.length = y.lengthUpserts := by
  unfold encodeUpserts lengthUpserts
  split
  · rw [length_encodeList, length_flatMap]
    simp only [length_encode]
  · rw [length_encodeList, length_flatMap]
    simp only [StateSyncUpsertV0.length_encode]

theorem length_encode : y.encode.length = y.length := by
  rw [encode, length, length_encodeList, length_flatten, map_cons, map_cons,
    map_cons, map_cons, map_cons, map_cons, map_nil,
    StateSyncVersion.length_encode, length_encodeUint, length_encodeUint,
    StateSyncRequest.length_encode, length_encodeUpserts, length_encodeUint]

/-- The formats of the encoder and of the decoder agree if the versions do. -/
theorem reads_upserts (hversion : y.version = y.request.version)
    (hcount : y.response.length ≤ MAX_UPSERTS_PER_RESPONSE) :
    Recovers (decodeUpserts y.version) y.encodeUpserts y.response := by
  unfold decodeUpserts encodeUpserts
  rw [hversion]
  by_cases hv : STATESYNC_VERSION_V1 ≤ y.request.version
  · rw [if_pos hv, if_pos hv]
    exact .limitedVec (fun u _ => reads) (fun u _ => encodeList_ne_nil _) hcount
  rw [if_neg hv, if_neg hv]
  have hcount' : (y.response.map asV0).length ≤ MAX_UPSERTS_PER_RESPONSE := by
    rwa [length_map]
  intro hlen
  have h := Recovers.limitedVec (fun u _ => StateSyncUpsertV0.reads)
    (fun u _ => encodeList_ne_nil _) hcount' hlen
  have hmap := h.map (List.map StateSyncUpsertV0.asV1)
  rwa [map_map, show StateSyncUpsertV0.asV1 ∘ asV0 = id from rfl, map_id] at hmap

theorem reads (hversion : y.version = y.request.version)
    (hcompatible : y.request.version.isCompatible = true)
    (hcount : y.response.length ≤ MAX_UPSERTS_PER_RESPONSE) : Recovers decode y.encode y :=
  .inPayload <| .bind y.version.reads.recovers <| .bind (reads_uint64 y.nonce).recovers <|
    .bind (reads_uint32 y.responseIndex).recovers <|
    .bind (StateSyncRequest.reads hcompatible).recovers <|
    .bind (y.reads_upserts hversion hcount) <| .bind (reads_uint64 y.responseN).recovers <| .done _

end StateSyncResponse

/-! ## Messages -/

/-- `StateSyncNetworkMessage` -/
def STATESYNC_NETWORK_MESSAGE_NAME : Bytes :=
  ['S', 't', 'a', 't', 'e', 'S', 'y', 'n', 'c', 'N', 'e', 't', 'w', 'o', 'r', 'k', 'M', 'e', 's',
    's', 'a', 'g', 'e'].map fun c => UInt8.ofNat c.toNat

namespace StateSyncBadVersion

def encode (m : StateSyncBadVersion) : Bytes :=
  encodeList [m.minVersion.encode, m.maxVersion.encode].flatten

def length (m : StateSyncBadVersion) : ℕ :=
  listLength [m.minVersion.length, m.maxVersion.length].sum

def decode : Decoder StateSyncBadVersion := decodeRecord do
  let minVersion ← StateSyncVersion.decode
  let maxVersion ← StateSyncVersion.decode
  return { minVersion, maxVersion }

end StateSyncBadVersion

namespace StateSyncNetworkMessage

/-- The name, a tag and the contents. -/
def encodeTagged (tag : UInt8) (contents : List Bytes) : Bytes :=
  encodeList
    (encodeBytes STATESYNC_NETWORK_MESSAGE_NAME :: encodeUint tag.toNat :: contents).flatten

def lengthTagged (tag : UInt8) (contents : List ℕ) : ℕ :=
  listLength (bytesLength STATESYNC_NETWORK_MESSAGE_NAME :: uintLength tag.toNat :: contents).sum

def encode : StateSyncNetworkMessage → Bytes
  | .request r => encodeTagged 1 [r.encode]
  | .response y => encodeTagged 2 [y.encode]
  | .badVersion m => encodeTagged 3 [m.encode]
  | .completion sessionId => encodeTagged 4 [encodeList (encodeUint sessionId.toNat)]
  | .notWhitelisted => encodeTagged 5 []

def length : StateSyncNetworkMessage → ℕ
  | .request r => lengthTagged 1 [r.length]
  | .response y => lengthTagged 2 [y.length]
  | .badVersion m => lengthTagged 3 [m.length]
  | .completion sessionId => lengthTagged 4 [listLength (uintLength sessionId.toNat)]
  | .notWhitelisted => lengthTagged 5 []

def decodeTagged (tag : UInt8) : Decoder StateSyncNetworkMessage := do
  match tag with
  | 1 => return .request (← StateSyncRequest.decode)
  | 2 => return .response (← StateSyncResponse.decode)
  | 3 => return .badVersion (← StateSyncBadVersion.decode)
  | 4 => return .completion (← decodeRecord decodeUInt64)
  | 5 => return .notWhitelisted
  | _ => throw (.custom "failed to decode unknown StateSyncNetworkMessage")

def decode : Decoder StateSyncNetworkMessage := inPayload do
  let name ← decodeBytes false
  if name ≠ STATESYNC_NETWORK_MESSAGE_NAME then
    throw (.custom "expected to decode type StateSyncNetworkMessage")
  else
    let tag ← decodeUInt8
    decodeTagged tag

theorem length_encode_response (y : StateSyncResponse) :
    (encode (.response y)).length = length (.response y) := by
  rw [encode, length, encodeTagged, lengthTagged, length_encodeList, length_flatten,
    map_cons, map_cons, map_cons, map_nil, length_encodeBytes,
    length_encodeUint, StateSyncResponse.length_encode]

theorem reads_response {y : StateSyncResponse} (hversion : y.version = y.request.version)
    (hcompatible : y.request.version.isCompatible = true)
    (hcount : y.response.length ≤ MAX_UPSERTS_PER_RESPONSE) :
    Recovers decode (encode (.response y)) (.response y) :=
  .inPayload <| .bind .string <| .bind (reads_uint8 2).recovers <|
    .bind (y.reads hversion hcompatible hcount) (.done _)

end StateSyncNetworkMessage

end MonadBft.Statesync
