import MonadBft.Bytes

/-!
# The wireauth handshake

Two peers that know each other's static public keys agree on keys for a session. The initiator
sends its static key and a timestamp encrypted (`sendHandshakeInit`), the responder reads them
(`acceptHandshakeInit`) and answers (`sendHandshakeResponse`), and the initiator checks the answer
(`acceptHandshakeResponse`). Both sides keep a transcript of what was sent, and a chaining key into
which the shared secrets are mixed. Where the code has one state with optional fields for both
roles, each role has its own state here, with the fields that are set in it.

The primitives are parameters (`Crypto`), and what is assumed of them are the laws of
`Crypto.Lawful`. The checks of an accepted message change the transcript of the initiator before
they fail: `acceptHandshakeResponse` returns the state it leaves behind.

On equal transcripts decryption inverts encryption (`Transcript.decrypt_encrypt`), which gives the
agreement of both sides, message by message (`acceptHandshakeInit_send`,
`acceptHandshakeResponse_send`).
-/

namespace MonadBft.Wireauth

open List

/-! ## Primitives -/

/-- The primitives, for key pairs `K` and public keys `P`. -/
structure Crypto (K P : Type) where
  pubkey : K → P
  bytesCompressed : P → Bytes
  fromSlice : Bytes → Option P
  ecdh : K → P → Bytes
  hash : Bytes → Bytes
  keyedHash : Bytes → Bytes → Bytes
  /-- `encrypt_in_place`: ciphertext and tag from a key, a nonce, data and associated data. -/
  encryptInPlace (key nonce data ad : Bytes) : Bytes × Bytes
  /-- `decrypt_in_place`: the data, if the tag is right. -/
  decryptInPlace (key nonce data tag ad : Bytes) : Option Bytes

variable {K P : Type}

/-- What is assumed of the primitives. -/
structure Crypto.Lawful (C : Crypto K P) : Prop where
  ecdh_comm : ∀ k k', C.ecdh k (C.pubkey k') = C.ecdh k' (C.pubkey k)
  decrypt_encrypt : ∀ key nonce data ad, C.decryptInPlace key nonce
    (C.encryptInPlace key nonce data ad).1 (C.encryptInPlace key nonce data ad).2 ad = some data
  /-- In place. -/
  length_encrypt : ∀ key nonce data ad, (C.encryptInPlace key nonce data ad).1.length = data.length
  fromSlice_bytesCompressed : ∀ p, C.fromSlice (C.bytesCompressed p) = some p

def ascii (chars : List Char) : Bytes := chars.map fun c => UInt8.ofNat c.toNat

/-- `Noise_IKpsk2_secp256k1_AEGIS128L_BLAKE3` -/
def CONSTRUCTION : Bytes :=
  ascii ['N', 'o', 'i', 's', 'e', '_', 'I', 'K', 'p', 's', 'k', '2', '_', 's', 'e', 'c', 'p', '2',
    '5', '6', 'k', '1', '_', 'A', 'E', 'G', 'I', 'S', '1', '2', '8', 'L', '_', 'B', 'L', 'A', 'K',
    'E', '3']

/-- `authenticated udp v1 -- monad` -/
def IDENTIFIER : Bytes :=
  ascii ['a', 'u', 't', 'h', 'e', 'n', 't', 'i', 'c', 'a', 't', 'e', 'd', ' ', 'u', 'd', 'p', ' ',
    'v', '1', ' ', '-', '-', ' ', 'm', 'o', 'n', 'a', 'd']

/-- `mac1----` -/
def LABEL_MAC1 : Bytes := ascii ['m', 'a', 'c', '1', '-', '-', '-', '-']

/-- `cookie--` -/
def LABEL_COOKIE : Bytes := ascii ['c', 'o', 'o', 'k', 'i', 'e', '-', '-']

/-- The first half of a hash, as a key. -/
def cipherKey (hash : Bytes) : Bytes := hash.take 16

/-- The first half of a hash, as a tag. -/
def macTag (hash : Bytes) : Bytes := hash.take 16

def zeros (n : ℕ) : Bytes := List.replicate n 0

def cipherNonce (n : ℕ) : Bytes := leBytes 8 n ++ zeros 8

inductive CryptoError where
  | macVerificationFailed
  | invalidKey
  deriving DecidableEq

inductive HandshakeError where
  | staticKeyDecryptionFailed (error : CryptoError)
  | timestampDecryptionFailed (error : CryptoError)
  | invalidTimestamp (nanoseconds : UInt32)
  | emptyMessageDecryptionFailed (error : CryptoError)
  deriving DecidableEq

/-! ## Timestamps -/

/-- Seconds of TAI and nanoseconds. -/
structure Tai64N where
  seconds : UInt64
  nanoseconds : UInt32
  nanoseconds_lt : nanoseconds.toNat < 1000000000
  deriving DecidableEq

namespace Tai64N

/-- The derived order, seconds first, is the order of these. -/
def toNanoseconds (t : Tai64N) : ℕ := t.seconds.toNat * 1000000000 + t.nanoseconds.toNat

instance : LE Tai64N := ⟨fun t t' => t.toNanoseconds ≤ t'.toNanoseconds⟩

instance (t t' : Tai64N) : Decidable (t ≤ t') :=
  inferInstanceAs (Decidable (t.toNanoseconds ≤ t'.toNanoseconds))

def max (t t' : Tai64N) : Tai64N := if t ≤ t' then t' else t

def TAI64_UNIX_EPOCH : ℕ := 37 + 2 ^ 62

/-- A system time is the number of nanoseconds since the Unix epoch. -/
def ofSystemTime (t : ℕ) : Tai64N where
  seconds := UInt64.ofNat (t / 1000000000 + TAI64_UNIX_EPOCH)
  nanoseconds := UInt32.ofNat (t % 1000000000)
  nanoseconds_lt := by
    have h : t % 1000000000 < 1000000000 := Nat.mod_lt _ (by omega)
    rw [UInt32.toNat_ofNat']
    exact (Nat.mod_le _ _).trans_lt h

/-- Big-endian. -/
def toBytes (t : Tai64N) : Bytes :=
  (leBytes 8 t.seconds.toNat).reverse ++ (leBytes 4 t.nanoseconds.toNat).reverse

def ofBytes (bytes : Bytes) : Except HandshakeError Tai64N :=
  let nanoseconds := UInt32.ofNat (leNat (bytes.drop 8).reverse)
  if h : nanoseconds.toNat < 1000000000 then
    .ok ⟨UInt64.ofNat (leNat (bytes.take 8).reverse), nanoseconds, h⟩
  else .error (.invalidTimestamp nanoseconds)

theorem ofBytes_toBytes (t : Tai64N) : ofBytes t.toBytes = .ok t := by
  have hlen : ((leBytes 8 t.seconds.toNat).reverse).length = 8 := by
    rw [length_reverse, length_leBytes]
  have hdrop : t.toBytes.drop 8 = (leBytes 4 t.nanoseconds.toNat).reverse := by
    rw [toBytes, drop_left' hlen]
  have htake : t.toBytes.take 8 = (leBytes 8 t.seconds.toNat).reverse := by
    rw [toBytes, take_left' hlen]
  have hnanoseconds : UInt32.ofNat (leNat (t.toBytes.drop 8).reverse) = t.nanoseconds := by
    rw [hdrop, reverse_reverse, leNat_leBytes t.nanoseconds.toNat_lt, UInt32.ofNat_toNat]
  have hseconds : UInt64.ofNat (leNat (t.toBytes.take 8).reverse) = t.seconds := by
    rw [htake, reverse_reverse, leNat_leBytes t.seconds.toNat_lt, UInt64.ofNat_toNat]
  unfold ofBytes
  simp only [hnanoseconds, hseconds]
  rw [dif_pos t.nanoseconds_lt]

end Tai64N

/-! ## Messages -/

def TYPE_HANDSHAKE_INITIATION : UInt8 := 1

def TYPE_HANDSHAKE_RESPONSE : UInt8 := 2

structure HandshakeInitiation where
  messageType : UInt8 := TYPE_HANDSHAKE_INITIATION
  reserved : Bytes := zeros 3
  senderIndex : UInt32
  ephemeralPublic : Bytes
  encryptedStatic : Bytes
  encryptedStaticTag : Bytes
  encryptedTimestamp : Bytes
  encryptedTimestampTag : Bytes
  mac1 : Bytes := zeros 16
  mac2 : Bytes := zeros 16
  deriving DecidableEq

structure HandshakeResponse where
  messageType : UInt8 := TYPE_HANDSHAKE_RESPONSE
  reserved : Bytes := zeros 3
  senderIndex : UInt32
  receiverIndex : UInt32
  ephemeralPublic : Bytes
  encryptedNothingTag : Bytes
  mac1 : Bytes := zeros 16
  mac2 : Bytes := zeros 16
  deriving DecidableEq

/-- Messages with authentication codes over what comes before them. -/
class MacMessage (M : Type) where
  mac1 : M → Bytes
  mac2 : M → Bytes
  mac1Input : M → Bytes
  mac2Input : M → Bytes

def HandshakeInitiation.mac1Input (msg : HandshakeInitiation) : Bytes :=
  [msg.messageType] ++ msg.reserved ++ leBytes 4 msg.senderIndex.toNat ++ msg.ephemeralPublic ++
    msg.encryptedStatic ++ msg.encryptedStaticTag ++ msg.encryptedTimestamp ++
    msg.encryptedTimestampTag

def HandshakeResponse.mac1Input (msg : HandshakeResponse) : Bytes :=
  [msg.messageType] ++ msg.reserved ++ leBytes 4 msg.senderIndex.toNat ++
    leBytes 4 msg.receiverIndex.toNat ++ msg.ephemeralPublic ++ msg.encryptedNothingTag

instance : MacMessage HandshakeInitiation where
  mac1 := HandshakeInitiation.mac1
  mac2 := HandshakeInitiation.mac2
  mac1Input := HandshakeInitiation.mac1Input
  mac2Input msg := msg.mac1Input ++ msg.mac1

instance : MacMessage HandshakeResponse where
  mac1 := HandshakeResponse.mac1
  mac2 := HandshakeResponse.mac2
  mac1Input := HandshakeResponse.mac1Input
  mac2Input msg := msg.mac1Input ++ msg.mac1

section

variable (C : Crypto K P) {remoteEphemeral : P}

/-! ## Authentication codes -/

def mac1For (staticPublic : P) (input : Bytes) : Bytes :=
  macTag (C.keyedHash (C.hash (LABEL_MAC1 ++ C.bytesCompressed staticPublic)) input)

def mac2For (staticPublic : P) (input cookie : Bytes) : Bytes :=
  macTag (C.keyedHash (C.hash (LABEL_COOKIE ++ C.bytesCompressed staticPublic)) (input ++ cookie))

def verifyMac1 {M : Type} [MacMessage M] (message : M) (staticPublic : P) :
    Except CryptoError Unit :=
  if mac1For C staticPublic (MacMessage.mac1Input message) = MacMessage.mac1 message then .ok ()
  else .error .macVerificationFailed

def verifyMac2 {M : Type} [MacMessage M] (message : M) (staticPublic : P) (cookie : Bytes) :
    Except CryptoError Unit :=
  if MacMessage.mac2 message = mac2For C staticPublic (MacMessage.mac2Input message) cookie then
    .ok ()
  else .error .macVerificationFailed

/-- Fill in the codes, the second one if there is a cookie for it. -/
def HandshakeInitiation.withMacs (msg : HandshakeInitiation) (staticPublic : P)
    (storedCookie : Option Bytes) : HandshakeInitiation :=
  let msg := { msg with mac1 := mac1For C staticPublic msg.mac1Input }
  { msg with
    mac2 := storedCookie.elim msg.mac2 (mac2For C staticPublic (MacMessage.mac2Input msg)) }

/-- Fill in the codes, the second one if there is a cookie for it. -/
def HandshakeResponse.withMacs (msg : HandshakeResponse) (staticPublic : P)
    (storedCookie : Option Bytes) : HandshakeResponse :=
  let msg := { msg with mac1 := mac1For C staticPublic msg.mac1Input }
  { msg with
    mac2 := storedCookie.elim msg.mac2 (mac2For C staticPublic (MacMessage.mac2Input msg)) }

theorem HandshakeResponse.verifyMac1_withMacs (msg : HandshakeResponse) (staticPublic : P)
    (storedCookie : Option Bytes) :
    verifyMac1 C (msg.withMacs C staticPublic storedCookie) staticPublic = .ok () :=
  if_pos rfl

/-! ## Transcripts -/

/-- What both roles have of the handshake. -/
structure Transcript where
  chainingKey : Bytes
  hash : Bytes
  deriving DecidableEq

namespace Transcript

/-- Before the first message to a responder. -/
def start (responderStaticPublic : P) : Transcript where
  chainingKey := C.hash CONSTRUCTION
  hash := C.hash (C.hash (C.hash CONSTRUCTION ++ IDENTIFIER)
    ++ C.bytesCompressed responderStaticPublic)

variable (t : Transcript)

def mixHash (data : Bytes) : Transcript := { t with hash := C.hash (t.hash ++ data) }

def mixKey (input : Bytes) : Transcript :=
  { t with chainingKey := C.keyedHash (C.keyedHash t.chainingKey input) [0x1] }

/-- The key that comes with mixing in a secret. -/
def keyFor (input : Bytes) : Bytes :=
  C.keyedHash (C.keyedHash t.chainingKey input) ((t.mixKey C input).chainingKey ++ [0x2])

/-- Mix in a secret and encrypt under the key that comes with it. -/
def encrypt (secret plaintext : Bytes) : Transcript × Bytes × Bytes :=
  let (ciphertext, tag) :=
    C.encryptInPlace (cipherKey (t.keyFor C secret)) (cipherNonce 0) plaintext t.hash
  ((t.mixKey C secret).mixHash C (ciphertext ++ tag), ciphertext, tag)

/-- Mix in a secret and decrypt under the key that comes with it. -/
def decrypt (secret ciphertext tag : Bytes) : Option (Transcript × Bytes) :=
  (C.decryptInPlace (cipherKey (t.keyFor C secret)) (cipherNonce 0) ciphertext tag t.hash).map
    fun plaintext => ((t.mixKey C secret).mixHash C (ciphertext ++ tag), plaintext)

/-- Mix in the pre-shared key. The second component is the key that comes with it. -/
def mixPsk (psk : Bytes) : Transcript × Bytes :=
  let temp := C.keyedHash t.chainingKey psk
  let temp2 := C.keyedHash temp ((t.mixKey C psk).chainingKey ++ [0x2])
  ((t.mixKey C psk).mixHash C temp2, C.keyedHash temp (temp2 ++ [0x3]))

/-- What the response mixes in, before it is authenticated. -/
def mixResponse (ephemeralPublic ecdhEe ecdhSe psk : Bytes) : Transcript × Bytes :=
  ((((t.mixHash C ephemeralPublic).mixKey C ephemeralPublic).mixKey C ecdhEe).mixKey C
    ecdhSe).mixPsk C psk

end Transcript

/-! ## The handshake -/

structure TransportKeys where
  sendKey : Bytes
  recvKey : Bytes
  deriving DecidableEq

def deriveTransportKeys (chainingKey : Bytes) (isInitiator : Bool) : TransportKeys :=
  let temp1 := C.keyedHash chainingKey []
  let temp2 := C.keyedHash temp1 [0x1]
  let temp3 := C.keyedHash temp1 (temp2 ++ [0x2])
  if isInitiator then ⟨cipherKey temp2, cipherKey temp3⟩ else ⟨cipherKey temp3, cipherKey temp2⟩

/-- `HandshakeState` of the initiator. -/
structure InitiatorHandshake (K P : Type) where
  transcript : Transcript
  ephemeralPrivate : K
  remoteEphemeral : Option P
  senderIndex : UInt32
  receiverIndex : UInt32
  deriving DecidableEq

/-- `HandshakeState` of the responder. -/
structure ResponderHandshake (P : Type) where
  transcript : Transcript
  remoteEphemeral : P
  remoteStatic : P
  senderIndex : UInt32
  receiverIndex : UInt32
  deriving DecidableEq

def sendHandshakeInit (ephemeral : K) (timestamp : Tai64N) (localSessionIndex : UInt32)
    (initiatorStatic : K) (responderStaticPublic : P) (storedCookie : Option Bytes) :
    HandshakeInitiation × InitiatorHandshake K P :=
  let ephemeralPublic := C.bytesCompressed (C.pubkey ephemeral)
  let t := ((Transcript.start C responderStaticPublic).mixHash C ephemeralPublic).mixKey C
    ephemeralPublic
  let (t, encryptedStatic, encryptedStaticTag) := t.encrypt C (C.ecdh ephemeral responderStaticPublic)
    (C.bytesCompressed (C.pubkey initiatorStatic))
  let (t, encryptedTimestamp, encryptedTimestampTag) :=
    t.encrypt C (C.ecdh initiatorStatic responderStaticPublic) timestamp.toBytes
  let msg : HandshakeInitiation :=
    { senderIndex := localSessionIndex, ephemeralPublic, encryptedStatic, encryptedStaticTag,
      encryptedTimestamp, encryptedTimestampTag }
  (msg.withMacs C responderStaticPublic storedCookie,
    { transcript := t, ephemeralPrivate := ephemeral, remoteEphemeral := none,
      senderIndex := localSessionIndex, receiverIndex := 0 })

def acceptHandshakeInit (responderStatic : K) (msg : HandshakeInitiation) :
    Except HandshakeError (ResponderHandshake P × Tai64N) :=
  match C.fromSlice msg.ephemeralPublic with
  | none => .error (.staticKeyDecryptionFailed .invalidKey)
  | some remoteEphemeral =>
    let t := ((Transcript.start C (C.pubkey responderStatic)).mixHash C msg.ephemeralPublic).mixKey C
      msg.ephemeralPublic
    match t.decrypt C (C.ecdh responderStatic remoteEphemeral) msg.encryptedStatic
        msg.encryptedStaticTag with
    | none => .error (.staticKeyDecryptionFailed .macVerificationFailed)
    | some (t, static) =>
      match C.fromSlice static with
      | none => .error (.staticKeyDecryptionFailed .invalidKey)
      | some remoteStatic =>
        match t.decrypt C (C.ecdh responderStatic remoteStatic) msg.encryptedTimestamp
            msg.encryptedTimestampTag with
        | none => .error (.timestampDecryptionFailed .macVerificationFailed)
        | some (t, bytes) =>
          (Tai64N.ofBytes bytes).map fun timestamp =>
            ({ transcript := t, remoteEphemeral, remoteStatic, senderIndex := 0,
               receiverIndex := msg.senderIndex }, timestamp)

def sendHandshakeResponse (ephemeral : K) (localSessionIndex : UInt32)
    (state : ResponderHandshake P) (psk : Bytes) (storedCookie : Option Bytes) :
    HandshakeResponse × TransportKeys × ResponderHandshake P :=
  let ephemeralPublic := C.bytesCompressed (C.pubkey ephemeral)
  let (t, key) := state.transcript.mixResponse C ephemeralPublic
    (C.ecdh ephemeral state.remoteEphemeral) (C.ecdh ephemeral state.remoteStatic) psk
  let encryptedNothingTag := (C.encryptInPlace (cipherKey key) (cipherNonce 0) [] t.hash).2
  let t := t.mixHash C encryptedNothingTag
  let msg : HandshakeResponse :=
    { senderIndex := localSessionIndex, receiverIndex := state.receiverIndex, ephemeralPublic,
      encryptedNothingTag }
  (msg.withMacs C state.remoteStatic storedCookie, deriveTransportKeys C t.chainingKey false,
    { state with transcript := t, senderIndex := localSessionIndex })

/-- The state changes whether the response is accepted or not. -/
def acceptHandshakeResponse (initiatorStatic : K) (msg : HandshakeResponse)
    (state : InitiatorHandshake K P) (psk : Bytes) :
    InitiatorHandshake K P × Except HandshakeError TransportKeys :=
  let state := { state with receiverIndex := msg.senderIndex }
  match C.fromSlice msg.ephemeralPublic with
  | none => (state, .error (.staticKeyDecryptionFailed .invalidKey))
  | some remoteEphemeral =>
    let (t, key) := state.transcript.mixResponse C msg.ephemeralPublic
      (C.ecdh state.ephemeralPrivate remoteEphemeral) (C.ecdh initiatorStatic remoteEphemeral) psk
    let state :=
      { state with
        remoteEphemeral := some remoteEphemeral
        transcript := t.mixHash C msg.encryptedNothingTag }
    match C.decryptInPlace (cipherKey key) (cipherNonce 0) [] msg.encryptedNothingTag t.hash with
    | none => (state, .error (.emptyMessageDecryptionFailed .macVerificationFailed))
    | some _ => (state, .ok (deriveTransportKeys C state.transcript.chainingKey true))

/-- What an initiation is accepted for. -/
theorem acceptHandshakeInit_eq_ok {responderStatic : K} {msg : HandshakeInitiation}
    {remoteStatic : P} {t t' : Transcript} {static bytes : Bytes} {timestamp : Tai64N}
    (hephemeral : C.fromSlice msg.ephemeralPublic = some remoteEphemeral)
    (hstatic : Transcript.decrypt C
      (((Transcript.start C (C.pubkey responderStatic)).mixHash C msg.ephemeralPublic).mixKey C
        msg.ephemeralPublic)
      (C.ecdh responderStatic remoteEphemeral) msg.encryptedStatic msg.encryptedStaticTag
      = some (t, static)) (hkey : C.fromSlice static = some remoteStatic)
    (hstamp : t.decrypt C (C.ecdh responderStatic remoteStatic) msg.encryptedTimestamp
      msg.encryptedTimestampTag = some (t', bytes))
    (htimestamp : Tai64N.ofBytes bytes = .ok timestamp) :
    acceptHandshakeInit C responderStatic msg
      = .ok (⟨t', remoteEphemeral, remoteStatic, 0, msg.senderIndex⟩, timestamp) := by
  unfold acceptHandshakeInit
  rw [hephemeral]
  dsimp only
  rw [hstatic]
  dsimp only
  rw [hkey]
  dsimp only
  rw [hstamp]
  dsimp only
  rw [htimestamp]
  rfl

/-- What a response is accepted for. -/
theorem acceptHandshakeResponse_eq_ok {initiatorStatic : K} {msg : HandshakeResponse}
    {state : InitiatorHandshake K P} {psk plaintext : Bytes} {mixed : Transcript × Bytes}
    (hephemeral : C.fromSlice msg.ephemeralPublic = some remoteEphemeral)
    (hmixed : state.transcript.mixResponse C msg.ephemeralPublic
      (C.ecdh state.ephemeralPrivate remoteEphemeral) (C.ecdh initiatorStatic remoteEphemeral) psk
      = mixed)
    (htag : C.decryptInPlace (cipherKey mixed.2) (cipherNonce 0) [] msg.encryptedNothingTag
      mixed.1.hash = some plaintext) :
    acceptHandshakeResponse C initiatorStatic msg state psk
      = ({ state with
           transcript := mixed.1.mixHash C msg.encryptedNothingTag
           remoteEphemeral := some remoteEphemeral
           receiverIndex := msg.senderIndex },
        .ok (deriveTransportKeys C mixed.1.chainingKey true)) := by
  unfold acceptHandshakeResponse
  rw [hephemeral]
  dsimp only
  rw [hmixed, htag]
  rfl

/-! ## Agreement -/

section Agreement

variable {C} (hC : C.Lawful)

include hC

theorem Crypto.Lawful.decrypt_nothing (key nonce ad : Bytes) :
    C.decryptInPlace key nonce [] (C.encryptInPlace key nonce [] ad).2 ad = some [] := by
  have h := hC.decrypt_encrypt key nonce [] ad
  rwa [length_eq_zero_iff.mp (hC.length_encrypt key nonce [] ad)] at h

theorem Transcript.decrypt_encrypt (t : Transcript) (secret plaintext : Bytes) :
    t.decrypt C secret (t.encrypt C secret plaintext).2.1 (t.encrypt C secret plaintext).2.2
      = some ((t.encrypt C secret plaintext).1, plaintext) := by
  have h := hC.decrypt_encrypt (cipherKey (t.keyFor C secret)) (cipherNonce 0) plaintext t.hash
  change Option.map _ (C.decryptInPlace _ _ (C.encryptInPlace _ _ _ _).1
    (C.encryptInPlace _ _ _ _).2 _) = _
  rw [h]
  rfl

variable (ephemeral : K) (timestamp : Tai64N) (i : UInt32) (initiatorStatic responderStatic : K)
  (cookie : Option Bytes)

/-- The responder has the transcript of the initiator, and knows its key and its timestamp. -/
theorem acceptHandshakeInit_send :
    acceptHandshakeInit C responderStatic
        (sendHandshakeInit C ephemeral timestamp i initiatorStatic (C.pubkey responderStatic) cookie).1
      = .ok
        ({ transcript :=
             (sendHandshakeInit C ephemeral timestamp i initiatorStatic (C.pubkey responderStatic)
               cookie).2.transcript
           remoteEphemeral := C.pubkey ephemeral
           remoteStatic := C.pubkey initiatorStatic
           senderIndex := 0
           receiverIndex := i }, timestamp) := by
  set ephemeralPublic := C.bytesCompressed (C.pubkey ephemeral)
  set t := ((Transcript.start C (C.pubkey responderStatic)).mixHash C ephemeralPublic).mixKey C
    ephemeralPublic with ht
  set static := t.encrypt C (C.ecdh ephemeral (C.pubkey responderStatic))
    (C.bytesCompressed (C.pubkey initiatorStatic)) with hs
  have hstatic : t.decrypt C (C.ecdh responderStatic (C.pubkey ephemeral)) static.2.1 static.2.2
      = some (static.1, C.bytesCompressed (C.pubkey initiatorStatic)) := by
    rw [hC.ecdh_comm, hs]
    exact Transcript.decrypt_encrypt hC _ _ _
  set stamp := static.1.encrypt C (C.ecdh initiatorStatic (C.pubkey responderStatic))
    timestamp.toBytes with hstamped
  have hstamp : static.1.decrypt C (C.ecdh responderStatic (C.pubkey initiatorStatic)) stamp.2.1
      stamp.2.2 = some (stamp.1, timestamp.toBytes) := by
    rw [hC.ecdh_comm, hstamped]
    exact Transcript.decrypt_encrypt hC _ _ _
  exact acceptHandshakeInit_eq_ok C (hC.fromSlice_bytesCompressed _) hstatic
    (hC.fromSlice_bytesCompressed _) hstamp timestamp.ofBytes_toBytes

/-- The keys that come with a response are those of the other role. -/
theorem acceptHandshakeResponse_send (responderEphemeral : K) (j : UInt32) (psk : Bytes)
    (cookie : Option Bytes) {initiator : InitiatorHandshake K P} {responder : ResponderHandshake P}
    (htranscript : responder.transcript = initiator.transcript)
    (hephemeral : responder.remoteEphemeral = C.pubkey initiator.ephemeralPrivate)
    (hstatic : responder.remoteStatic = C.pubkey initiatorStatic) :
    acceptHandshakeResponse C initiatorStatic
        (sendHandshakeResponse C responderEphemeral j responder psk cookie).1 initiator psk
      = ({ initiator with
           transcript :=
             (sendHandshakeResponse C responderEphemeral j responder psk cookie).2.2.transcript
           remoteEphemeral := some (C.pubkey responderEphemeral)
           receiverIndex := j },
        .ok
          ⟨(sendHandshakeResponse C responderEphemeral j responder psk cookie).2.1.recvKey,
            (sendHandshakeResponse C responderEphemeral j responder psk cookie).2.1.sendKey⟩) := by
  have hmixed : responder.transcript.mixResponse C (C.bytesCompressed (C.pubkey responderEphemeral))
      (C.ecdh responderEphemeral responder.remoteEphemeral)
      (C.ecdh responderEphemeral responder.remoteStatic) psk
      = initiator.transcript.mixResponse C (C.bytesCompressed (C.pubkey responderEphemeral))
        (C.ecdh initiator.ephemeralPrivate (C.pubkey responderEphemeral))
        (C.ecdh initiatorStatic (C.pubkey responderEphemeral)) psk := by
    rw [htranscript, hephemeral, hstatic, hC.ecdh_comm, hC.ecdh_comm responderEphemeral]
  unfold sendHandshakeResponse
  dsimp only
  rw [hmixed]
  exact acceptHandshakeResponse_eq_ok C (hC.fromSlice_bytesCompressed _) rfl
    (hC.decrypt_nothing _ _ _)

end Agreement

end

end MonadBft.Wireauth
