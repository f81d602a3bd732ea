import MonadBft.Wireauth.Handshake
import MonadBft.Wireauth.ReplayFilter

/-!
# Wireauth sessions

Once it is established a session is a transport session: that of the initiator when it has accepted
the response, and that of the responder when it has received the first packet. A `SessionState` has
its deadlines.

Times are nanoseconds since the start. Random numbers and key pairs are drawn from a generator
(`Rng`) whose state is passed along. The deadlines of a session are never all unset when the code
asks for the next one, so `nextDeadline` falls back to the deadline that was just set.
-/

namespace MonadBft.Wireauth

variable {K P R : Type}

/-! ## Surroundings -/

inductive IpAddr where
  | v4 (octets : ByteArrayN 4)
  | v6 (octets : ByteArrayN 16)
  deriving DecidableEq

structure SocketAddr where
  ip : IpAddr
  port : UInt16
  deriving DecidableEq

/-- A generator of random numbers, with states `R`. -/
structure Rng (R K : Type) where
  /-- `KeyPair::generate` -/
  generate : R → K × R
  nextU64 : R → ℕ × R
  fillBytes : ℕ → R → Bytes × R

structure Config where
  sessionTimeout : ℕ
  sessionTimeoutJitter : ℕ
  keepaliveInterval : ℕ
  keepaliveJitter : ℕ
  rekeyInterval : ℕ
  rekeyJitter : ℕ
  maxSessionDuration : ℕ
  handshakeCookieUnverifiedRateLimit : ℕ
  handshakeCookieVerifiedRateLimit : ℕ
  handshakeRateResetInterval : ℕ
  connectRateLimit : ℕ
  connectRateResetInterval : ℕ
  cookieRefreshDuration : ℕ
  lowWatermarkSessions : ℕ
  highWatermarkSessions : ℕ
  maxSessionsPerIp : ℕ
  ipRateLimitWindow : ℕ
  ipHistoryCapacity : ℕ
  psk : Bytes
  maxInitiatedSessions : ℕ
  maxBufferedBytesPerSession : ℕ
  gcIdleTimeout : ℕ
  maxExpiredTimersPerTick : ℕ

/-- The defaults, in nanoseconds. -/
def Config.default : Config where
  sessionTimeout := 10 * 10 ^ 9
  sessionTimeoutJitter := 10 ^ 9
  keepaliveInterval := 3 * 10 ^ 9
  keepaliveJitter := 300 * 10 ^ 6
  rekeyInterval := 6 * 60 * 60 * 10 ^ 9
  rekeyJitter := 60 * 10 ^ 9
  maxSessionDuration := (6 * 60 * 60 + 5 * 60) * 10 ^ 9
  handshakeCookieUnverifiedRateLimit := 300
  handshakeCookieVerifiedRateLimit := 300
  handshakeRateResetInterval := 10 ^ 9
  connectRateLimit := 300
  connectRateResetInterval := 10 ^ 9
  cookieRefreshDuration := 120 * 10 ^ 9
  lowWatermarkSessions := 5000
  highWatermarkSessions := 40000
  maxSessionsPerIp := 4
  ipRateLimitWindow := 10 * 10 ^ 9
  ipHistoryCapacity := 1000000
  psk := zeros 32
  maxInitiatedSessions := 1000
  maxBufferedBytesPerSession := 128 * 1024
  gcIdleTimeout := 120 * 10 ^ 9
  maxExpiredTimersPerTick := 10000

/-- Some milliseconds are added. -/
def addJitter (G : Rng R K) (rng : R) (base jitter : ℕ) : ℕ × R :=
  let (n, rng) := G.nextU64 rng
  (base + n % (jitter / 10 ^ 6 + 1) * 10 ^ 6, rng)

/-! ## Packets and errors -/

def TYPE_DATA : UInt8 := 4

structure DataPacketHeader where
  messageType : UInt8 := TYPE_DATA
  reserved : Bytes := zeros 3
  receiverIndex : UInt32
  nonce : UInt64
  tag : Bytes
  deriving DecidableEq

structure DataPacket where
  header : DataPacketHeader
  data : Bytes
  deriving DecidableEq

inductive CookieError where
  | cookieDecryptionFailed (error : CryptoError)
  | invalidCookieMac (error : CryptoError)
  deriving DecidableEq

inductive SessionError where
  | handshakeError (error : HandshakeError)
  | invalidMac (error : CryptoError)
  | invalidCookie (error : CookieError)
  | nonce (error : NonceError)
  deriving DecidableEq

/-! ## What sessions have in common -/

structure SessionState (P : Type) where
  keepaliveDeadline : Option ℕ := none
  rekeyDeadline : Option ℕ := none
  sessionTimeoutDeadline : Option ℕ := none
  maxSessionDurationDeadline : Option ℕ := none
  gcDeadline : Option ℕ := none
  storedCookie : Option Bytes := none
  lastHandshakeMac1 : Option Bytes := none
  retryAttempts : ℕ
  initiatorTimestamp : Option Tai64N
  remoteAddr : SocketAddr
  remotePublicKey : P
  localIndex : UInt32
  created : ℕ
  isInitiator : Bool
  deriving DecidableEq

structure RenewedTimer where
  previous : Option ℕ
  current : ℕ
  deriving DecidableEq

namespace SessionState

variable (s : SessionState P)

def resetKeepalive (now timer : ℕ) : SessionState P :=
  { s with keepaliveDeadline := some (now + timer) }

def resetSessionTimeout (now timer : ℕ) : SessionState P :=
  { s with sessionTimeoutDeadline := some (now + timer) }

def resetGcDeadline (now timer : ℕ) : SessionState P := { s with gcDeadline := some (now + timer) }

def deadlines : List ℕ :=
  [s.keepaliveDeadline, s.rekeyDeadline, s.sessionTimeoutDeadline, s.maxSessionDurationDeadline,
    s.gcDeadline].filterMap id

def getNextDeadline : Option ℕ := s.deadlines.min?

/-- The next deadline of a session that has one. -/
def nextDeadline (fallback : ℕ) : ℕ := s.getNextDeadline.getD fallback

end SessionState

/-! ## Transport sessions -/

structure TransportState (P : Type) where
  remoteIndex : UInt32
  sendKey : Bytes
  sendNonce : UInt64
  recvKey : Bytes
  replayFilter : ReplayFilter
  common : SessionState P

namespace TransportState

def new (remoteIndex : UInt32) (sendKey recvKey : Bytes) (common : SessionState P) :
    TransportState P where
  remoteIndex
  sendKey
  sendNonce := 0
  recvKey
  replayFilter := .new
  common

section

variable (C : Crypto K P) (G : Rng R K) (config : Config) (s : TransportState P)

def encrypt (rng : R) (now : ℕ) (plaintext : Bytes) :
    TransportState P × R × DataPacket × RenewedTimer :=
  let (data, tag) := C.encryptInPlace s.sendKey (cipherNonce s.sendNonce.toNat) plaintext []
  let header : DataPacketHeader := { receiverIndex := s.remoteIndex, nonce := s.sendNonce, tag }
  let common :=
    if plaintext.isEmpty then s.common else s.common.resetGcDeadline now config.gcIdleTimeout
  let (timer, rng) := addJitter G rng config.keepaliveInterval config.keepaliveJitter
  let previous := common.keepaliveDeadline
  let common := common.resetKeepalive now timer
  ({ s with sendNonce := s.sendNonce + 1, common }, rng, ⟨header, data⟩,
    { previous, current := common.nextDeadline (now + timer) })

/-- A packet with this counter and these data has been authenticated. -/
def received (now counter : ℕ) (data : Bytes) : TransportState P × RenewedTimer :=
  let common := if data.isEmpty then s.common else s.common.resetGcDeadline now config.gcIdleTimeout
  let previous := common.sessionTimeoutDeadline
  let common := common.resetSessionTimeout now config.sessionTimeout
  ({ s with replayFilter := s.replayFilter.update counter, common },
    { previous, current := common.nextDeadline (now + config.sessionTimeout) })

/-- Nothing changes if the packet is refused. -/
def decrypt (now : ℕ) (packet : DataPacket) :
    Except SessionError (TransportState P × RenewedTimer × Bytes) :=
  let counter := packet.header.nonce.toNat
  match s.replayFilter.check counter with
  | .error e => .error (.nonce e)
  | .ok _ =>
    match C.decryptInPlace s.recvKey (cipherNonce counter) packet.data packet.header.tag [] with
    | none => .error (.invalidMac .macVerificationFailed)
    | some data =>
      let (s, timer) := s.received config now counter data
      .ok (s, timer, data)

variable {C config s} in
theorem decrypt_eq_ok_iff {now : ℕ} {packet : DataPacket} {s' : TransportState P}
    {timer : RenewedTimer} {data : Bytes} :
    s.decrypt C config now packet = .ok (s', timer, data) ↔
      s.replayFilter.check packet.header.nonce.toNat = .ok () ∧
      C.decryptInPlace s.recvKey (cipherNonce packet.header.nonce.toNat) packet.data
        packet.header.tag [] = some data ∧
      s.received config now packet.header.nonce.toNat data = (s', timer) := by
  unfold decrypt
  dsimp only
  cases hcheck : s.replayFilter.check packet.header.nonce.toNat with
  | error e => simp
  | ok u =>
    cases hdata : C.decryptInPlace s.recvKey (cipherNonce packet.header.nonce.toNat) packet.data
      packet.header.tag [] with
    | none => simp
    | some data' =>
      simp only [Except.ok.injEq, Prod.mk.injEq, Option.some.injEq, true_and]
      constructor
      · rintro ⟨rfl, rfl, rfl⟩
        exact ⟨rfl, rfl⟩
      · rintro ⟨rfl, hreceived⟩
        rw [hreceived]
        exact ⟨rfl, rfl, rfl⟩

end

end TransportState

/-! ## An instance -/

namespace Ideal

/-- Primitives that lose nothing: a hash is what was hashed, and a tag what was authenticated. -/
def crypto : Crypto UInt8 UInt8 where
  pubkey k := k
  bytesCompressed p := [p]
  fromSlice
    | [p] => some p
    | _ => none
  ecdh k p := [k * p]
  hash data := data
  keyedHash key data := data ++ key
  encryptInPlace key nonce data ad := (data, key ++ nonce ++ data ++ ad)
  decryptInPlace key nonce data tag ad :=
    if tag = key ++ nonce ++ data ++ ad then some data else none

theorem crypto_lawful : crypto.Lawful where
  ecdh_comm k k' := congrArg (fun p => [p]) (UInt8.mul_comm k k')
  decrypt_encrypt _ _ _ _ := if_pos rfl
  length_encrypt _ _ _ _ := rfl
  fromSlice_bytesCompressed _ := rfl

/-- A generator that counts. -/
def rng : Rng ℕ UInt8 where
  generate n := (UInt8.ofNat n, n + 1)
  nextU64 n := (n, n + 1)
  fillBytes len n := (List.replicate len (UInt8.ofNat n), n + 1)

end Ideal

end MonadBft.Wireauth
