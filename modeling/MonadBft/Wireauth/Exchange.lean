import Mathlib.Logic.Relation
import MonadBft.Wireauth.Session

/-!
# Agreement of two sessions

A handshake between two honest peers succeeds, and gives them the same keys crosswise
(`handshake_agreement`). The sessions that they build from these then understand each other:
`Link` is a pair of sessions with the packets that each has sent and those of the other that it has
taken, in any order. Every packet that one end has encrypted is decrypted by the other to the same
plaintext, whenever it is not a replay (`Link.Delivers`).
-/

namespace MonadBft.Wireauth

open Function

variable {K P R : Type}

/-! ## Links -/

/-- Two sessions. The end `true` is the initiator. -/
structure Link (P : Type) where
  ends : Bool → TransportState P
  /-- What each end has sent, with the plaintexts. -/
  sent : Bool → List (Bytes × DataPacket)
  /-- The packets of the other end that each end has taken, by their number. -/
  taken : Bool → List ℕ

namespace Link

variable (C : Crypto K P) (G : Rng R K)

def start (initiator responder : TransportState P) : Link P where
  ends := fun e => if e then initiator else responder
  sent := fun _ => []
  taken := fun _ => []

/-- An end sends a packet, takes a packet of the other end, or changes its deadlines. -/
inductive Step : Link P → Link P → Prop
  | send (l : Link P) (e : Bool) (config : Config) (rng : R) (now : ℕ) (plaintext : Bytes) :
      Step l
        { l with
          ends := update l.ends e ((l.ends e).encrypt C G config rng now plaintext).1
          sent := update l.sent e (l.sent e ++
            [(plaintext, ((l.ends e).encrypt C G config rng now plaintext).2.2.1)]) }
  | take (l : Link P) (e : Bool) (config : Config) (now n : ℕ) {plaintext data : Bytes}
      {packet : DataPacket} {s : TransportState P} {timer : RenewedTimer} :
      (l.sent !e)[n]? = some (plaintext, packet) →
      (l.ends e).decrypt C config now packet = .ok (s, timer, data) →
      Step l
        { l with
          ends := update l.ends e s
          taken := update l.taken e (n :: l.taken e) }
  | touch (l : Link P) (e : Bool) (common : SessionState P) :
      Step l { l with ends := update l.ends e { l.ends e with common } }

/-- A packet that the filter lets pass is decrypted to its plaintext. The filter lets every packet
pass once, as long as it has not fallen behind the window. -/
structure Delivers (l : Link P) : Prop where
  decrypt : ∀ (e : Bool) (n : ℕ) (plaintext : Bytes) (packet : DataPacket) (config : Config)
    (now : ℕ), (l.sent !e)[n]? = some (plaintext, packet) →
    (l.ends e).replayFilter.check packet.header.nonce.toNat = .ok () →
    ∃ s timer, (l.ends e).decrypt C config now packet = .ok (s, timer, plaintext)
  check : ∀ (e : Bool) (n : ℕ) (plaintext : Bytes) (packet : DataPacket),
    (l.sent !e)[n]? = some (plaintext, packet) → (l.sent !e).length < U64_MAX →
    n ∉ l.taken e → (∀ m ∈ l.taken e, m + 1 < n + REPLAY_WINDOW_BITS) →
    (l.ends e).replayFilter.check packet.header.nonce.toNat = .ok ()

/-- What the packet of a plaintext is. -/
def IsPacket (key : Bytes) (n : ℕ) (plaintext : Bytes) (packet : DataPacket) : Prop :=
  packet.header.nonce = UInt64.ofNat n ∧
  (packet.data, packet.header.tag)
    = C.encryptInPlace key (cipherNonce packet.header.nonce.toNat) plaintext []

/-- The keys are crossed, packets are numbered, and the filters know what was taken. -/
structure Inv (l : Link P) : Prop where
  keys : ∀ e, (l.ends e).recvKey = (l.ends !e).sendKey
  nonce : ∀ e, (l.ends e).sendNonce = UInt64.ofNat (l.sent e).length
  packets : ∀ e n plaintext packet, (l.sent e)[n]? = some (plaintext, packet) →
    IsPacket C (l.ends e).sendKey n plaintext packet
  taken_lt : ∀ e, ∀ n ∈ l.taken e, n < (l.sent !e).length
  tracks : ∀ e, (l.sent !e).length < U64_MAX → (l.ends e).replayFilter.Tracks (l.taken e)

variable {C G} {l l' : Link P}

theorem inv_start {i j : UInt32} {keys keys' : TransportKeys} {common common' : SessionState P}
    (hsend : keys.sendKey = keys'.recvKey) (hrecv : keys.recvKey = keys'.sendKey) :
    Inv C (start (.new j keys.sendKey keys.recvKey common)
      (.new i keys'.sendKey keys'.recvKey common')) := by
  refine ⟨fun e => ?_, fun e => ?_, fun e n plaintext packet h => ?_, fun e n hn => ?_,
    fun e _ => ?_⟩
  · cases e
    · exact hsend.symm
    · exact hrecv
  · cases e <;> rfl
  · cases h
  · cases hn
  · cases e <;> exact ReplayFilter.tracks_new

theorem Step.keys_eq (hstep : Step C G l l') (e : Bool) :
    (l'.ends e).sendKey = (l.ends e).sendKey ∧ (l'.ends e).recvKey = (l.ends e).recvKey := by
  cases hstep with
  | send e' config rng now plaintext =>
    dsimp only
    rw [update_apply]
    split
    next h => exact h ▸ ⟨rfl, rfl⟩
    · exact ⟨rfl, rfl⟩
  | take e' config now n hsent hdecrypt =>
    dsimp only
    rw [update_apply]
    split
    next h =>
      obtain ⟨-, -, hreceived⟩ := TransportState.decrypt_eq_ok_iff.mp hdecrypt
      rw [← (Prod.mk.inj hreceived).1]
      exact h ▸ ⟨rfl, rfl⟩
    · exact ⟨rfl, rfl⟩
  | touch e' common =>
    dsimp only
    rw [update_apply]
    split
    next h => exact h ▸ ⟨rfl, rfl⟩
    · exact ⟨rfl, rfl⟩

/-- Packets are numbered in the order of sending. -/
theorem Inv.nonce_eq (h : Inv C l) {e : Bool} {n : ℕ} {plaintext : Bytes} {packet : DataPacket}
    (hsent : (l.sent e)[n]? = some (plaintext, packet)) (hlen : (l.sent e).length < U64_MAX) :
    packet.header.nonce.toNat = n := by
  have hn : n < (l.sent e).length := (List.getElem?_eq_some_iff.mp hsent).1
  have hsize : n < UInt64.size := by
    unfold U64_MAX at hlen
    unfold UInt64.size
    omega
  rw [(h.packets e n plaintext packet hsent).1, UInt64.toNat_ofNat_of_lt' hsize]

theorem Inv.send (h : Inv C l) (e : Bool) (config : Config) (rng : R) (now : ℕ)
    (plaintext : Bytes) (hkeys : ∀ e',
      (update l.ends e ((l.ends e).encrypt C G config rng now plaintext).1 e').recvKey
      = (update l.ends e ((l.ends e).encrypt C G config rng now plaintext).1 !e').sendKey) :
    Inv C
      { l with
        ends := update l.ends e ((l.ends e).encrypt C G config rng now plaintext).1
        sent := update l.sent e (l.sent e ++
          [(plaintext, ((l.ends e).encrypt C G config rng now plaintext).2.2.1)]) } := by
  have hmono : ∀ e', (l.sent e').length ≤ (update l.sent e (l.sent e ++
      [(plaintext, ((l.ends e).encrypt C G config rng now plaintext).2.2.1)]) e').length := by
    intro e'
    rw [update_apply]
    split
    next heq =>
      rw [heq, List.length_append]
      omega
    · exact le_rfl
  refine ⟨hkeys, fun e' => ?_, fun e' n plaintext' packet hsent => ?_, fun e' n hn => ?_,
    fun e' hlen => ?_⟩
  · dsimp only
    by_cases heq : e' = e
    · subst heq
      rw [update_self, update_self, List.length_append, List.length_singleton,
        UInt64.ofNat_add, ← h.nonce e']
      rfl
    · rw [update_of_ne heq, update_of_ne heq]
      exact h.nonce e'
  · dsimp only at hsent ⊢
    by_cases heq : e' = e
    · subst heq
      rw [update_self] at hsent ⊢
      rcases lt_or_ge n (l.sent e').length with hlt | hge
      · rw [List.getElem?_append_left hlt] at hsent
        exact h.packets e' n plaintext' packet hsent
      rw [List.getElem?_append_right hge] at hsent
      obtain ⟨hn, hpair⟩ := List.getElem?_eq_some_iff.mp hsent
      have hzero : n - (l.sent e').length = 0 := Nat.lt_one_iff.mp hn
      obtain ⟨rfl, rfl⟩ : plaintext = plaintext' ∧ _ = packet := by
        simpa [hzero] using hpair
      refine ⟨?_, rfl⟩
      rw [show n = (l.sent e').length by omega]
      exact h.nonce e'
    · rw [update_of_ne heq] at hsent ⊢
      exact h.packets e' n plaintext' packet hsent
  · exact (h.taken_lt e' n hn).trans_le (hmono !e')
  · have htracks := h.tracks e' ((hmono !e').trans_lt hlen)
    dsimp only
    rw [update_apply]
    split
    next heq =>
      subst heq
      exact htracks
    · exact htracks

/-- A session that changes in nothing but its filter and its deadlines. -/
theorem Inv.replace (h : Inv C l) (e : Bool) {s : TransportState P} {taken : Bool → List ℕ}
    (hsend : s.sendKey = (l.ends e).sendKey) (hrecv : s.recvKey = (l.ends e).recvKey)
    (hnonce : s.sendNonce = (l.ends e).sendNonce)
    (htaken : ∀ e', ∀ n ∈ taken e', n < (l.sent !e').length)
    (htracks : ∀ e', (l.sent !e').length < U64_MAX →
      (update l.ends e s e').replayFilter.Tracks (taken e')) :
    Inv C { l with ends := update l.ends e s, taken } := by
  have hends : ∀ e', (update l.ends e s e').sendKey = (l.ends e').sendKey ∧
      (update l.ends e s e').recvKey = (l.ends e').recvKey ∧
      (update l.ends e s e').sendNonce = (l.ends e').sendNonce := by
    intro e'
    rw [update_apply]
    split
    next heq => exact heq ▸ ⟨hsend, hrecv, hnonce⟩
    · exact ⟨rfl, rfl, rfl⟩
  refine ⟨fun e' => ?_, fun e' => ?_, fun e' n plaintext packet hsent => ?_, htaken, htracks⟩
  · exact (hends e').2.1.trans ((h.keys e').trans (hends !e').1.symm)
  · exact (hends e').2.2.trans (h.nonce e')
  · have hpacket := h.packets e' n plaintext packet hsent
    rwa [← (hends e').1] at hpacket

theorem Inv.step (h : Inv C l) (hstep : Step C G l l') : Inv C l' := by
  have hkeys : ∀ e, (l'.ends e).recvKey = (l'.ends !e).sendKey := fun e => by
    rw [(hstep.keys_eq e).2, (hstep.keys_eq !e).1]
    exact h.keys e
  cases hstep with
  | send e config rng now plaintext => exact h.send e config rng now plaintext hkeys
  | @take e config now n plaintext data packet s timer hsent hdecrypt =>
    obtain ⟨hcheck, -, hreceived⟩ := TransportState.decrypt_eq_ok_iff.mp hdecrypt
    obtain rfl := (Prod.mk.inj hreceived).1
    have hn : n < (l.sent !e).length := (List.getElem?_eq_some_iff.mp hsent).1
    refine h.replace e rfl rfl rfl (fun e' m hm => ?_) fun e' hlen => ?_
    · rw [update_apply] at hm
      split at hm
      next heq =>
        subst heq
        rcases List.mem_cons.mp hm with rfl | hm
        · exact hn
        · exact h.taken_lt e' m hm
      · exact h.taken_lt e' m hm
    · by_cases heq : e' = e
      · subst heq
        rw [update_self, update_self]
        have hnonce := h.nonce_eq hsent hlen
        rw [hnonce] at hcheck ⊢
        exact (h.tracks e' hlen).update (by omega) hcheck
      · rw [update_of_ne heq, update_of_ne heq]
        exact h.tracks e' hlen
  | touch e common =>
    refine h.replace e rfl rfl rfl h.taken_lt fun e' hlen => ?_
    rw [update_apply]
    split
    next heq => exact heq ▸ h.tracks e' hlen
    · exact h.tracks e' hlen

theorem Inv.run (h : Inv C l) (hrun : Relation.ReflTransGen (Step C G) l l') : Inv C l' := by
  induction hrun with
  | refl => exact h
  | tail _ hstep ih => exact ih.step hstep

theorem Inv.delivers (hC : C.Lawful) (h : Inv C l) : Delivers C l := by
  refine ⟨fun e n plaintext packet config now hsent hcheck => ?_,
    fun e n plaintext packet hsent hlen hnew hwindow => ?_⟩
  · obtain ⟨-, hpacket⟩ := h.packets (!e) n plaintext packet hsent
    have hdecrypt := hC.decrypt_encrypt (l.ends !e).sendKey
      (cipherNonce packet.header.nonce.toNat) plaintext []
    rw [← hpacket, ← h.keys e] at hdecrypt
    exact ⟨_, _, TransportState.decrypt_eq_ok_iff.mpr ⟨hcheck, hdecrypt, rfl⟩⟩
  · rw [h.nonce_eq hsent hlen, (h.tracks e hlen).check_iff]
    have hpos : 0 < n + REPLAY_WINDOW_BITS := Nat.add_pos_right n (by decide)
    exact ⟨hnew, ReplayFilter.limit_lt hpos hwindow⟩

end Link

/-! ## Agreement -/

/-- A handshake between honest peers succeeds on both sides. The responder learns the key and the
timestamp of the initiator, the keys are crossed, the indices are those of the other side, and the
sessions with these keys understand each other. -/
theorem handshake_agreement {C : Crypto K P} (hC : C.Lawful) (G : Rng R K)
    (initiatorStatic responderStatic initiatorEphemeral responderEphemeral : K)
    (timestamp : Tai64N) (i j : UInt32) (initiatorCookie responderCookie : Option Bytes)
    (psk : Bytes) :
    let init := sendHandshakeInit C initiatorEphemeral timestamp i initiatorStatic
      (C.pubkey responderStatic) initiatorCookie
    ∃ responder, acceptHandshakeInit C responderStatic init.1 = .ok (responder, timestamp) ∧
      responder.remoteStatic = C.pubkey initiatorStatic ∧
      let response := sendHandshakeResponse C responderEphemeral j responder psk responderCookie
      ∃ initiator keys,
        acceptHandshakeResponse C initiatorStatic response.1 init.2 psk = (initiator, .ok keys) ∧
        keys.sendKey = response.2.1.recvKey ∧ keys.recvKey = response.2.1.sendKey ∧
        initiator.receiverIndex = j ∧ response.2.2.receiverIndex = i ∧
        ∀ (common common' : SessionState P) (l : Link P),
          Relation.ReflTransGen (Link.Step C G)
            (.start (.new initiator.receiverIndex keys.sendKey keys.recvKey common)
              (.new response.2.2.receiverIndex response.2.1.sendKey response.2.1.recvKey common'))
            l → Link.Delivers C l := by
  refine ⟨_, acceptHandshakeInit_send hC initiatorEphemeral timestamp i initiatorStatic
    responderStatic initiatorCookie, rfl, _, _, acceptHandshakeResponse_send hC initiatorStatic
    responderEphemeral j psk responderCookie rfl rfl rfl, rfl, rfl, rfl, rfl,
    fun common common' l hrun => ?_⟩
  exact ((Link.inv_start rfl rfl).run hrun).delivers hC

theorem handshake_agreement_ideal :
    ∃ responder, acceptHandshakeInit Ideal.crypto 2
      (sendHandshakeInit Ideal.crypto 3 (.ofSystemTime 7) 5 1 2 (some [8])).1
        = .ok (responder, .ofSystemTime 7) ∧ responder.remoteStatic = 1 := by
  obtain ⟨responder, haccept, hstatic, -⟩ :=
    handshake_agreement Ideal.crypto_lawful Ideal.rng 1 2 3 4 (.ofSystemTime 7) 5 6 (some [8]) none []
  exact ⟨responder, haccept, hstatic⟩

end MonadBft.Wireauth
