import Mathlib.Data.FinEnum
import Mathlib.Data.Nat.Digits.Lemmas
import MonadBft.Bytes

/-!
# Recursive length prefix

The byte format of Ethereum: an item is a byte string or a list of items, and starts with a
header that tells which and how long. Numbers are byte strings, the highest byte first and
without leading zeros; a byte below 128 stands for itself; other encodings of the same item
are refused.

A decoder takes an item off the front of a buffer. `Reads d bs a`: from a buffer that starts
with `bs`, the decoder `d` returns `a` and leaves the rest. Decoders that read parts one after
the other read their concatenation (`Reads.bind`), and what is read from the payload of a list
is read from the list: by its own decoder (`Recovers.inPayload`), as the fields of a record
(`Recovers.record`, `Recovers.trailing` with an optional last field), or item by item
(`Recovers.limitedVec`). Lengths are machine words, so what is read is what can be addressed
(`Recovers`).
-/

namespace MonadBft.Rlp

open List

inductive Error where
  | inputTooShort
  | overflow
  | leadingZero
  | nonCanonicalSingleByte
  | nonCanonicalSize
  | unexpectedLength
  | unexpectedString
  | unexpectedList
  | listLengthMismatch (expected got : ℕ)
  | custom (message : String)
  deriving DecidableEq

abbrev Decoder (α : Type) := StateT Bytes (Except Error) α

variable {α β γ : Type} {payload : Bytes} {d : Decoder α} {n : ℕ} {a : α} {enc : α → Bytes}
  {bs : Bytes} {f : α → Decoder β} {w : ℕ} {bytes cs : Bytes} {width : ℕ}

/-- From a buffer that starts with `bs`, the decoder returns `a` and leaves the rest. -/
def Reads (d : Decoder α) (bs : Bytes) (a : α) : Prop := ∀ rest, d.run (bs ++ rest) = .ok (a, rest)

theorem Reads.run_bind (hd : Reads d bs a) (rest : Bytes) :
    (d >>= f).run (bs ++ rest) = (f a).run rest := by
  rw [StateT.run_bind, hd]
  rfl

theorem Reads.bind {b : β} (hd : Reads d bs a) (hf : Reads (f a) cs b) :
    Reads (d >>= f) (bs ++ cs) b := by
  intro rest
  rw [append_assoc, hd.run_bind]
  exact hf rest

/-- Nothing is left to read. -/
theorem Reads.done (a : α) : Reads (pure a) [] a := fun _ => rfl

/-- What can be addressed is read. -/
def Recovers (d : Decoder α) (bs : Bytes) (a : α) : Prop := bs.length < 2 ^ 64 → Reads d bs a

theorem Reads.recovers (h : Reads d bs a) : Recovers d bs a := fun _ => h

theorem Recovers.bind {b : β} (hd : Recovers d bs a) (hf : Recovers (f a) cs b) :
    Recovers (d >>= f) (bs ++ cs) b := by
  intro hlen
  rw [length_append] at hlen
  exact (hd (by omega)).bind (hf (by omega))

theorem Recovers.done (a : α) : Recovers (pure a) [] a := (Reads.done a).recovers

theorem Reads.map (h : Reads d bs a) (f : α → β) : Reads (f <$> d) bs (f a) := by
  intro rest
  rw [StateT.run_map, h]
  rfl

/-- What is read determines the value. -/
theorem Reads.unique {a' : α} (h : Reads d bs a) (h' : Reads d bs a') : a = a' := by
  have := (h []).symm.trans (h' [])
  cases this
  rfl

/-! ## Numbers -/

/-- The bytes of a number, the highest first, without leading zeros. -/
def beBytes (n : ℕ) : Bytes := ((Nat.digits 256 n).map UInt8.ofNat).reverse

/-- The number that bytes write, the highest one first. -/
def beNat (bs : Bytes) : ℕ := Nat.ofDigits 256 (bs.reverse.map UInt8.toNat)

theorem beNat_beBytes (n : ℕ) : beNat (beBytes n) = n := by
  unfold beNat beBytes
  rw [reverse_reverse, map_map]
  have hid : (Nat.digits 256 n).map (UInt8.toNat ∘ UInt8.ofNat) = Nat.digits 256 n := by
    refine (map_congr_left fun d hd => ?_).trans (map_id _)
    have hlt : d < 256 := Nat.digits_lt_base (by omega) hd
    simp [Nat.mod_eq_of_lt hlt]
  rw [hid, Nat.ofDigits_digits]

theorem length_beBytes_le (h : n < 256 ^ w) : (beBytes n).length ≤ w := by
  unfold beBytes
  rw [length_reverse, length_map]
  exact (Nat.digits_length_le_iff (by omega) n).mpr h

theorem beBytes_eq_nil : beBytes n = [] ↔ n = 0 := by
  simp [beBytes, Nat.digits_eq_nil_iff_eq_zero]

/-- No leading zero. -/
theorem head?_beBytes_ne_zero (n : ℕ) : (beBytes n).head? ≠ some 0 := by
  unfold beBytes
  rw [List.head?_reverse, List.getLast?_map]
  intro h
  obtain ⟨d, hd, hzero⟩ := Option.map_eq_some_iff.mp h
  obtain ⟨hne, hlast⟩ := mem_getLast?_eq_getLast hd
  have hlt : d < 256 := Nat.digits_lt_base (by omega) (mem_of_getLast? hd)
  have hd0 : d = 0 := by
    have := congrArg UInt8.toNat hzero
    simpa [Nat.mod_eq_of_lt hlt] using this
  have hn : n ≠ 0 := Nat.digits_ne_nil_iff_ne_zero.mp hne
  exact Nat.getLast_digit_ne_zero 256 hn (hlast.symm.trans hd0)

/-- The number of a string of at most `width` bytes, without leading zeros. -/
def leftPad (width : ℕ) (bytes : Bytes) : Except Error ℕ :=
  if width < bytes.length then .error .overflow
  else if bytes.head? = some 0 then .error .leadingZero
  else .ok (beNat bytes)

theorem leftPad_beBytes (h : (beBytes n).length ≤ width) : leftPad width (beBytes n) = .ok n := by
  unfold leftPad
  rw [if_neg (Nat.not_lt.mpr h), if_neg (head?_beBytes_ne_zero n), beNat_beBytes]

/-! ## Headers -/

structure Header where
  list : Bool
  payloadLength : ℕ
  deriving DecidableEq

namespace Header

def emptyCode (list : Bool) : ℕ := if list then 0xc0 else 0x80

/-- The code before the length of the length. -/
def longCode (list : Bool) : ℕ := if list then 0xf7 else 0xb7

def encode (h : Header) : Bytes :=
  if h.payloadLength < 56 then [UInt8.ofNat (emptyCode h.list + h.payloadLength)]
  else
    UInt8.ofNat (longCode h.list + (beBytes h.payloadLength).length) :: beBytes h.payloadLength

/-- The payload has to be there. -/
def finish (h : Header) (buf : Bytes) : Except Error (Header × Bytes) :=
  if buf.length < h.payloadLength then .error .inputTooShort else .ok (h, buf)

/-- A header with the length of its length. -/
def decodeLong (list : Bool) (lenOfLen : ℕ) (buf : Bytes) : Except Error (Header × Bytes) :=
  if buf.length < lenOfLen then .error .inputTooShort
  else do
    let payloadLength ← leftPad 8 (buf.take lenOfLen)
    if payloadLength < 56 then .error .nonCanonicalSize
    else finish ⟨list, payloadLength⟩ (buf.drop lenOfLen)

def decode (buf : Bytes) : Except Error (Header × Bytes) :=
  match buf with
  | [] => .error .inputTooShort
  | b :: rest =>
    -- a byte that stands for itself is its own payload
    if b.toNat < 0x80 then finish ⟨false, 1⟩ (b :: rest)
    else if b.toNat ≤ 0xb7 then
      let payloadLength := b.toNat - 0x80
      if payloadLength = 1 then
        match rest with
        | [] => .error .inputTooShort
        | c :: _ =>
          if c.toNat < 0x80 then .error .nonCanonicalSingleByte
          else finish ⟨false, payloadLength⟩ rest
      else finish ⟨false, payloadLength⟩ rest
    else if b.toNat ≤ 0xbf then decodeLong false (b.toNat - 0xb7) rest
    else if b.toNat ≤ 0xf7 then finish ⟨true, b.toNat - 0xc0⟩ rest
    else decodeLong true (b.toNat - 0xf7) rest

theorem encode_ne_nil (h : Header) : h.encode ≠ [] := by
  unfold encode
  split <;> simp

theorem finish_append (h : Header) (rest : Bytes) (hlen : payload.length = h.payloadLength) :
    finish h (payload ++ rest) = .ok (h, payload ++ rest) := by
  unfold finish
  rw [if_neg (by rw [length_append]; omega)]

theorem decodeLong_append (list : Bool) (rest : Bytes) (hlong : 56 ≤ payload.length)
    (hlt : payload.length < 2 ^ 64) :
    decodeLong list (beBytes payload.length).length
      (beBytes payload.length ++ (payload ++ rest)) =
      .ok (⟨list, payload.length⟩, payload ++ rest) := by
  have hle : (beBytes payload.length).length ≤ 8 := length_beBytes_le (by norm_num; omega)
  unfold decodeLong
  rw [if_neg (by rw [length_append]; omega), take_left, drop_left, leftPad_beBytes hle]
  change (if payload.length < 56 then _ else _) = _
  rw [if_neg (by omega), finish_append _ _ rfl]

theorem length_beBytes_pos (n : ℕ) (h : n ≠ 0) : 0 < (beBytes n).length :=
  length_pos_iff.mpr fun hnil => h (beBytes_eq_nil.mp hnil)

variable {list : Bool}

theorem toNat_emptyCode (h : n < 56) :
    (UInt8.ofNat (emptyCode list + n)).toNat = (if list then 0xc0 else 0x80) + n := by
  rw [UInt8.toNat_ofNat', emptyCode, Nat.mod_eq_of_lt (by split <;> omega)]

theorem toNat_longCode (h : n ≤ 8) :
    (UInt8.ofNat (longCode list + n)).toNat = (if list then 0xf7 else 0xb7) + n := by
  rw [UInt8.toNat_ofNat', longCode, Nat.mod_eq_of_lt (by split <;> omega)]

/-- The header of a list is read back. -/
theorem decode_encode_list (rest : Bytes) (hlt : payload.length < 2 ^ 64) :
    decode (encode ⟨true, payload.length⟩ ++ (payload ++ rest)) =
      .ok (⟨true, payload.length⟩, payload ++ rest) := by
  unfold encode
  by_cases hshort : payload.length < 56
  · have hb : (UInt8.ofNat (emptyCode true + payload.length)).toNat = 0xc0 + payload.length :=
      toNat_emptyCode hshort
    rw [if_pos hshort, singleton_append, decode, hb, if_neg (by omega), if_neg (by omega), if_neg (by omega), if_pos (by omega),
      Nat.add_sub_cancel_left, finish_append _ _ rfl]
  · have hle : (beBytes payload.length).length ≤ 8 := length_beBytes_le (by norm_num; omega)
    have hpos := length_beBytes_pos payload.length (by omega)
    have hb : (UInt8.ofNat (longCode true + (beBytes payload.length).length)).toNat =
        0xf7 + (beBytes payload.length).length := toNat_longCode hle
    rw [if_neg hshort, cons_append, decode, hb, if_neg (by omega), if_neg (by omega), if_neg (by omega), if_neg (by omega),
      Nat.add_sub_cancel_left, decodeLong_append true rest (by omega) hlt]

/-- So is the header of a string, unless the string is a byte that stands for itself. -/
theorem decode_encode_string (rest : Bytes) (hlt : payload.length < 2 ^ 64)
    (hself : ∀ b, payload = [b] → 0x80 ≤ b.toNat) :
    decode (encode ⟨false, payload.length⟩ ++ (payload ++ rest)) =
      .ok (⟨false, payload.length⟩, payload ++ rest) := by
  unfold encode
  by_cases hshort : payload.length < 56
  · have hb : (UInt8.ofNat (emptyCode false + payload.length)).toNat = 0x80 + payload.length :=
      toNat_emptyCode hshort
    rw [if_pos hshort, singleton_append, decode, hb, if_neg (by omega), if_pos (by omega), Nat.add_sub_cancel_left]
    by_cases hone : payload.length = 1
    · obtain ⟨b, rfl⟩ := length_eq_one_iff.mp hone
      change (if b.toNat < 0x80 then _ else _) = _
      rw [if_neg (Nat.not_lt.mpr (hself b rfl)), finish_append _ _ rfl]
    · rw [if_neg hone, finish_append _ _ rfl]
  · have hle : (beBytes payload.length).length ≤ 8 := length_beBytes_le (by norm_num; omega)
    have hpos := length_beBytes_pos payload.length (by omega)
    have hb : (UInt8.ofNat (longCode false + (beBytes payload.length).length)).toNat =
        0xb7 + (beBytes payload.length).length := toNat_longCode hle
    rw [if_neg hshort, cons_append, decode, hb, if_neg (by omega), if_neg (by omega), if_pos (by omega), Nat.add_sub_cancel_left,
      decodeLong_append false rest (by omega) hlt]

/-- A list never starts with the code of the empty string. -/
theorem head?_encode_list_ne (hlt : n < 2 ^ 64) : (encode ⟨true, n⟩).head? ≠ some 0x80 := by
  have hle : (beBytes n).length ≤ 8 := length_beBytes_le (by norm_num; omega)
  unfold encode
  split
  next hshort =>
    intro h
    have := congrArg UInt8.toNat (Option.some.inj h)
    rw [toNat_emptyCode hshort] at this
    simp at this
    omega
  · intro h
    have := congrArg UInt8.toNat (Option.some.inj h)
    rw [toNat_longCode hle] at this
    simp at this
    omega

end Header

/-! ## Strings -/

/-- The payload of the next item, which has to be of the given kind. -/
def decodeBytes (isList : Bool) : Decoder Bytes := fun buf => do
  let (h, buf) ← Header.decode buf
  if h.list ≠ isList then .error (if isList then .unexpectedString else .unexpectedList)
  else .ok (buf.take h.payloadLength, buf.drop h.payloadLength)

def encodeBytes (bytes : Bytes) : Bytes :=
  if bytes.length = 1 ∧ ∀ b ∈ bytes, b.toNat < 0x80 then bytes
  else Header.encode ⟨false, bytes.length⟩ ++ bytes

def encodeList (payload : Bytes) : Bytes := Header.encode ⟨true, payload.length⟩ ++ payload

theorem Reads.decodeBytes_string (hlt : bytes.length < 2 ^ 64) :
    Reads (decodeBytes false) (encodeBytes bytes) bytes := by
  intro rest
  unfold encodeBytes
  split
  next h =>
    obtain ⟨b, rfl⟩ := length_eq_one_iff.mp h.1
    have hb : b.toNat < 0x80 := h.2 b (mem_singleton_self b)
    change (do
      let (h, buf) ← Header.decode (b :: rest)
      _) = _
    rw [Header.decode, if_pos hb, ← singleton_append, Header.finish_append _ _ rfl]
    rfl
  next h =>
    have hself : ∀ b, bytes = [b] → 0x80 ≤ b.toNat := by
      rintro b rfl
      by_contra hlow
      exact h ⟨rfl, fun c hc => by rw [mem_singleton.mp hc]; omega⟩
    change (do
      let (h, buf) ← Header.decode (Header.encode ⟨false, bytes.length⟩ ++ bytes ++ rest)
      _) = _
    rw [append_assoc, Header.decode_encode_string rest hlt hself]
    change Except.ok ((bytes ++ rest).take bytes.length, (bytes ++ rest).drop bytes.length) = _
    rw [take_left, drop_left]

theorem Reads.decodeBytes_list (hlt : payload.length < 2 ^ 64) :
    Reads (decodeBytes true) (encodeList payload) payload := by
  intro rest
  change (do
    let (h, buf) ← Header.decode (Header.encode ⟨true, payload.length⟩ ++ payload ++ rest)
    _) = _
  rw [append_assoc, Header.decode_encode_list rest hlt]
  change Except.ok ((payload ++ rest).take payload.length,
    (payload ++ rest).drop payload.length) = _
  rw [take_left, drop_left]

theorem length_le_encodeBytes (bytes : Bytes) : bytes.length ≤ (encodeBytes bytes).length := by
  unfold encodeBytes
  split
  · exact le_rfl
  · rw [length_append]
    omega

theorem Recovers.string : Recovers (decodeBytes false) (encodeBytes bytes) bytes := fun hlen =>
  .decodeBytes_string ((length_le_encodeBytes bytes).trans_lt hlen)

theorem length_le_encodeList (payload : Bytes) : payload.length ≤ (encodeList payload).length := by
  rw [encodeList, length_append]
  omega

theorem length_lt_of_encodeList (h : (encodeList payload).length < n) : payload.length < n :=
  (length_le_encodeList payload).trans_lt h

theorem encodeList_ne_nil (payload : Bytes) : encodeList payload ≠ [] := by
  simp [encodeList, Header.encode_ne_nil]

theorem head?_encodeList_ne (hlt : payload.length < 2 ^ 64) :
    (encodeList payload).head? ≠ some 0x80 := by
  rw [encodeList, List.head?_append_of_ne_nil _ (Header.encode_ne_nil _)]
  exact Header.head?_encode_list_ne hlt

/-! ## Numbers and arrays -/

def encodeUint (n : ℕ) : Bytes :=
  if n = 0 then [0x80]
  else if n < 0x80 then [UInt8.ofNat n]
  else UInt8.ofNat (0x80 + (beBytes n).length) :: beBytes n

theorem encodeUint_ne_nil (n : ℕ) : encodeUint n ≠ [] := by
  unfold encodeUint
  split
  · simp
  · split <;> simp

def decodeUint (width : ℕ) : Decoder ℕ := do
  let bytes ← decodeBytes false
  leftPad width bytes

/-- A number is the string of its bytes. -/
theorem encodeUint_eq (h : (beBytes n).length < 56) : encodeUint n = encodeBytes (beBytes n) := by
  unfold encodeUint
  by_cases hzero : n = 0
  · subst hzero
    have hnil : beBytes 0 = [] := beBytes_eq_nil.mpr rfl
    rfl
  rw [if_neg hzero]
  by_cases hlow : n < 0x80
  · have hbytes : beBytes n = [UInt8.ofNat n] := by
      simp [beBytes, Nat.digits_of_lt 256 n hzero (by omega)]
    rw [if_pos hlow, hbytes, encodeBytes, if_pos]
    refine ⟨rfl, fun b hb => ?_⟩
    rw [mem_singleton.mp hb, UInt8.toNat_ofNat']
    omega
  · have hlong : ¬ ((beBytes n).length = 1 ∧ ∀ b ∈ beBytes n, b.toNat < 0x80) := by
      rintro ⟨hone, hall⟩
      obtain ⟨b, hb⟩ := length_eq_one_iff.mp hone
      have hn : beNat [b] = n := hb ▸ beNat_beBytes n
      have := hall b (by simp [hb])
      simp [beNat] at hn
      omega
    rw [if_neg hlow, encodeBytes, if_neg hlong, Header.encode, if_pos h]
    rfl

theorem Reads.uint (hn : n < 256 ^ width) (hwidth : width < 56) :
    Reads (decodeUint width) (encodeUint n) n := by
  have hle := length_beBytes_le hn
  rw [encodeUint_eq (by omega)]
  intro rest
  rw [decodeUint, StateT.run_bind,
    Reads.decodeBytes_string (Nat.lt_of_le_of_lt hle (by omega)) rest]
  change ((leftPad width (beBytes n) : Decoder ℕ).run rest) = _
  rw [leftPad_beBytes hle]
  rfl

variable {k : ℕ} {fields : Decoder α}

def encodeArray (a : ByteArrayN k) : Bytes := encodeBytes a.toList

def decodeArray (k : ℕ) : Decoder (ByteArrayN k) := do
  let bytes ← decodeBytes false
  if h : bytes.length = k then pure ⟨bytes, h⟩ else throw .unexpectedLength

theorem Recovers.array (a : ByteArrayN k) : Recovers (decodeArray k) (encodeArray a) a := by
  intro hlen rest
  rw [decodeArray, StateT.run_bind, encodeArray, Recovers.string hlen rest]
  change (if h : a.toList.length = k then (pure ⟨a.toList, h⟩ : Decoder (ByteArrayN k))
    else throw Error.unexpectedLength).run rest = _
  rw [dif_pos a.toList_length]
  rfl

/-! ## Lists and records -/

/-- Decode the payload of a list, which has to be used up. -/
def inPayload (d : Decoder α) : Decoder α := do
  let payload ← decodeBytes true
  match d.run payload with
  | .error err => throw err
  | .ok (a, []) => pure a
  | .ok (_, _ :: _) => throw .unexpectedLength

theorem Reads.inPayload (h : d.run payload = .ok (a, [])) (hlt : payload.length < 2 ^ 64) :
    Reads (inPayload d) (encodeList payload) a := by
  intro rest
  rw [Rlp.inPayload, StateT.run_bind, Reads.decodeBytes_list hlt rest]
  change (match d.run payload with
    | .error err => (throw err : Decoder α)
    | .ok (a, []) => pure a
    | .ok (_, _ :: _) => throw Error.unexpectedLength).run rest = _
  rw [h]
  rfl

/-- The whole buffer is read. -/
theorem Reads.run_eq (h : Reads d bs a) : d.run bs = .ok (a, []) := by
  have := h []
  rwa [append_nil] at this

theorem Recovers.inPayload (h : Recovers d payload a) :
    Recovers (inPayload d) (encodeList payload) a := fun hlen =>
  have hlt := length_lt_of_encodeList hlen
  .inPayload (h hlt).run_eq hlt

/-- At most `n` more items, until the payload is used up. -/
def decodeItems (d : Decoder α) : ℕ → Bytes → Except Error (List α)
  | _, [] => .ok []
  | 0, _ :: _ => .error (.custom "list exceeds maximum length")
  | n + 1, b :: payload => do
    let (a, rest) ← d.run (b :: payload)
    let as ← decodeItems d n rest
    .ok (a :: as)

def decodeLimitedVec (n : ℕ) (d : Decoder α) : Decoder (List α) := do
  let payload ← decodeBytes true
  decodeItems d n payload

section

variable {as : List α} (hd : ∀ a ∈ as, Recovers d (enc a) a) (hne : ∀ a ∈ as, enc a ≠ [])

include hd hne

theorem decodeItems_flatMap (hn : as.length ≤ n) (hlt : (as.flatMap enc).length < 2 ^ 64) :
    decodeItems d n (as.flatMap enc) = .ok as := by
  induction as generalizing n with
  | nil => cases n <;> rfl
  | cons a as ih =>
    obtain ⟨n, rfl⟩ : ∃ m, n = m + 1 := ⟨n - 1, by simp at hn; omega⟩
    rw [flatMap_cons, length_append] at hlt
    have hread := hd a mem_cons_self (by omega) (as.flatMap enc)
    obtain ⟨b, bs, hb⟩ := exists_cons_of_ne_nil (hne a mem_cons_self)
    rw [flatMap_cons, hb, cons_append, decodeItems, ← cons_append, ← hb, hread]
    change (do
      let as' ← decodeItems d n (as.flatMap enc)
      _) = _
    rw [ih (fun a ha => hd a (mem_cons_of_mem _ ha))
      (fun a ha => hne a (mem_cons_of_mem _ ha)) (by simpa using hn) (by omega)]
    rfl

theorem Recovers.limitedVec (hn : as.length ≤ n) :
    Recovers (decodeLimitedVec n d) (encodeList (as.flatMap enc)) as := by
  intro hlen rest
  have hlt := length_lt_of_encodeList hlen
  rw [decodeLimitedVec, StateT.run_bind, Reads.decodeBytes_list hlt rest]
  change ((decodeItems d n (as.flatMap enc) : Decoder (List α)).run rest) = _
  rw [decodeItems_flatMap hd hne hn hlt]
  rfl

/-- A list of any number of items. Every item takes a byte at least. -/
def decodeVec (d : Decoder α) : Decoder (List α) := do
  let payload ← decodeBytes true
  decodeItems d payload.length payload

theorem Recovers.vec : Recovers (decodeVec d) (encodeList (as.flatMap enc)) as := by
  have hn : as.length ≤ (as.flatMap enc).length := by
    clear hd
    induction as with
    | nil => exact Nat.zero_le _
    | cons a as ih =>
      have hpos := length_pos_iff.mpr (hne a mem_cons_self)
      have := ih fun b hb => hne b (mem_cons_of_mem _ hb)
      rw [flatMap_cons, length_append, length_cons]
      omega
  intro hlen rest
  have hlt := length_lt_of_encodeList hlen
  rw [decodeVec, StateT.run_bind, Reads.decodeBytes_list hlt rest]
  change ((decodeItems d (as.flatMap enc).length (as.flatMap enc) : Decoder (List α)).run rest) = _
  rw [decodeItems_flatMap hd hne hn hlt]
  rfl

end

/-- The fields of a record, which have to be as long as its header says. -/
def decodeRecord (fields : Decoder α) : Decoder α := fun buf => do
  let (h, buf) ← Header.decode buf
  if ¬ h.list then .error .unexpectedString
  else do
    let (a, rest) ← fields.run buf
    let consumed := buf.length - rest.length
    if consumed ≠ h.payloadLength then .error (.listLengthMismatch h.payloadLength consumed)
    else .ok (a, rest)

theorem Recovers.record (h : Recovers fields payload a) :
    Recovers (decodeRecord fields) (encodeList payload) a := by
  intro hlen rest
  have hlt := length_lt_of_encodeList hlen
  change (do
    let (h, buf) ← Header.decode (Header.encode ⟨true, payload.length⟩ ++ payload ++ rest)
    _) = _
  rw [append_assoc, Header.decode_encode_list rest hlt]
  change (do
    let (a, rest') ← fields.run (payload ++ rest)
    _) = _
  rw [h hlt rest]
  change (if (payload ++ rest).length - rest.length ≠ payload.length then _ else _) = _
  rw [length_append, Nat.add_sub_cancel, if_neg (by simp)]

/-- An optional last field: it is there if the payload goes on, unless an empty string stands
for it. -/
def trailingField (last : Decoder β) (goesOn : Bool) (buf : Bytes) :
    Except Error (Option β × Bytes) :=
  if goesOn then
    if buf.head? = some 0x80 then .ok (none, buf.drop 1)
    else (last.run buf).map fun r => (some r.1, r.2)
  else .ok (none, buf)

/-- The fields of a record whose last one is optional. -/
def decodeTrailing (fields : Decoder α) (last : Decoder β) (mk : α → Option β → γ) : Decoder γ :=
  fun buf => do
    let (h, buf) ← Header.decode buf
    if ¬ h.list then .error .unexpectedString
    else do
      let (a, rest) ← fields.run buf
      let (b, rest) ←
        trailingField last (decide (buf.length - rest.length < h.payloadLength)) rest
      let consumed := buf.length - rest.length
      if consumed ≠ h.payloadLength then .error (.listLengthMismatch h.payloadLength consumed)
      else .ok (mk a b, rest)

/-- The optional field in the payload. -/
def encodeTrailing (enc : β → Bytes) : Option β → Bytes
  | none => []
  | some b => enc b

section

variable {last : Decoder β} {enc : β → Bytes} {o : Option β}
  (hlast : ∀ b ∈ o, Recovers last (enc b) b) (hlist : ∀ b, ∃ payload, enc b = encodeList payload)

include hlast hlist

/-- The optional field is read back: it is a list, which is never taken for an empty string. -/
theorem trailingField_encodeTrailing (hlt : (encodeTrailing enc o).length < 2 ^ 64) (rest : Bytes)
    (n : ℕ) : trailingField last (decide (n < n + (encodeTrailing enc o).length))
      (encodeTrailing enc o ++ rest) = .ok (o, rest) := by
  cases o with
  | none => simp [trailingField, encodeTrailing]
  | some b =>
    change (enc b).length < 2 ^ 64 at hlt
    obtain ⟨hnil, hhead⟩ : enc b ≠ [] ∧ (enc b).head? ≠ some 0x80 := by
      obtain ⟨payload, hb⟩ := hlist b
      rw [hb] at hlt ⊢
      exact ⟨encodeList_ne_nil _, head?_encodeList_ne (length_lt_of_encodeList hlt)⟩
    have hpos : 0 < (enc b).length := length_pos_iff.mpr hnil
    have hhead' : (enc b ++ rest).head? ≠ some 0x80 := by
      rwa [List.head?_append_of_ne_nil _ hnil]
    rw [decide_eq_true (by simp only [encodeTrailing]; omega)]
    change (if (enc b ++ rest).head? = some 0x80 then _ else _) = _
    rw [if_neg hhead']
    change Except.map _ (last.run (enc b ++ rest)) = _
    rw [hlast b rfl hlt rest]
    rfl

theorem Recovers.trailing {mk : α → Option β → γ} {front : List Bytes}
    (hfields : Recovers fields front.flatten a) :
    Recovers (decodeTrailing fields last mk)
      (encodeList (front ++ [encodeTrailing enc o]).flatten) (mk a o) := by
  intro hlen rest
  have hlt := length_lt_of_encodeList hlen
  set tail := encodeTrailing enc o with htail
  have hflat : (front ++ [tail]).flatten = front.flatten ++ tail := by simp
  rw [hflat] at hlt ⊢
  have hparts := hlt
  rw [length_append] at hparts
  have htail_lt : tail.length < 2 ^ 64 := by omega
  have hfield : trailingField last (decide ((front.flatten ++ (tail ++ rest)).length -
      (tail ++ rest).length < (front.flatten ++ tail).length)) (tail ++ rest) = .ok (o, rest) := by
    rw [length_append, Nat.add_sub_cancel, length_append]
    exact trailingField_encodeTrailing hlast hlist htail_lt rest front.flatten.length
  change (do
    let (h, buf) ← Header.decode (Header.encode ⟨true, (front.flatten ++ tail).length⟩ ++
      (front.flatten ++ tail) ++ rest)
    _) = _
  rw [append_assoc, Header.decode_encode_list rest hlt]
  change (do
    let (a, rest') ← fields.run (front.flatten ++ tail ++ rest)
    _) = _
  rw [append_assoc, hfields (by omega)]
  change (do
    let (b, rest') ← trailingField last (decide ((front.flatten ++ (tail ++ rest)).length -
      (tail ++ rest).length < (front.flatten ++ tail).length)) (tail ++ rest)
    _) = _
  rw [hfield]
  change (if (front.flatten ++ (tail ++ rest)).length - rest.length ≠
    (front.flatten ++ tail).length then _ else _) = _
  rw [if_neg (by simp only [length_append]; omega)]

end

/-! ## Lengths -/

/-- The length of a header. -/
def lengthOfLength (payloadLength : ℕ) : ℕ :=
  if payloadLength < 56 then 1 else 1 + (beBytes payloadLength).length

def listLength (payloadLength : ℕ) : ℕ := payloadLength + lengthOfLength payloadLength

def bytesLength (bytes : Bytes) : ℕ :=
  if bytes.length = 1 ∧ ∀ b ∈ bytes, b.toNat < 0x80 then bytes.length
  else bytes.length + lengthOfLength bytes.length

def uintLength (n : ℕ) : ℕ := if n < 0x80 then 1 else 1 + (beBytes n).length

theorem Header.length_encode (list : Bool) (n : ℕ) :
    (Header.encode ⟨list, n⟩).length = lengthOfLength n := by
  unfold Header.encode lengthOfLength
  split
  · rfl
  · rw [length_cons, Nat.add_comm]

theorem length_encodeList (payload : Bytes) :
    (encodeList payload).length = listLength payload.length := by
  rw [encodeList, length_append, Header.length_encode, listLength, Nat.add_comm]

theorem length_encodeBytes (bytes : Bytes) : (encodeBytes bytes).length = bytesLength bytes := by
  unfold encodeBytes bytesLength
  split
  · rfl
  · rw [length_append, Header.length_encode, Nat.add_comm]

theorem length_encodeUint (n : ℕ) : (encodeUint n).length = uintLength n := by
  unfold encodeUint uintLength
  by_cases hzero : n = 0
  · rw [if_pos hzero, if_pos (by omega)]
    rfl
  rw [if_neg hzero]
  split
  · rfl
  · rw [length_cons, Nat.add_comm]

theorem lengthOfLength_le (h : n < 256 ^ w) : lengthOfLength n ≤ 1 + w := by
  unfold lengthOfLength
  split
  · omega
  · have := length_beBytes_le h
    omega

theorem uintLength_le (h : n < 256 ^ w) : uintLength n ≤ 1 + w := by
  unfold uintLength
  split
  · omega
  · have := length_beBytes_le h
    omega

theorem bytesLength_le (bytes : Bytes) :
    bytesLength bytes ≤ bytes.length + lengthOfLength bytes.length := by
  unfold bytesLength
  split
  · omega
  · exact le_rfl

/-! ## Codecs -/

/-- An encoding of single items with its decoder. -/
structure Codec (α : Type) where
  encode : α → Bytes
  decode : Decoder α
  /-- What is encoded is read back, and the decoder knows where it ends. -/
  reads : ∀ a, (encode a).length < 2 ^ 64 → Reads decode (encode a) a
  encode_ne_nil : ∀ a, encode a ≠ []

end MonadBft.Rlp
