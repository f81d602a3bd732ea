import Mathlib.Data.Nat.ModEq
import Mathlib.Logic.Function.Basic
import Mathlib.Tactic.Linarith

/-!
# The replay filter

A session takes a packet once. The filter remembers the counters of the packets it has taken in a
bitmap that is a window of `REPLAY_WINDOW_BITS` counters, up to the largest one taken. Larger
counters are new, and those below the window are refused.

`Tracks f taken`: the filter is what the counters `taken` have made of it. It lets a counter pass
if and only if it was not taken and is not below the window (`Tracks.check_iff`), and stays so when
it takes it (`Tracks.update`), as long as the counters do not come near the end of their range. So
it is exact over any packets in a row (`filtered_exact`).
-/

namespace MonadBft.Wireauth

open Function List

def U64_MAX : ℕ := 2 ^ 64 - 1

def saturatingAdd (a b : ℕ) : ℕ := min (a + b) U64_MAX

def REPLAY_WINDOW_SIZE : ℕ := 128

def REPLAY_WINDOW_BITS : ℕ := REPLAY_WINDOW_SIZE * 64

structure ReplayFilter where
  next : ℕ
  bitmap : Fin REPLAY_WINDOW_SIZE → BitVec 64

inductive NonceError where
  | outsideWindow (counter next : ℕ)
  | duplicate (counter : ℕ)
  deriving DecidableEq

namespace ReplayFilter

def new : ReplayFilter where
  next := 0
  bitmap := fun _ => 0

variable (f : ReplayFilter) {c : ℕ} {taken : List ℕ} {c' : ℕ}

def word (counter : ℕ) : Fin REPLAY_WINDOW_SIZE :=
  ⟨counter % REPLAY_WINDOW_BITS / 64,
    Nat.div_lt_of_lt_mul (Nat.mul_comm _ _ ▸ Nat.mod_lt _ (by decide))⟩

def bit (counter : ℕ) : ℕ := counter % REPLAY_WINDOW_BITS % 64

def isSet (counter : ℕ) : Bool := (f.bitmap (word counter) >>> bit counter) &&& 1#64 == 1#64

def set (counter : ℕ) : ReplayFilter :=
  { f with
    bitmap := update f.bitmap (word counter)
      (f.bitmap (word counter) ||| 1#64 <<< bit counter) }

def clear (counter : ℕ) : ReplayFilter :=
  { f with
    bitmap := update f.bitmap (word counter)
      (f.bitmap (word counter) &&& ~~~(1#64 <<< bit counter)) }

def check (counter : ℕ) : Except NonceError Unit :=
  if f.next ≤ counter then .ok ()
  else if saturatingAdd counter REPLAY_WINDOW_BITS ≤ f.next then
    .error (.outsideWindow counter f.next)
  else if f.isSet counter then .error (.duplicate counter)
  else .ok ()

/-- The filter moves up to a counter that is new. -/
def advance (counter : ℕ) : ReplayFilter :=
  { (if REPLAY_WINDOW_BITS ≤ counter - f.next then { f with bitmap := fun _ => 0 }
     else (List.range' f.next (counter - f.next)).foldl clear f) with
    next := saturatingAdd counter 1 }

def update (counter : ℕ) : ReplayFilter :=
  (if f.next ≤ counter then f.advance counter else f).set counter

/-! ## Bits -/

theorem bit_lt (counter : ℕ) : bit counter < 64 := Nat.mod_lt _ (by omega)

theorem word_bit_eq_iff :
    word c = word c' ∧ bit c = bit c' ↔ c % REPLAY_WINDOW_BITS = c' % REPLAY_WINDOW_BITS := by
  unfold word bit
  rw [Fin.mk.injEq]
  constructor
  · rintro ⟨hword, hbit⟩
    omega
  · intro h
    rw [h]
    exact ⟨rfl, rfl⟩

theorem isSet_eq (counter : ℕ) : f.isSet counter = (f.bitmap (word counter)).getLsbD (bit counter) := by
  unfold isSet
  rw [BitVec.and_one_eq_setWidth_ofBool_getLsbD, BitVec.getLsbD_ushiftRight, Nat.add_zero]
  cases (f.bitmap (word counter)).getLsbD (bit counter) <;> rfl

theorem getLsbD_one_shiftLeft {i : ℕ} (hi : i < 64) (n : ℕ) :
    (1#64 <<< n).getLsbD i = decide (i = n) := by
  rw [BitVec.getLsbD_shiftLeft, BitVec.getLsbD_one, decide_eq_true hi, Bool.true_and,
    Bool.eq_iff_iff]
  simp only [Bool.and_eq_true, Bool.not_eq_true', decide_eq_false_iff_not, decide_eq_true_eq]
  omega

/-- The slots of the bitmap are the counters modulo its length. -/
theorem isSet_update (c c' : ℕ) (b : BitVec 64) :
    isSet { f with bitmap := Function.update f.bitmap (word c) b } c' =
      if word c' = word c then b.getLsbD (bit c') else f.isSet c' := by
  rw [isSet_eq, isSet_eq]
  change (Function.update f.bitmap (word c) b (word c')).getLsbD (bit c') = _
  rw [update_apply]
  split <;> rfl

theorem isSet_set (c c' : ℕ) :
    (f.set c).isSet c' =
      (decide (c' % REPLAY_WINDOW_BITS = c % REPLAY_WINDOW_BITS) || f.isSet c') := by
  rw [set, isSet_update]
  split
  next hword =>
    rw [BitVec.getLsbD_or, getLsbD_one_shiftLeft (bit_lt c'), ← hword, ← isSet_eq, Bool.or_comm,
      decide_eq_decide.mpr ⟨fun hbit => word_bit_eq_iff.mp ⟨hword, hbit⟩,
        fun h => (word_bit_eq_iff.mpr h).2⟩]
  next hword =>
    rw [decide_eq_false fun h => hword (word_bit_eq_iff.mpr h).1, Bool.false_or]

theorem isSet_clear (c c' : ℕ) :
    (f.clear c).isSet c' =
      (!decide (c' % REPLAY_WINDOW_BITS = c % REPLAY_WINDOW_BITS) && f.isSet c') := by
  rw [clear, isSet_update]
  split
  next hword =>
    rw [BitVec.getLsbD_and, BitVec.getLsbD_not, getLsbD_one_shiftLeft (bit_lt c'), ← hword,
      ← isSet_eq, Bool.and_comm, decide_eq_true (bit_lt c'), Bool.true_and,
      decide_eq_decide.mpr ⟨fun hbit => word_bit_eq_iff.mp ⟨hword, hbit⟩,
        fun h => (word_bit_eq_iff.mpr h).2⟩]
  next hword =>
    rw [decide_eq_false fun h => hword (word_bit_eq_iff.mpr h).1, Bool.not_false, Bool.true_and]

theorem isSet_foldl_clear (cs : List ℕ) (c' : ℕ) :
    (cs.foldl clear f).isSet c' = true ↔
      f.isSet c' = true ∧ ∀ c ∈ cs, c' % REPLAY_WINDOW_BITS ≠ c % REPLAY_WINDOW_BITS := by
  induction cs generalizing f with
  | nil => simp
  | cons c cs ih =>
    rw [foldl_cons, ih, isSet_clear, Bool.and_eq_true, Bool.not_eq_true',
      decide_eq_false_iff_not, forall_mem_cons]
    tauto

/-- What the filter keeps when it moves up. -/
theorem isSet_advance (c c' : ℕ) : (f.advance c).isSet c' = true ↔
    c < f.next + REPLAY_WINDOW_BITS ∧ f.isSet c' = true ∧
      ∀ i, f.next ≤ i → i < c → c' % REPLAY_WINDOW_BITS ≠ i % REPLAY_WINDOW_BITS := by
  have hnext : ∀ (g : ReplayFilter) (n : ℕ), isSet { g with next := n } c' = g.isSet c' :=
    fun _ _ => rfl
  unfold advance
  rw [hnext]
  split
  next hgap =>
    have hzero : isSet { f with bitmap := fun _ => 0 } c' = false := by
      rw [isSet_eq]
      exact BitVec.getLsbD_zero
    rw [hzero]
    refine ⟨nofun, fun h => ?_⟩
    unfold REPLAY_WINDOW_BITS REPLAY_WINDOW_SIZE at *
    omega
  next hgap =>
    have hlt : c < f.next + REPLAY_WINDOW_BITS := by omega
    rw [isSet_foldl_clear, and_iff_right hlt]
    refine and_congr_right fun _ => ⟨fun h i hle hi => ?_, fun h i hi => ?_⟩
    · exact h i (mem_range'_1.mpr ⟨hle, by omega⟩)
    · have := mem_range'_1.mp hi
      exact h i this.1 (by omega)

/-! ## What is taken -/

/-- One more than the largest of the counters. -/
def limit (taken : List ℕ) : ℕ := taken.foldr (fun c n => max (c + 1) n) 0

theorem lt_limit (h : c ∈ taken) : c < limit taken := by
  induction taken with
  | nil => cases h
  | cons c' taken ih =>
    change c < max (c' + 1) (limit taken)
    rcases mem_cons.mp h with rfl | h
    · omega
    · have := ih h
      omega

theorem limit_lt {n : ℕ} (hpos : 0 < n) (h : ∀ c ∈ taken, c + 1 < n) : limit taken < n := by
  induction taken with
  | nil => exact hpos
  | cons c taken ih =>
    have hc := h c mem_cons_self
    have hrest := ih fun c' hc' => h c' (mem_cons_of_mem _ hc')
    exact Nat.max_lt.mpr ⟨hc, hrest⟩

/-- The filter has taken these counters. -/
structure Tracks (taken : List ℕ) : Prop where
  next_eq : f.next = limit taken
  isSet_iff : ∀ c, c < f.next → f.next < c + REPLAY_WINDOW_BITS → (f.isSet c = true ↔ c ∈ taken)
  next_lt : f.next < U64_MAX

variable {f}

theorem tracks_new : new.Tracks [] := ⟨rfl, fun c hc => absurd hc (Nat.not_lt_zero c), by decide⟩

theorem check_eq_ok_iff : f.check c = .ok () ↔
    f.next ≤ c ∨ (f.next < saturatingAdd c REPLAY_WINDOW_BITS ∧ f.isSet c = false) := by
  unfold check
  split
  next h => simp [h]
  next h =>
    split
    next h' => simp [h, Nat.not_lt.mpr h']
    next h' =>
      split
      next hset => simp [h, hset]
      next hset => simp [h, Nat.lt_of_not_le h', hset]

/-- The filter is exact. -/
theorem Tracks.check_iff (h : f.Tracks taken) (c : ℕ) :
    f.check c = .ok () ↔ c ∉ taken ∧ limit taken < c + REPLAY_WINDOW_BITS := by
  have hnext := h.next_lt
  rw [check_eq_ok_iff, ← h.next_eq]
  have hsat : f.next < saturatingAdd c REPLAY_WINDOW_BITS ↔ f.next < c + REPLAY_WINDOW_BITS := by
    unfold saturatingAdd
    omega
  rw [hsat]
  constructor
  · rintro (hle | ⟨hlt, hset⟩)
    · refine ⟨fun hmem => ?_, ?_⟩
      · have := lt_limit hmem
        rw [← h.next_eq] at this
        omega
      · unfold REPLAY_WINDOW_BITS REPLAY_WINDOW_SIZE
        omega
    · refine ⟨fun hmem => ?_, hlt⟩
      have hc := lt_limit hmem
      rw [← h.next_eq] at hc
      rw [(h.isSet_iff c hc hlt).mpr hmem] at hset
      cases hset
  · rintro ⟨hmem, hlt⟩
    by_cases hle : f.next ≤ c
    · exact .inl hle
    · refine .inr ⟨hlt, ?_⟩
      rw [← Bool.not_eq_true, h.isSet_iff c (by omega) hlt]
      exact hmem

/-- Counters in the same slot are equal or far apart. -/
theorem eq_of_mod_eq (hmod : c % REPLAY_WINDOW_BITS = c' % REPLAY_WINDOW_BITS)
    (h : c < c' + REPLAY_WINDOW_BITS) (h' : c' < c + REPLAY_WINDOW_BITS) : c = c' := by
  unfold REPLAY_WINDOW_BITS REPLAY_WINDOW_SIZE at *
  omega

theorem Tracks.update (h : f.Tracks taken) (hc : c + 1 < U64_MAX) (hcheck : f.check c = .ok ()) :
    (f.update c).Tracks (c :: taken) := by
  have hpass := (h.check_iff c).mp hcheck
  by_cases hle : f.next ≤ c
  · have hlimit : limit (c :: taken) = c + 1 := by
      change max (c + 1) (limit taken) = c + 1
      rw [← h.next_eq]
      omega
    have hnext : (f.update c).next = c + 1 := by
      unfold ReplayFilter.update advance
      rw [if_pos hle]
      change saturatingAdd c 1 = c + 1
      unfold saturatingAdd
      omega
    refine ⟨hnext.trans hlimit.symm, fun c' hc' hwindow => ?_, by omega⟩
    unfold ReplayFilter.update
    rw [if_pos hle, isSet_set, Bool.or_eq_true, decide_eq_true_iff, isSet_advance, mem_cons]
    by_cases heq : c' = c
    · simp [heq]
    have hmod : c' % REPLAY_WINDOW_BITS ≠ c % REPLAY_WINDOW_BITS :=
      fun hmod => heq (eq_of_mod_eq hmod (by omega) (by omega))
    rw [or_iff_right hmod, or_iff_right heq]
    constructor
    · rintro ⟨-, hset, hclear⟩
      have hlt : c' < f.next := by
        by_contra hge
        exact hclear c' (by omega) (by omega) rfl
      exact (h.isSet_iff c' hlt (by omega)).mp hset
    · intro hmem
      have hlt := lt_limit hmem
      rw [← h.next_eq] at hlt
      refine ⟨by omega, (h.isSet_iff c' hlt (by omega)).mpr hmem, fun i hge hi hmod => ?_⟩
      have := eq_of_mod_eq hmod (by omega) (by omega)
      omega
  · have hlimit : limit (c :: taken) = f.next := by
      change max (c + 1) (limit taken) = f.next
      rw [← h.next_eq]
      omega
    have hnext : (f.update c).next = f.next := by
      unfold ReplayFilter.update
      rw [if_neg hle]
      rfl
    refine ⟨hnext.trans hlimit.symm, fun c' hc' hwindow => ?_, hnext ▸ h.next_lt⟩
    rw [hnext] at hc' hwindow
    unfold ReplayFilter.update
    rw [if_neg hle, isSet_set, Bool.or_eq_true, decide_eq_true_iff, h.isSet_iff c' hc' hwindow,
      mem_cons]
    refine or_congr_left ⟨fun hmod => eq_of_mod_eq hmod ?_ ?_, fun heq => heq ▸ rfl⟩
    · have := h.next_eq
      omega
    · omega

/-! ## Packets -/

/-- `TransportState::decrypt`: a packet with a counter that passes is taken if it authenticates. -/
def decrypt (state : ReplayFilter × List ℕ) (packet : ℕ × Bool) : ReplayFilter × List ℕ :=
  match state.1.check packet.1 with
  | .ok () => if packet.2 then (state.1.update packet.1, packet.1 :: state.2) else state
  | .error _ => state

/-- The filter after these packets, and the counters it has taken. -/
def filtered (packets : List (ℕ × Bool)) : ReplayFilter × List ℕ := packets.foldl decrypt (new, [])

theorem Tracks.decrypt (h : f.Tracks taken) (hnodup : taken.Nodup) {packet : ℕ × Bool}
    (hcounter : packet.2 = true → packet.1 + 1 < U64_MAX) :
    (decrypt (f, taken) packet).1.Tracks (decrypt (f, taken) packet).2 ∧
      (decrypt (f, taken) packet).2.Nodup := by
  unfold ReplayFilter.decrypt
  split
  next hcheck =>
    split
    next hauth =>
      have hfresh := ((h.check_iff packet.1).mp hcheck).1
      exact ⟨h.update (hcounter hauth) hcheck, nodup_cons.mpr ⟨hfresh, hnodup⟩⟩
    · exact ⟨h, hnodup⟩
  · exact ⟨h, hnodup⟩

/-- **The filter is exact.** After any packets, of which none with one of the two largest counters
authenticates, no counter was taken twice, and the counters that pass are those that were not
taken and are not below the window. -/
theorem filtered_exact {packets : List (ℕ × Bool)}
    (hcounters : ∀ packet ∈ packets, packet.2 = true → packet.1 + 1 < U64_MAX) :
    (filtered packets).2.Nodup ∧ ∀ c, (filtered packets).1.check c = .ok () ↔
      c ∉ (filtered packets).2 ∧ limit (filtered packets).2 < c + REPLAY_WINDOW_BITS := by
  obtain ⟨htracks, hnodup⟩ : (filtered packets).1.Tracks _ ∧ (filtered packets).2.Nodup :=
    List.foldlRecOn packets decrypt
      (motive := fun state => state.1.Tracks state.2 ∧ state.2.Nodup) ⟨tracks_new, nodup_nil⟩
      fun _ h packet hmem => h.1.decrypt h.2 (hcounters packet hmem)
  exact ⟨hnodup, htracks.check_iff⟩

theorem filtered_exact_twice : (filtered [(5, true), (5, true), (7, true)]).2 = [7, 5] ∧
    (filtered [(5, true), (5, true), (7, true)]).2.Nodup :=
  ⟨by decide, (filtered_exact (by decide)).1⟩

/-- The largest counter is taken twice. After the second largest one, counters within the window
do not pass. -/
theorem filtered_inexact :
    (filtered [(U64_MAX, true), (U64_MAX, true)]).2 = [U64_MAX, U64_MAX] ∧
    (filtered [(U64_MAX - 1, true)]).2 = [U64_MAX - 1] ∧
    (filtered [(U64_MAX - 1, true)]).1.check (U64_MAX - 2) =
      .error (.outsideWindow (U64_MAX - 2) U64_MAX) := by
  decide

end ReplayFilter

end MonadBft.Wireauth
