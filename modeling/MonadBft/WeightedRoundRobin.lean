import Mathlib.Data.Int.CardIntervalMod

/-!
# Choosing the leader of a round

A draw of 256 bits is taken until it is at most `maxDraw`, and its remainder by the total stake is
looked up among the sums of the stakes. `owner` says whom an index should fall to: the validators'
stakes laid end to end. The search is that of `owner`, and the accepted draws are as many for each
index.
-/

namespace MonadBft.WeightedRoundRobin

open List

variable {N : Type} {validators : List (N × ℕ)} {m i : ℕ}

/-! ## The source -/

def U256_MAX : ℕ := 2 ^ 256 - 1

/-- The largest draw that is kept, `max` of the source. -/
def maxDraw (m : ℕ) : ℕ := U256_MAX - (U256_MAX - m + 1) % m

/-- The `i`-th 32 bytes of the generator, little-endian. -/
def draw (gen : ℕ → UInt8) (i : ℕ) : ℕ :=
  (List.range 32).foldr (fun k r => (gen (32 * i + k)).toNat + 256 * r) 0

/-- The loop, from the `i`-th draw: `none` if the fuel does not reach a draw that is kept. -/
def randomize256WithRng (gen : ℕ → UInt8) (m : ℕ) : ℕ → ℕ → Option ℕ
  | 0, _ => none
  | fuel + 1, i =>
    let r := draw gen i
    if r ≤ maxDraw m then some (r % m) else randomize256WithRng gen m fuel (i + 1)

/-- The validators with a stake, each with the total up to it, and the total. -/
def stakeBounds : ℕ → List (N × ℕ) → List (N × ℕ) × ℕ
  | totalStake, [] => ([], totalStake)
  | totalStake, (nodeId, stake) :: validators =>
    if 0 < stake then
      let totalStake := (totalStake + stake) % 2 ^ 256
      let r := stakeBounds totalStake validators
      ((nodeId, totalStake) :: r.1, r.2)
    else stakeBounds totalStake validators

/-- `none` where the source panics or the randomizer does not return. -/
def generateRandomValidatorWithRandomizer
    (binarySearchBy : List (N × ℕ) → (N × ℕ → Ordering) → Except ℕ ℕ) (validators : List (N × ℕ))
    (randomizeFromTotalStake : ℕ → Option ℕ) : Option N := do
  let (bounds, totalStake) := stakeBounds 0 validators
  if bounds.isEmpty then none
  let stakeIndex ← randomizeFromTotalStake totalStake
  match binarySearchBy bounds fun b => if b.2 > stakeIndex then .gt else .lt with
  | .ok _ => none
  | .error upperBound => (bounds[upperBound]?).map Prod.fst

/-- `slice::binary_search_by` on a list the comparison parts, where nothing is equal. -/
def IsBinarySearch (search : List (N × ℕ) → (N × ℕ → Ordering) → Except ℕ ℕ) : Prop :=
  ∀ l cmp, (∀ a ∈ l, cmp a ≠ .eq) → l.Pairwise (fun a b => cmp a = .gt → cmp b = .gt) →
    search l cmp = .error (l.findIdx fun a => cmp a == .gt)

/-! ## The draws -/

/-- A draw that is kept ends the loop, if none before it did. -/
theorem exists_randomize256WithRng {gen : ℕ → UInt8} {k : ℕ} (hm : 0 < m)
    (hkept : draw gen (i + k) ≤ maxDraw m) :
    ∃ r < m, ∀ fuel, randomize256WithRng gen m (fuel + k + 1) i = some r := by
  induction k generalizing i with
  | zero =>
    rw [Nat.add_zero] at hkept
    exact ⟨_, Nat.mod_lt _ hm, fun fuel => by rw [randomize256WithRng, if_pos hkept]⟩
  | succ k ih =>
    by_cases hi : draw gen i ≤ maxDraw m
    · exact ⟨_, Nat.mod_lt _ hm, fun fuel => by rw [randomize256WithRng, if_pos hi]⟩
    · obtain ⟨r, hr, hrun⟩ := ih (i := i + 1) (by rwa [Nat.add_right_comm])
      exact ⟨r, hr, fun fuel => by rw [randomize256WithRng, if_neg hi]; exact hrun fuel⟩

theorem maxDraw_succ (hm : 0 < m) (hlt : m < 2 ^ 256) : maxDraw m + 1 = m * (2 ^ 256 / m) := by
  have hmod : (2 ^ 256 - m) % m = 2 ^ 256 % m := by
    rw [← Nat.mod_eq_sub_mod hlt.le]
  have hdiv := Nat.div_add_mod (2 ^ 256) m
  have hle := Nat.mod_lt (2 ^ 256) hm
  unfold maxDraw U256_MAX
  rw [show 2 ^ 256 - 1 - m + 1 = 2 ^ 256 - m by omega, hmod]
  omega

/-- The draws that are kept are as many for each remainder. -/
theorem card_kept {v : ℕ} (hv : v < m) (hlt : m < 2 ^ 256) :
    ((Finset.range (2 ^ 256)).filter fun r => r ≤ maxDraw m ∧ r % m = v).card = 2 ^ 256 / m := by
  have hm := Nat.zero_lt_of_lt hv
  have hmax := maxDraw_succ hm hlt
  have hle := Nat.mul_div_le (2 ^ 256) m
  have hset : ((Finset.range (2 ^ 256)).filter fun r => r ≤ maxDraw m ∧ r % m = v) =
      (Finset.range (m * (2 ^ 256 / m))).filter (· ≡ v [MOD m]) := by
    ext r
    simp only [Finset.mem_filter, Finset.mem_range, Nat.ModEq, Nat.mod_eq_of_lt hv]
    omega
  rw [hset, ← Nat.count_eq_card_filter_range, Nat.count_modEq_card _ hm, Nat.mul_mod_right,
    Nat.mul_div_cancel_left _ hm]
  simp

/-! ## The search -/

/-- Whose stake the index falls in. -/
def owner : List (N × ℕ) → ℕ → Option N
  | [], _ => none
  | (nodeId, stake) :: validators, i =>
    if i < stake then some nodeId else owner validators (i - stake)

def total (validators : List (N × ℕ)) : ℕ := (validators.map Prod.snd).sum

theorem isSome_owner (hi : i < total validators) : (owner validators i).isSome = true := by
  fun_induction owner validators i with
  | case1 => cases hi
  | case2 => rfl
  | case3 nodeId stake validators i hge ih =>
    refine ih ?_
    simp only [total, map_cons, sum_cons] at hi ⊢
    omega

/-- Each validator owns as many indices as it has stake. -/
theorem count_owner [DecidableEq N] (validators : List (N × ℕ)) (v : N) :
    Nat.count (fun i => owner validators i = some v) (total validators) =
      total (validators.filter (·.1 = v)) := by
  induction validators with
  | nil => rfl
  | cons e validators ih =>
    obtain ⟨nodeId, stake⟩ := e
    have hrest : (fun k => owner ((nodeId, stake) :: validators) (stake + k) = some v) =
        fun k => owner validators k = some v := by
      simp [owner]
    rw [total, map_cons, sum_cons, Nat.count_add]
    simp only [hrest]
    rw [show (validators.map Prod.snd).sum = total validators from rfl, ih]
    by_cases hv : nodeId = v
    · rw [Nat.count_of_forall fun i hi => by simp [owner, hi, hv]]
      simp [total, hv]
    · rw [Nat.count_of_forall_not fun i hi => by simp [owner, hi, hv]]
      simp [hv]

theorem stakeBounds_spec {s : ℕ} (hlt : s + total validators < 2 ^ 256) :
    (stakeBounds s validators).2 = s + total validators ∧
    (stakeBounds s validators).1.Pairwise (fun a b => a.2 < b.2) ∧
    (∀ b ∈ (stakeBounds s validators).1, s < b.2) ∧
    ∀ i, ((stakeBounds s validators).1.find? fun b => b.2 > s + i).map Prod.fst =
      owner validators i := by
  induction validators generalizing s with
  | nil => simp [stakeBounds, total, owner]
  | cons e validators ih =>
    obtain ⟨nodeId, stake⟩ := e
    simp only [total, map_cons, sum_cons] at hlt ⊢
    rw [stakeBounds]
    split
    case isTrue hpos =>
      have hmod : (s + stake) % 2 ^ 256 = s + stake := Nat.mod_eq_of_lt (by omega)
      simp only [hmod]
      obtain ⟨htotal, hsorted, habove, hfind⟩ := ih (s := s + stake) (by rw [total]; omega)
      refine ⟨by rw [htotal, Nat.add_assoc]; rfl, pairwise_cons.mpr ⟨habove, hsorted⟩,
        ?_, fun i => ?_⟩
      · simp only [mem_cons, forall_eq_or_imp]
        exact ⟨by omega, fun b hb => by have := habove b hb; omega⟩
      · by_cases hi : i < stake
        · rw [List.find?_cons_of_pos (by simpa using hi), owner, if_pos hi]
          rfl
        · rw [List.find?_cons_of_neg (by simpa using hi), owner, if_neg hi, ← hfind]
          rw [show s + stake + (i - stake) = s + i by omega]
    case isFalse hzero =>
      obtain rfl : stake = 0 := by omega
      simpa [total, owner] using ih (s := s) (by rw [total]; omega)

/-- A randomizer that is asked for an index below `m` and gives `i`. -/
def gives (m i totalStake : ℕ) : Option ℕ := if totalStake = m then some i else none

variable {search : List (N × ℕ) → (N × ℕ → Ordering) → Except ℕ ℕ}

/-- The search finds the owner. -/
theorem generateRandomValidatorWithRandomizer_eq (hsearch : IsBinarySearch search)
    (hpos : 0 < total validators) (hlt : total validators < 2 ^ 256) (i : ℕ) :
    generateRandomValidatorWithRandomizer search validators (gives (total validators) i) =
      owner validators i := by
  obtain ⟨htotal, hsorted, -, hfind⟩ := stakeBounds_spec (s := 0) (by rwa [Nat.zero_add])
  have hfound := hsearch (stakeBounds 0 validators).1 (fun b => if b.2 > i then .gt else .lt)
    (fun a _ => by split <;> nofun) (hsorted.imp fun hab => by grind)
  have hgt : (fun b : N × ℕ => (if b.2 > i then Ordering.gt else .lt) == .gt) =
      fun b => decide (b.2 > 0 + i) := by grind
  have hne : (stakeBounds 0 validators).1 ≠ [] := by
    intro hnil
    have hsome := isSome_owner hpos
    rw [← hfind, hnil] at hsome
    cases hsome
  unfold generateRandomValidatorWithRandomizer
  simp [gives, htotal, hfound, hgt, ← hfind, List.find?_eq_getElem?_findIdx, hne]

end MonadBft.WeightedRoundRobin
