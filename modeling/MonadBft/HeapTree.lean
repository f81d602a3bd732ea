import Mathlib.Algebra.BigOperators.Intervals
import Mathlib.Algebra.Order.BigOperators.Group.Finset

/-!
# Trees laid out in an array

A binary tree with `n` leaves in an array of `2 * n - 1` nodes: node `i + 1 < n` has the
children `2 * i + 1` and `2 * i + 2`, the other nodes are the leaves `0`, `1`, … in order.

`total n w i` is the sum of `w` over the leaves below node `i`. It is built from the bottom up
like the array, commutes with homomorphisms (`map_total`), and at the root it is the sum over all
leaves (`total_zero`).

`descend` looks for leaves that fail a test, going down from the root through the nodes that
fail it. Whatever the test is, it ends within `2 * n - 1` steps, and what it finds are different
leaves that fail (`descend_spec`). If the nodes that pass have total zero, the leaves found have
the total of the whole tree (`sum_descend`).
-/

namespace MonadBft.HeapTree

open Finset

variable {M N : Type*} [AddCommMonoid M] [AddCommMonoid N]

/-! ## Sums over the leaves below a node -/

/-- The sum of `w` over the leaves below node `i`. -/
def total (n : ℕ) (w : ℕ → M) (i : ℕ) : M :=
  if i + 1 < n then total n w (2 * i + 1) + total n w (2 * i + 2) else w (i + 1 - n)
termination_by n - i

variable {n i : ℕ} {w : ℕ → M}

theorem total_inner (h : i + 1 < n) :
    total n w i = total n w (2 * i + 1) + total n w (2 * i + 2) := by
  rw [total, if_pos h]

theorem total_leaf (h : ¬ i + 1 < n) : total n w i = w (i + 1 - n) := by
  rw [total, if_neg h]

/-- Induction from the leaves to the root. -/
theorem bottomUp {P : ℕ → Prop} (n : ℕ) (hleaf : ∀ i, ¬ i + 1 < n → P i)
    (hinner : ∀ i, i + 1 < n → P (2 * i + 1) → P (2 * i + 2) → P i) (i : ℕ) : P i := by
  induction hk : n - i using Nat.strong_induction_on generalizing i with
  | _ k ih =>
    by_cases h : i + 1 < n
    · exact hinner i h (ih _ (by omega) _ rfl) (ih _ (by omega) _ rfl)
    · exact hleaf i h

theorem map_total (φ : M →+ N) (n : ℕ) (w : ℕ → M) (i : ℕ) :
    φ (total n w i) = total n (fun j => φ (w j)) i := by
  induction i using bottomUp n with
  | hleaf i h => rw [total_leaf h, total_leaf h]
  | hinner i h hl hr => rw [total_inner h, total_inner h, map_add, hl, hr]

/-- The nodes from `k` to `2 * k` are above all leaves, each leaf once. -/
theorem sum_frontier {k : ℕ} (h : k < n) :
    ∑ i ∈ Ico k (2 * k + 1), total n w i = ∑ j ∈ range n, w j := by
  induction hm : n - k generalizing k with
  | zero => omega
  | succ m ih =>
    by_cases hk : k + 1 < n
    · -- the children of `k` are the last two nodes of the next frontier
      have hnext : ∑ i ∈ Ico (k + 1) (2 * (k + 1) + 1), total n w i
          = ∑ i ∈ Ico (k + 1) (2 * k + 1), total n w i + total n w (2 * k + 1)
            + total n w (2 * k + 2) := by
        rw [show 2 * (k + 1) + 1 = 2 * k + 2 + 1 by omega, sum_Ico_succ_top (by omega),
          sum_Ico_succ_top (by omega)]
      rw [← ih hk (by omega), hnext, sum_eq_sum_Ico_succ_bot (by omega), total_inner hk, add_comm,
        add_assoc]
    · obtain rfl : n = k + 1 := by omega
      rw [sum_Ico_eq_sum_range, show 2 * k + 1 - k = k + 1 by omega]
      refine sum_congr rfl fun j _ => ?_
      rw [total_leaf (by omega), show k + j + 1 - (k + 1) = j by omega]

theorem total_zero (h : 0 < n) : total n w 0 = ∑ j ∈ range n, w j := by
  rw [← sum_frontier h]
  simp

/-- A node has no more below it than the root. -/
theorem total_le_total_zero [PartialOrder M] [IsOrderedAddMonoid M] [CanonicallyOrderedAdd M]
    (n : ℕ) (w : ℕ → M) {i : ℕ} (hi : i < 2 * n - 1) : total n w i ≤ total n w 0 := by
  induction i using Nat.strong_induction_on with
  | _ i ih =>
    rcases Nat.eq_zero_or_pos i with rfl | hpos
    · exact le_rfl
    have hparent : (i - 1) / 2 + 1 < n := by omega
    refine le_trans ?_ (ih ((i - 1) / 2) (by omega) (by omega))
    rw [total_inner hparent]
    rcases (by omega : i = 2 * ((i - 1) / 2) + 1 ∨ i = 2 * ((i - 1) / 2) + 2) with h | h
    · rw [← h]
      exact le_self_add
    · rw [← h]
      exact le_add_self

/-! ## Looking for leaves that fail -/

/-- Breadth-first search for leaves that fail, below nodes that fail. -/
def descend (n : ℕ) (passes : ℕ → Bool) : ℕ → List ℕ → List ℕ → Option (List ℕ)
  | _, [], found => some found
  | 0, _ :: _, _ => none
  | fuel + 1, i :: queue, found =>
    if passes i then descend n passes fuel queue found
    else if i + 1 < n then descend n passes fuel (queue ++ [2 * i + 1, 2 * i + 2]) found
    else descend n passes fuel queue (found ++ [i + 1 - n])

variable {passes : ℕ → Bool} {fuel : ℕ} {queue found leaves : List ℕ}

/-- The nodes of a search are in the tree. -/
def InTree (n : ℕ) (queue : List ℕ) : Prop := ∀ i ∈ queue, i < 2 * n - 1

theorem InTree.children (h : InTree n (i :: queue)) (hi : i + 1 < n) :
    InTree n (queue ++ [2 * i + 1, 2 * i + 2]) := by
  intro k hk
  have hmem : k ∈ queue ∨ k = 2 * i + 1 ∨ k = 2 * i + 2 := by simpa using hk
  rcases hmem with hk | rfl | rfl
  · exact h k (by simp [hk])
  · omega
  · omega

theorem InTree.tail (h : InTree n (i :: queue)) : InTree n queue := fun k hk => h k (by simp [hk])

theorem one_le_total_one (n i : ℕ) : 1 ≤ total n (fun _ => 1) i := by
  induction i using bottomUp n with
  | hleaf i h => rw [total_leaf h]
  | hinner i h hl hr =>
    rw [total_inner h]
    omega

/-- Enough fuel is left as long as every leaf below the queue can still be reached. -/
theorem exists_descend (hfuel : 2 * (queue.map (total n fun _ => 1)).sum ≤ fuel + queue.length) :
    ∃ leaves, descend n passes fuel queue found = some leaves := by
  have hlen : ∀ l : List ℕ, l.length ≤ (l.map (total n fun _ => 1)).sum := by
    intro l
    induction l with
    | nil => simp
    | cons k l ih =>
      have := one_le_total_one n k
      simp only [List.length_cons, List.map_cons, List.sum_cons]
      omega
  fun_induction descend n passes fuel queue found with
  | case1 fuel found => exact ⟨found, rfl⟩
  | case2 i queue found =>
    exfalso
    have := hlen (i :: queue)
    simp only [List.length_cons] at this hfuel
    omega
  | case3 fuel i queue found _ ih =>
    have hone := one_le_total_one n i
    simp only [List.map_cons, List.sum_cons, List.length_cons] at hfuel
    exact ih (by omega)
  | case4 fuel i queue found _ hi ih =>
    refine ih ?_
    simp only [List.map_append, List.sum_append, List.length_append, List.map_cons, List.map_nil,
      List.sum_cons, List.sum_nil, List.length_cons, List.length_nil, total_inner hi] at hfuel ⊢
    omega
  | case5 fuel i queue found _ hi ih =>
    have hone := one_le_total_one n i
    simp only [List.map_cons, List.sum_cons, List.length_cons] at hfuel
    exact ih (by omega)

/-- If the nodes that pass have total zero, the total is kept while it is searched. -/
theorem sum_descend_of (hpass : ∀ i, passes i = true → total n w i = 0)
    (h : descend n passes fuel queue found = some leaves) :
    (leaves.map w).sum = (found.map w).sum + (queue.map (total n w)).sum := by
  fun_induction descend n passes fuel queue found with
  | case1 =>
    cases h
    simp
  | case2 => cases h
  | case3 fuel i queue found hi ih => rw [ih h, List.map_cons, List.sum_cons, hpass i hi, zero_add]
  | case4 fuel i queue found _ hi ih =>
    rw [ih h]
    simp only [List.map_append, List.sum_append, List.map_cons, List.map_nil,
      List.sum_cons, List.sum_nil, add_zero, total_inner hi]
    rw [add_comm (queue.map _).sum]
  | case5 fuel i queue found _ hi ih =>
    rw [ih h]
    simp only [List.map_append, List.sum_append, List.map_cons, List.map_nil,
      List.sum_cons, List.sum_nil, add_zero, total_leaf hi, add_assoc]

/-- However the search goes, it meets every leaf at most once. -/
theorem count_descend_le (k : ℕ) (h : descend n passes fuel queue found = some leaves) :
    leaves.count k ≤
      found.count k + (queue.map (total n fun j => if j = k then 1 else 0)).sum := by
  fun_induction descend n passes fuel queue found with
  | case1 =>
    cases h
    simp
  | case2 => cases h
  | case3 fuel i queue found _ ih =>
    have := ih h
    rw [List.map_cons, List.sum_cons]
    omega
  | case4 fuel i queue found _ hi ih =>
    have := ih h
    rw [List.map_cons, List.sum_cons, total_inner hi]
    simp only [List.map_append, List.sum_append, List.map_cons, List.map_nil,
      List.sum_cons, List.sum_nil] at this
    omega
  | case5 fuel i queue found _ hi ih =>
    have := ih h
    rw [List.map_cons, List.sum_cons, total_leaf hi]
    rw [List.count_append, List.count_singleton] at this
    simp only [beq_iff_eq] at this
    omega

theorem failing_descend (hq : InTree n queue)
    (hfound : ∀ j ∈ found, j < n ∧ passes (j + n - 1) = false)
    (h : descend n passes fuel queue found = some leaves) :
    ∀ j ∈ leaves, j < n ∧ passes (j + n - 1) = false := by
  fun_induction descend n passes fuel queue found with
  | case1 =>
    cases h
    exact hfound
  | case2 => cases h
  | case3 fuel i queue found _ ih => exact ih hq.tail hfound h
  | case4 fuel i queue found _ hin ih => exact ih (hq.children hin) hfound h
  | case5 fuel i queue found hi hin ih =>
    refine ih hq.tail (fun j hj => ?_) h
    rcases List.mem_append.mp hj with hj | hj
    · exact hfound j hj
    obtain rfl := List.mem_singleton.mp hj
    have := hq i (by simp)
    refine ⟨by omega, ?_⟩
    rw [show i + 1 - n + n - 1 = i by omega]
    simpa using hi

/-- The search from the root ends. It finds different leaves, and they fail. -/
theorem descend_spec (hn : 0 < n) (passes : ℕ → Bool) :
    ∃ leaves, descend n passes (2 * n - 1) [0] [] = some leaves ∧ leaves.Nodup ∧
      ∀ j ∈ leaves, j < n ∧ passes (j + n - 1) = false := by
  obtain ⟨leaves, h⟩ : ∃ leaves, descend n passes (2 * n - 1) [0] [] = some leaves := by
    refine exists_descend ?_
    simp only [List.map_cons, List.map_nil, List.sum_cons, List.sum_nil, total_zero hn]
    simp only [sum_const, card_range, Nat.nsmul_eq_mul, List.length_cons, List.length_nil]
    omega
  refine ⟨leaves, h, List.nodup_iff_count_le_one.mpr fun k => ?_,
    failing_descend (fun i hi => ?_) (by simp) h⟩
  · refine (count_descend_le k h).trans ?_
    simp only [List.count_nil, List.map_cons, List.map_nil, List.sum_cons, List.sum_nil,
      total_zero hn, sum_ite_eq', mem_range]
    split <;> omega
  · obtain rfl := List.mem_singleton.mp hi
    omega

/-- If the nodes that pass have total zero, the leaves found have the total of all leaves. -/
theorem sum_descend (hn : 0 < n) (hpass : ∀ i, passes i = true → total n w i = 0)
    (h : descend n passes (2 * n - 1) [0] [] = some leaves) :
    (leaves.map w).sum = ∑ j ∈ range n, w j := by
  rw [sum_descend_of hpass h, ← total_zero hn]
  simp

/-- Every leaf is found if no node passes. -/
theorem mem_of_descend (hn : 0 < n) (hfail : ∀ i, passes i = false)
    (h : descend n passes (2 * n - 1) [0] [] = some leaves) {j : ℕ} (hj : j < n) : j ∈ leaves := by
  have hsum := sum_descend (w := fun i => if i = j then 1 else 0) hn
    (fun i hi => by rw [hfail i] at hi; cases hi) h
  by_contra hmem
  rw [sum_ite_eq' (range n) j, if_pos (mem_range.mpr hj)] at hsum
  have hzero : (leaves.map fun i => if i = j then 1 else 0).sum = 0 := by
    refine List.sum_eq_zero fun x hx => ?_
    obtain ⟨i, hi, rfl⟩ := List.mem_map.mp hx
    exact if_neg (by rintro rfl; exact hmem hi)
  omega

end MonadBft.HeapTree
