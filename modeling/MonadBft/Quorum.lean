import Mathlib.Algebra.BigOperators.Group.Finset.Basic
import Mathlib.Algebra.Order.BigOperators.Group.Finset
import Mathlib.Tactic.Linarith

/-!
# Weighted quorums

A finite set `V` of members with weights. A set is a quorum if its members hold more
than two thirds of the weight of `V`. What two quorums have in common holds more than
one third of it (`IsQuorum.lt_sum_inter`).
-/

open Finset

namespace MonadBft

variable {ι : Type*} [DecidableEq ι] (w : ι → ℕ) (V : Finset ι)

/-- The members in `A` hold more than two thirds of the weight. -/
def IsQuorum (A : Finset ι) : Prop := 2 * ∑ i ∈ V, w i < 3 * ∑ i ∈ A ∩ V, w i

variable {w V} {A B : Finset ι}

/-- The common part of two quorums holds more than one third of the weight. -/
theorem IsQuorum.lt_sum_inter (hA : IsQuorum w V A) (hB : IsQuorum w V B) :
    ∑ i ∈ V, w i < 3 * ∑ i ∈ (A ∩ V) ∩ (B ∩ V), w i := by
  have hunion : ∑ i ∈ (A ∩ V) ∪ (B ∩ V), w i ≤ ∑ i ∈ V, w i :=
    sum_le_sum_of_subset (union_subset inter_subset_right inter_subset_right)
  have hsum : ∑ i ∈ (A ∩ V) ∪ (B ∩ V), w i + ∑ i ∈ (A ∩ V) ∩ (B ∩ V), w i =
      ∑ i ∈ A ∩ V, w i + ∑ i ∈ B ∩ V, w i := sum_union_inter
  unfold IsQuorum at hA hB
  omega

end MonadBft
