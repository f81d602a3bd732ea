import Mathlib.Data.List.Perm.Subperm
import Mathlib.Data.List.Nodup

/-!
# Breadth-first traversals

A traversal takes the first element of a queue and may append its children. It ends if
no element is queued twice: then `queue.length + rest.length` steps are enough, where
`rest` has the elements that may still be queued. `Frontier` is the invariant, `skip` the
step that drops the first element and `visit` the step that appends its children.
-/

namespace MonadBft

open List

variable {ι : Type*}

/-- Every element of the queue or the rest has its children, each once, in the rest, and no
two elements share a child. -/
structure Frontier (children : ι → List ι) (queue rest : List ι) : Prop where
  nodup : (queue ++ rest).Nodup
  children_nodup : ∀ x ∈ queue ++ rest, (children x).Nodup
  children_subset : ∀ x ∈ queue ++ rest, children x ⊆ rest
  children_unique : ∀ x ∈ queue ++ rest, ∀ y ∈ queue ++ rest,
    ∀ c ∈ children x, c ∈ children y → x = y

namespace Frontier

variable {children : ι → List ι} {x : ι} {queue rest : List ι}

theorem sublist {queue' : List ι} (h : Frontier children queue rest) (hsub : queue' <+ queue) :
    Frontier children queue' rest := by
  have hall := hsub.append_right rest
  exact
    { nodup := h.nodup.sublist hall
      children_nodup := fun y hy => h.children_nodup y (hall.subset hy)
      children_subset := fun y hy => h.children_subset y (hall.subset hy)
      children_unique := fun y hy z hz =>
        h.children_unique y (hall.subset hy) z (hall.subset hz) }

theorem skip (h : Frontier children (x :: queue) rest) : Frontier children queue rest :=
  h.sublist (sublist_cons_self x queue)

theorem visit [DecidableEq ι] (h : Frontier children (x :: queue) rest) :
    ∃ rest', Frontier children (queue ++ children x) rest' ∧
      (queue ++ children x).length + rest'.length = queue.length + rest.length := by
  have hx : x ∈ x :: queue ++ rest := mem_cons_self
  have hsub := subperm_of_subset (h.children_nodup x hx) (h.children_subset x hx)
  have hrest := subperm_append_diff_self_of_count_le (subperm_ext_iff.mp hsub)
  have hall : (queue ++ children x ++ rest.diff (children x)).Perm (queue ++ rest) := by
    rw [append_assoc]
    exact hrest.append_left queue
  obtain ⟨hnot, hnodup⟩ := nodup_cons.mp h.nodup
  refine ⟨rest.diff (children x), ?_, ?_⟩
  · constructor
    · exact hall.nodup_iff.mpr hnodup
    · intro y hy
      exact h.skip.children_nodup y (hall.mem_iff.mp hy)
    · intro y hy c hc
      have hy' := hall.mem_iff.mp hy
      rcases mem_append.mp (hrest.mem_iff.mpr (h.skip.children_subset y hy' hc)) with hcx | hc'
      · have hxy := h.children_unique x hx y (mem_cons_of_mem x hy') c hcx hc
        exact absurd (hxy ▸ hy') hnot
      · exact hc'
    · intro y hy z hz
      exact h.skip.children_unique y (hall.mem_iff.mp hy) z (hall.mem_iff.mp hz)
  · have hlen := hall.length_eq
    simp only [length_append] at hlen ⊢
    omega

end Frontier

end MonadBft
