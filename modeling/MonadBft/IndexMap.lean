import Mathlib.Data.List.Perm.Basic
import MonadBft.Assoc

/-!
# Maps in index order

A map with the operations of an index map: entries have positions, an entry is changed in
place, a new one comes last, and the last one takes the place of one that is removed. The keys
are distinct in the maps this is used for.

What an operation does to the entries, in whatever order, is said by `Splits`: an entry and the
others. It is the entry that is changed (`Splits.replace`) or left out
(`Splits.swapRemove`).
-/

set_option linter.unusedSectionVars false

namespace MonadBft.IndexMap

open Assoc List

variable {κ β : Type*} [DecidableEq κ]

def replace (l : List (κ × β)) (k : κ) (v : β) : List (κ × β) :=
  l.map fun e => if e.1 = k then (k, v) else e

/-- Remove an entry. The last one takes its place. -/
def swapRemoveIndex (l : List (κ × β)) (i : ℕ) : List (κ × β) :=
  match l.getLast? with
  | none => []
  | some last => (l.set i last).dropLast

def swapRemove (l : List (κ × β)) (k : κ) : List (κ × β) :=
  swapRemoveIndex l (l.findIdx fun e => decide (e.1 = k))

/-- The entries are that of the key and the others. -/
structure Splits (l : List (κ × β)) (k : κ) (v : β) (others : List (κ × β)) : Prop where
  perm : l.Perm ((k, v) :: others)
  fresh : ∀ e ∈ others, e.1 ≠ k
  nodup : (others.map Prod.fst).Nodup

variable {l others : List (κ × β)} {k : κ} {v v' : β} {e : κ × β}

theorem perm_swapRemoveIndex {i : ℕ} (h : l[i]? = some e) : l.Perm (e :: swapRemoveIndex l i) := by
  obtain ⟨hi, rfl⟩ := List.getElem?_eq_some_iff.mp h
  obtain ⟨init, last, rfl⟩ : ∃ init last, l = init ++ [last] :=
    ⟨l.dropLast, l.getLast (by rintro rfl; simp at hi), (dropLast_append_getLast _).symm⟩
  have hremove : swapRemoveIndex (init ++ [last]) i = ((init ++ [last]).set i last).dropLast := by
    simp [swapRemoveIndex]
  rw [hremove]
  by_cases hlast : i < init.length
  · have hset : (init ++ [last]).set i last = init.set i last ++ [last] := set_append_left _ _ hlast
    have hsplit : init = init.take i ++ init[i] :: init.drop (i + 1) := by simp
    rw [hset, dropLast_concat, getElem_append_left hlast,
      set_eq_take_append_cons_drop, if_pos hlast]
    calc (init ++ [last]).Perm (last :: init) := perm_append_singleton last init
      _ = last :: (init.take i ++ init[i] :: init.drop (i + 1)) := by rw [← hsplit]
      _ |>.Perm (last :: init[i] :: (init.take i ++ init.drop (i + 1))) := perm_middle.cons last
      _ |>.Perm (init[i] :: last :: (init.take i ++ init.drop (i + 1))) := .swap _ _ _
      _ |>.Perm (init[i] :: (init.take i ++ last :: init.drop (i + 1))) := perm_middle.symm.cons _
  · obtain rfl : i = init.length := by simp at hi; omega
    have hset : (init ++ [last]).set init.length last = init ++ [last] := by simp
    rw [hset, dropLast_concat, getElem_concat_length rfl]
    exact perm_append_singleton last init

/-- The entry at an index is changed. -/
theorem perm_set {i : ℕ} (h : l[i]? = some e) (e' : κ × β) :
    (l.set i e').Perm (e' :: swapRemoveIndex l i) := by
  obtain ⟨hi, rfl⟩ := List.getElem?_eq_some_iff.mp h
  have hothers := (getElem_cons_eraseIdx_perm hi).trans (perm_swapRemoveIndex h)
  exact (set_perm_cons_eraseIdx hi e').trans (hothers.cons_inv.cons e')

/-- The entry that is looked up, and the others. -/
theorem Splits.of_get? (hnodup : (l.map Prod.fst).Nodup) (h : get? l k = some v) :
    Splits l k v (swapRemove l k) := by
  have hmem := mem_of_get? h
  have hlt : l.findIdx (fun e => decide (e.1 = k)) < l.length :=
    findIdx_lt_length_of_exists ⟨_, hmem, by simp⟩
  have hkey : (l[l.findIdx fun e => decide (e.1 = k)]).1 = k := by
    simpa using @findIdx_getElem _ (fun e => decide (e.1 = k)) l hlt
  have hentry : l[l.findIdx fun e => decide (e.1 = k)]? = some (k, v) := by
    rw [List.getElem?_eq_getElem hlt]
    have := inj_on_of_nodup_map hnodup (getElem_mem hlt) hmem hkey
    rw [this]
  have hperm := perm_swapRemoveIndex hentry
  have hkeys := (hperm.map Prod.fst).nodup_iff.mp hnodup
  obtain ⟨hfresh, hnodup'⟩ := nodup_cons.mp hkeys
  exact ⟨hperm, fun e he heq => hfresh (mem_map.mpr ⟨e, he, heq⟩), hnodup'⟩

theorem Splits.replace (h : Splits l k v others) : Splits (replace l k v') k v' others := by
  refine ⟨?_, h.fresh, h.nodup⟩
  have hmap := h.perm.map fun e => if e.1 = k then (k, v') else e
  have hothers : (others.map fun e => if e.1 = k then (k, v') else e) = others := by
    refine (map_congr_left fun e he => ?_).trans (map_id _)
    rw [if_neg (h.fresh e he)]
    rfl
  rw [map_cons, if_pos rfl, hothers] at hmap
  exact hmap

end MonadBft.IndexMap
