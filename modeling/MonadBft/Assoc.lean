import Mathlib.Data.List.Induction
import Mathlib.Data.List.Sort
import MonadBft.Prog

/-!
# Association lists

Finite maps as lists of pairs. `insert` keeps the pairs in the order of their keys, for
maps that are iterated in key order, and `insertBy` does so for keys with an order of their own;
`set` puts the new pair first, for maps whose order does not matter. All replace the pair a key
had.

`group` collects the elements of a list under their keys. Every key occurs once, every
group is nonempty, and the groups together are the list (`perm_group`).

A heap is a list of which the greatest element is taken (`popMax`).
-/

namespace MonadBft.Assoc

open List

variable {κ β : Type*} [DecidableEq κ]

def get? (l : List (κ × β)) (k : κ) : Option β := (l.find? fun e => decide (e.1 = k)).map Prod.snd

def set (l : List (κ × β)) (k : κ) (v : β) : List (κ × β) :=
  (k, v) :: l.filter fun e => decide (e.1 ≠ k)

def remove (l : List (κ × β)) (k : κ) : List (κ × β) := l.filter fun e => decide (e.1 ≠ k)

/-- Set the value of a key, in key order. -/
def insert (l : List (ℕ × β)) (k : ℕ) (v : β) : List (ℕ × β) :=
  (l.filter fun e => decide (e.1 ≠ k)).orderedInsert (fun e e' => e.1 ≤ e'.1) (k, v)

variable {l : List (κ × β)} {k : κ} {v : β} {k' : κ}

theorem mem_of_get? (h : get? l k = some v) : (k, v) ∈ l := by
  obtain ⟨e, he, rfl⟩ := Option.map_eq_some_iff.mp h
  have hk : e.1 = k := by simpa using find?_some he
  rw [← hk]
  exact mem_of_find?_eq_some he

theorem get?_eq_none (h : ∀ e ∈ l, e.1 ≠ k) : get? l k = none := by
  unfold get?
  rw [find?_eq_none.mpr fun e he => by simpa using h e he, Option.map_none]

theorem get?_filter_ne (k' : κ) :
    get? (l.filter fun e => decide (e.1 ≠ k)) k' = if k' = k then none else get? l k' := by
  unfold get?
  rw [find?_filter]
  split
  next heq =>
    rw [find?_eq_none.mpr, Option.map_none]
    intro e _
    simp [heq]
  next hne =>
    congr 2
    funext e
    by_cases he : e.1 = k'
    · simp [he, hne]
    · simp [he]

theorem get?_of_mem (hnodup : (l.map Prod.fst).Nodup) (h : (k, v) ∈ l) : get? l k = some v := by
  cases hfind : l.find? fun e => decide (e.1 = k) with
  | none => simpa using find?_eq_none.mp hfind (k, v) h
  | some e =>
    have hkey : e.1 = k := by simpa using find?_some hfind
    have heq := inj_on_of_nodup_map hnodup (mem_of_find?_eq_some hfind) h hkey
    rw [get?, hfind, heq]
    rfl

theorem exists_get?_of_mem_keys (h : k ∈ l.map Prod.fst) : ∃ v, get? l k = some v := by
  obtain ⟨e, he, hk⟩ := mem_map.mp h
  have hsome : (l.find? fun e => decide (e.1 = k)).isSome :=
    find?_isSome.mpr ⟨e, he, by simpa using hk⟩
  obtain ⟨e', he'⟩ := Option.isSome_iff_exists.mp hsome
  exact ⟨e'.2, by rw [get?, he']; rfl⟩

theorem isSome_get? : (get? l k).isSome = true ↔ k ∈ l.map Prod.fst := by
  rw [Option.isSome_iff_exists]
  exact ⟨fun ⟨_, hv⟩ => mem_map_of_mem (mem_of_get? hv), exists_get?_of_mem_keys⟩

theorem remove_eq_self (h : get? l k = none) : remove l k = l := by
  refine filter_eq_self.mpr fun e he => decide_eq_true fun hk => ?_
  obtain ⟨v, hv⟩ := exists_get?_of_mem_keys (mem_map.mpr ⟨e, he, hk⟩)
  rw [h] at hv
  cases hv

/-- The entry of a key, and the others. -/
theorem perm_cons_remove (hnodup : (l.map Prod.fst).Nodup) (h : get? l k = some v) :
    l.Perm ((k, v) :: remove l k) := by
  have hmem := mem_of_get? h
  obtain ⟨l₁, l₂, rfl⟩ := append_of_mem hmem
  have hperm : (l₁ ++ (k, v) :: l₂).Perm ((k, v) :: (l₁ ++ l₂)) := perm_middle
  have hnot := (nodup_cons.mp ((hperm.map Prod.fst).nodup_iff.mp hnodup)).1
  have hother : ∀ e ∈ l₁ ++ l₂, e.1 ≠ k := by
    intro e he heq
    exact hnot (mem_map.mpr ⟨e, he, heq⟩)
  have hremove : remove (l₁ ++ (k, v) :: l₂) k = l₁ ++ l₂ := by
    rw [remove, filter_append, filter_cons_of_neg (by simp), ← filter_append]
    exact filter_eq_self.mpr fun e he => decide_eq_true (hother e he)
  rw [hremove]
  exact hperm

section Computed

variable {κ β : Type} {ε : Type*} {f : κ → Except ε β} {keys : List κ} {pairs : List (κ × β)}

section

variable (h : (keys.mapM fun k => f k >>= fun v => pure (k, v)) = .ok pairs)

include h

/-- A map that is computed key by key. -/
theorem forall_of_mapM : pairs.map Prod.fst = keys ∧ ∀ e ∈ pairs, f e.1 = .ok e.2 := by
  have hall := forall₂_of_mapM_eq_ok h
  clear h
  induction hall with
  | nil => exact ⟨rfl, by simp⟩
  | cons hk _ ih =>
    obtain ⟨v, hv, heq⟩ := bind_eq_ok.mp hk
    cases heq
    exact ⟨congrArg _ ih.1, forall_mem_cons.mpr ⟨hv, ih.2⟩⟩

variable [DecidableEq κ] {k : κ} {v : β}

theorem get?_mapM (hk : k ∈ keys) : ∃ v, f k = .ok v ∧ get? pairs k = some v := by
  obtain ⟨hkeys, hf⟩ := forall_of_mapM h
  obtain ⟨v, hv⟩ := exists_get?_of_mem_keys (hkeys ▸ hk)
  exact ⟨v, hf _ (mem_of_get? hv), hv⟩

theorem mem_of_get?_mapM (hk : get? pairs k = some v) : k ∈ keys := by
  rw [← (forall_of_mapM h).1]
  exact mem_map_of_mem (mem_of_get? hk)

end

end Computed

theorem get?_set (k' : κ) : get? (set l k v) k' = if k' = k then some v else get? l k' := by
  by_cases h : k' = k
  · simp [set, get?, h]
  · have hcons : get? (set l k v) k' = get? (l.filter fun e => decide (e.1 ≠ k)) k' := by
      simp [set, get?, Ne.symm h]
    rw [hcons, get?_filter_ne, if_neg h, if_neg h]

theorem get?_remove (k' : κ) : get? (remove l k) k' = if k' = k then none else get? l k' :=
  get?_filter_ne k'

theorem get?_remove_some (h : get? (remove l k) k' = some v) : k' ≠ k ∧ get? l k' = some v := by
  rw [get?_remove] at h
  split at h
  · cases h
  next hne => exact ⟨hne, h⟩

theorem nodup_remove (h : (l.map Prod.fst).Nodup) : ((remove l k).map Prod.fst).Nodup :=
  h.sublist (filter_sublist.map _)

theorem mem_keys_remove : k' ∈ (remove l k).map Prod.fst ↔ k' ∈ l.map Prod.fst ∧ k' ≠ k := by
  simp only [remove, mem_map, mem_filter, decide_eq_true_eq]
  constructor
  · rintro ⟨e, ⟨he, hne⟩, rfl⟩
    exact ⟨⟨e, he, rfl⟩, hne⟩
  · rintro ⟨⟨e, he, rfl⟩, hne⟩
    exact ⟨e, ⟨he, hne⟩, rfl⟩

theorem mem_keys_set : k' ∈ (set l k v).map Prod.fst ↔ k' = k ∨ k' ∈ l.map Prod.fst := by
  change k' ∈ k :: (remove l k).map Prod.fst ↔ _
  rw [mem_cons, mem_keys_remove]
  by_cases h : k' = k
  · simp [h]
  · simp [h]

theorem nodup_set (h : (l.map Prod.fst).Nodup) : ((set l k v).map Prod.fst).Nodup :=
  nodup_cons.mpr ⟨by simp, nodup_remove h⟩

theorem mem_set {e : κ × β} : e ∈ set l k v ↔ e = (k, v) ∨ (e ∈ l ∧ e.1 ≠ k) := by
  simp [set]

theorem mem_insert {l : List (ℕ × β)} {k : ℕ} {e : ℕ × β} :
    e ∈ insert l k v ↔ e = (k, v) ∨ (e ∈ l ∧ e.1 ≠ k) := by
  simp [insert, mem_orderedInsert]

theorem perm_insert {l : List (ℕ × β)} {k : ℕ} : (insert l k v).Perm ((k, v) :: remove l k) :=
  perm_orderedInsert _ _ _

/-- The keys stay in order. -/
theorem pairwise_insert {l : List (ℕ × β)} {k : ℕ} (h : l.Pairwise fun e e' => e.1 < e'.1) :
    (insert l k v).Pairwise fun e e' => e.1 < e'.1 := by
  induction l with
  | nil => simp [insert]
  | cons e l ih =>
    obtain ⟨hhead, htail⟩ := pairwise_cons.mp h
    have hlater : k < e.1 → ∀ e' ∈ l, e'.1 ≠ k := fun hk e' he' => by
      have := hhead e' he'
      omega
    unfold insert at ih ⊢
    rcases Nat.lt_trichotomy k e.1 with hk | hk | hk
    · have hfilter : l.filter (fun e => decide (e.1 ≠ k)) = l :=
        filter_eq_self.mpr fun e' he' => decide_eq_true (hlater hk e' he')
      rw [filter_cons_of_pos (by simpa using hk.ne'), hfilter, orderedInsert, if_pos hk.le]
      refine pairwise_cons.mpr ⟨fun e' he' => ?_, h⟩
      rcases mem_cons.mp he' with rfl | he'
      · exact hk
      · exact hk.trans (hhead e' he')
    · rw [filter_cons_of_neg (by simpa using hk.symm)]
      exact ih htail
    · rw [filter_cons_of_pos (by simpa using hk.ne), orderedInsert, if_neg (not_le.mpr hk)]
      refine pairwise_cons.mpr ⟨fun e' he' => ?_, ih htail⟩
      rcases mem_insert.mp he' with rfl | he'
      · exact hk
      · exact hhead e' he'.1

theorem nodup_insert {l : List (ℕ × β)} {k : ℕ} (h : (l.map Prod.fst).Nodup) :
    ((insert l k v).map Prod.fst).Nodup := by
  exact (perm_insert.map Prod.fst).nodup_iff.mpr
    (nodup_cons.mpr ⟨by simp [remove], nodup_remove h⟩)

/-- A new last key goes to the end. -/
theorem insert_of_lt {l : List (ℕ × β)} {k : ℕ} (h : ∀ e ∈ l, e.1 < k) :
    insert l k v = l ++ [(k, v)] := by
  have hfilter : (l.filter fun e => decide (e.1 ≠ k)) = l :=
    filter_eq_self.mpr fun e he => decide_eq_true (h e he).ne
  rw [insert, hfilter]
  clear hfilter
  induction l with
  | nil => rfl
  | cons e l ih =>
    have hlt : ¬k ≤ e.1 := not_le.mpr (h e (by simp))
    rw [orderedInsert, if_neg hlt, ih fun e' he' => h e' (by simp [he']), cons_append]

/-! ## Keys in any order -/

section InsertBy

variable {α : Type*} (le : κ → κ → Prop) [DecidableRel le] {r : α → α → Prop} [DecidableRel r]
  {p : α → Bool}

/-- Set the value of a key, in the order `le`. -/
def insertBy (l : List (κ × β)) (k : κ) (v : β) : List (κ × β) :=
  (l.filter fun e => decide (e.1 ≠ k)).orderedInsert (fun e e' => le e.1 e'.1) (k, v)

theorem find?_orderedInsert_of_not (a : α) (l : List α) (h : p a = false) :
    (l.orderedInsert r a).find? p = l.find? p := by
  induction l with
  | nil => simp [h]
  | cons b l ih =>
    rw [orderedInsert_cons]
    split
    · rw [find?_cons_of_neg (by simp [h])]
    · rw [find?_cons, find?_cons, ih]

theorem find?_orderedInsert_self (a : α) (l : List α) (ha : p a = true)
    (h : ∀ b ∈ l, p b = false) : (l.orderedInsert r a).find? p = some a := by
  induction l with
  | nil => simp [ha]
  | cons b l ih =>
    rw [orderedInsert_cons]
    split
    · rw [find?_cons_of_pos ha]
    · rw [find?_cons_of_neg (by simp [h b]), ih fun b hb => h b (by simp [hb])]

theorem get?_insertBy (k' : κ) :
    get? (insertBy le l k v) k' = if k' = k then some v else get? l k' := by
  unfold insertBy
  by_cases hk : k' = k
  · rw [if_pos hk, get?, find?_orderedInsert_self]
    · rfl
    · simp [hk]
    · intro e he
      have : e.1 ≠ k := by simpa using (mem_filter.mp he).2
      simpa [hk] using this
  · rw [if_neg hk, get?, find?_orderedInsert_of_not _ _ (by simp [Ne.symm hk])]
    exact (get?_filter_ne k').trans (if_neg hk)

theorem perm_insertBy : (insertBy le l k v).Perm ((k, v) :: remove l k) := perm_orderedInsert _ _ _

theorem length_insertBy_le : (insertBy le l k v).length ≤ l.length + 1 := by
  rw [(perm_insertBy le).length_eq, length_cons]
  exact Nat.succ_le_succ (length_filter_le _ _)

theorem nodup_insertBy (h : (l.map Prod.fst).Nodup) : ((insertBy le l k v).map Prod.fst).Nodup := by
  refine ((perm_insertBy le).map _).nodup_iff.mpr (nodup_cons.mpr ⟨fun hmem => ?_, nodup_remove h⟩)
  exact (mem_keys_remove.mp hmem).2 rfl

end InsertBy

/-! ## Grouping -/

def addTo (k : κ) (v : β) : List (κ × List β) → List (κ × List β)
  | [] => [(k, [v])]
  | (k', vs) :: groups =>
    if k' = k then (k', vs ++ [v]) :: groups else (k', vs) :: addTo k v groups

variable {α : Type*} (key : α → κ) (value : α → β) {groups : List (κ × List β)} {g : κ × List β}

/-- The values of a list under their keys. -/
def group (l : List α) : List (κ × List β) :=
  l.foldl (fun groups a => addTo (key a) (value a) groups) []

theorem mem_keys_addTo {k : κ} {v : β} :
    k' ∈ (addTo k v groups).map Prod.fst ↔ k' = k ∨ k' ∈ groups.map Prod.fst := by
  fun_induction addTo k v groups with
  | case1 => simp
  | case2 => simp
  | case3 k₁ vs groups hne ih =>
    rw [map_cons, map_cons, mem_cons, mem_cons, ih]
    exact or_left_comm

theorem nodup_addTo {k : κ} {v : β} (h : (groups.map Prod.fst).Nodup) :
    ((addTo k v groups).map Prod.fst).Nodup := by
  fun_induction addTo k v groups with
  | case1 => simp
  | case2 => exact h
  | case3 k₁ vs groups hne ih =>
    obtain ⟨hnot, hnd⟩ := nodup_cons.mp h
    refine nodup_cons.mpr ⟨fun hmem => ?_, ih hnd⟩
    rcases mem_keys_addTo.mp hmem with heq | hmem
    · exact hne heq
    · exact hnot hmem

theorem mem_addTo {k : κ} {v : β} (h : g ∈ addTo k v groups) :
    g ∈ groups ∨ g.1 = k ∧ ∃ vs, g.2 = vs ++ [v] ∧ (vs = [] ∨ (k, vs) ∈ groups) := by
  fun_induction addTo k v groups with
  | case1 =>
    obtain rfl := mem_singleton.mp h
    exact .inr ⟨rfl, [], rfl, .inl rfl⟩
  | case2 vs groups =>
    rcases mem_cons.mp h with rfl | h
    · exact .inr ⟨rfl, vs, rfl, .inr (by simp)⟩
    · exact .inl (mem_cons_of_mem _ h)
  | case3 k₁ vs groups hne ih =>
    rcases mem_cons.mp h with rfl | h
    · exact .inl (by simp)
    · rcases ih h with hmem | ⟨hk, ws, hws, hold⟩
      · exact .inl (mem_cons_of_mem _ hmem)
      · exact .inr ⟨hk, ws, hws, hold.imp id (mem_cons_of_mem _)⟩

theorem flatMap_addTo_perm {k : κ} {v : β} :
    ((addTo k v groups).flatMap Prod.snd).Perm (groups.flatMap Prod.snd ++ [v]) := by
  fun_induction addTo k v groups with
  | case1 => simp
  | case2 vs groups =>
    simp only [flatMap_cons, append_assoc]
    exact List.Perm.append_left vs perm_append_comm
  | case3 k₁ vs groups hne ih =>
    simp only [flatMap_cons, append_assoc]
    exact ih.append_left vs

variable {key value} {l : List α}

theorem group_append_singleton (l : List α) (a : α) :
    group key value (l ++ [a]) = addTo (key a) (value a) (group key value l) := by
  unfold group
  rw [foldl_append]
  rfl

theorem nodup_group : ((group key value l).map Prod.fst).Nodup := by
  induction l using reverseRecOn with
  | nil => simp [group]
  | append_singleton l a ih =>
    rw [group_append_singleton]
    exact nodup_addTo ih

/-- A group is nonempty and made of elements with its key. -/
theorem of_mem_group (h : g ∈ group key value l) :
    g.2 ≠ [] ∧ ∀ v ∈ g.2, ∃ a ∈ l, key a = g.1 ∧ value a = v := by
  induction l using reverseRecOn generalizing g with
  | nil => simp [group] at h
  | append_singleton l a ih =>
    have hmono : ∀ {g : κ × List β}, (∀ v ∈ g.2, ∃ a ∈ l, key a = g.1 ∧ value a = v) →
        ∀ v ∈ g.2, ∃ b ∈ l ++ [a], key b = g.1 ∧ value b = v := by
      intro g hg v hv
      obtain ⟨b, hb, hb'⟩ := hg v hv
      exact ⟨b, mem_append_left _ hb, hb'⟩
    rw [group_append_singleton] at h
    rcases mem_addTo h with hold | ⟨hk, vs, hvs, hold⟩
    · exact ⟨(ih hold).1, hmono (ih hold).2⟩
    refine ⟨by simp [hvs], fun v hv => ?_⟩
    rw [hvs] at hv
    rcases mem_append.mp hv with hv | hv
    · rcases hold with rfl | hold
      · cases hv
      · rw [hk]
        exact hmono (ih hold).2 v hv
    · exact ⟨a, by simp, hk.symm, (mem_singleton.mp hv).symm⟩

theorem key_mem_group {a : α} (h : a ∈ l) : key a ∈ (group key value l).map Prod.fst := by
  induction l using reverseRecOn with
  | nil => cases h
  | append_singleton l b ih =>
    rw [group_append_singleton, mem_keys_addTo]
    rcases mem_append.mp h with h | h
    · exact .inr (ih h)
    · rw [mem_singleton.mp h]
      exact .inl rfl

/-- The groups together are the list. -/
theorem perm_group : ((group key value l).flatMap Prod.snd).Perm (l.map value) := by
  induction l using reverseRecOn with
  | nil => simp [group]
  | append_singleton l a ih =>
    rw [group_append_singleton, map_append, map_singleton]
    exact flatMap_addTo_perm.trans (ih.append_right _)

end MonadBft.Assoc

namespace MonadBft

/-- Take out the greatest element. -/
def popMax {α : Type} (lt : α → α → Bool) : List α → Option (α × List α)
  | [] => none
  | a :: l =>
    match popMax lt l with
    | none => some (a, [])
    | some (top, rest) => if lt top a then some (a, top :: rest) else some (top, a :: rest)

theorem eq_nil_of_popMax {α : Type} {lt : α → α → Bool} {l : List α} (h : popMax lt l = none) :
    l = [] := by
  cases l with
  | nil => rfl
  | cons a l =>
    unfold popMax at h
    split at h
    · cases h
    · split at h <;> cases h

theorem popMax_perm {α : Type} {lt : α → α → Bool} {l rest : List α} {top : α}
    (h : popMax lt l = some (top, rest)) : l.Perm (top :: rest) := by
  fun_induction popMax lt l generalizing top rest with
  | case1 => cases h
  | case2 a l hnone =>
    cases h
    rw [eq_nil_of_popMax hnone]
  | case3 a l _ _ hsome _ ih =>
    cases h
    exact (ih hsome).cons a
  | case4 a l top' rest' hsome _ ih =>
    obtain ⟨rfl, rfl⟩ := Prod.mk.inj (Option.some.inj h)
    exact ((ih hsome).cons a).trans (.swap top' a rest')

end MonadBft
