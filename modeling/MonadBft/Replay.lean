import MonadBft.Assoc

/-!
# Collections that report their changes

A collection of items is changed step by step, and each step leaves an event under the name of
the item it is about. A step may add an item, remove one, or refuse one that is offered. The
events are kept by name, so a later event of an item replaces an earlier one.

Whoever knows which items were there and then reads the events can tell which are there now
(`Changes.replays`): an item with an event is there if the event is that of an addition, and
one without is there if it was. This takes that nothing is offered that is there already, and
nothing twice. Every item that is offered has an event, without that (`Changes.reported`).
-/

namespace MonadBft.Replay

open Assoc List

variable {α ι ε : Type*} [DecidableEq ι] (name : α → ι) (adds : ε → Bool)

/-- The changes from a collection and its events to another, with the names of the items that
are offered on the way. -/
inductive Changes (s : List α × List (ι × ε)) : List ι → List α × List (ι × ε) → Prop
  | none {items : List α} (hperm : s.1.Perm items) : Changes s [] (items, s.2)
  | refuse {offered : List ι} {items : List α} {events : List (ι × ε)} (i : ι) (event : ε)
      (hadds : adds event = false) (h : Changes s offered (items, events)) :
      Changes s (offered ++ [i]) (items, Assoc.set events i event)
  | add {offered : List ι} {items items' : List α} {events : List (ι × ε)} (x : α) (event : ε)
      (hadds : adds event = true) (hperm : items'.Perm (x :: items))
      (h : Changes s offered (items, events)) :
      Changes s (offered ++ [name x]) (items', Assoc.set events (name x) event)
  | remove {offered : List ι} {items items' : List α} {events : List (ι × ε)} (x : α) (event : ε)
      (hadds : adds event = false) (hperm : items.Perm (x :: items'))
      (h : Changes s offered (items, events)) :
      Changes s offered (items', Assoc.set events (name x) event)

/-- Whether an item is there, as told from whether it was and from its event. -/
def replay (was : Prop) : Option ε → Prop
  | none => was
  | some event => adds event = true

/-- Read one event: an addition adds its name, any other event removes it. -/
def applyEvent (known : List ι) (e : ι × ε) : List ι :=
  if adds e.2 then if e.1 ∈ known then known else e.1 :: known
  else known.filter fun i => decide (i ≠ e.1)

/-- Read the events of a map. -/
def applyEvents (known : List ι) (events : List (ι × ε)) : List ι :=
  events.foldl (applyEvent adds) known

variable {name adds} {s s' s'' : List α × List (ι × ε)} {offered offered' : List ι} {known : List ι}
  {i : ι} {events : List (ι × ε)}

theorem mem_applyEvent {e : ι × ε} :
    i ∈ applyEvent adds known e ↔ if i = e.1 then adds e.2 = true else i ∈ known := by
  unfold applyEvent
  by_cases hadds : adds e.2 = true
  · rw [if_pos hadds]
    by_cases hi : i = e.1
    · rw [if_pos hi, hi]
      split <;> simp_all
    · rw [if_neg hi]
      split <;> simp [hi]
  · rw [if_neg hadds]
    by_cases hi : i = e.1
    · simp [hi, hadds]
    · simp [hi]

/-- Reading events in any order is replaying them, since they are by name. -/
theorem mem_applyEvents (hnodup : (events.map Prod.fst).Nodup) :
    i ∈ applyEvents adds known events ↔ replay adds (i ∈ known) (get? events i) := by
  induction events generalizing known with
  | nil => exact Iff.rfl
  | cons e events ih =>
    obtain ⟨hnot, hnodup'⟩ := nodup_cons.mp hnodup
    unfold applyEvents at ih ⊢
    rw [foldl_cons, ih hnodup']
    by_cases hi : i = e.1
    · have hnone : get? events i = none :=
        get?_eq_none fun e' he' heq =>
          hnot (mem_map.mpr ⟨e', he', heq.trans hi⟩)
      have hsome : get? (e :: events) i = some e.2 := by
        simp [get?, hi]
      rw [hnone, hsome]
      simp [replay, mem_applyEvent, hi]
    · have hget : get? (e :: events) i = get? events i := by
        unfold get?
        rw [List.find?_cons_of_neg (by simpa using Ne.symm hi)]
      rw [hget]
      cases get? events i with
      | none => simp [replay, mem_applyEvent, hi]
      | some event => exact Iff.rfl

namespace Changes

theorem refl : Changes name adds s [] s := .none (.refl _)

section

variable (h : Changes name adds s offered s') {items : List α}

include h

/-- The order of the items does not matter. -/
theorem perm (hperm : s'.1.Perm items) : Changes name adds s offered (items, s'.2) := by
  induction h generalizing items with
  | none hp => exact .none (hp.trans hperm)
  | refuse i event hadds _ ih => exact .refuse i event hadds (ih hperm)
  | add x event hadds hp h _ => exact .add x event hadds (hperm.symm.trans hp) h
  | remove x event hadds hp h _ => exact .remove x event hadds (hp.trans (hperm.cons x)) h

theorem trans (h' : Changes name adds s' offered' s'') :
    Changes name adds s (offered ++ offered') s'' := by
  induction h' with
  | none hperm =>
    rw [append_nil]
    exact h.perm hperm
  | refuse i event hadds _ ih =>
    rw [← append_assoc]
    exact .refuse i event hadds ih
  | add x event hadds hperm _ ih =>
    rw [← append_assoc]
    exact .add x event hadds hperm ih
  | remove x event hadds hperm _ ih => exact .remove x event hadds hperm ih

omit h in
/-- Items that are removed one after the other. -/
theorem removeAll (xs : List α) (event : ε) (hadds : adds event = false) :
    Changes name adds (xs ++ items, events) []
      (items, xs.foldl (fun events x => Assoc.set events (name x) event) events) := by
  induction xs generalizing events with
  | nil => exact .refl
  | cons x xs ih => exact (remove x event hadds (.refl _) .refl).trans ih

/-- Names have one event each. -/
theorem nodup_events (hnodup : (s.2.map Prod.fst).Nodup) : (s'.2.map Prod.fst).Nodup := by
  induction h with
  | none => exact hnodup
  | refuse _ _ _ _ ih => exact nodup_set ih
  | add _ _ _ _ _ ih => exact nodup_set ih
  | remove _ _ _ _ _ ih => exact nodup_set ih

/-- Every item that is offered has an event. -/
theorem reported (hi : i ∈ offered) : (get? s'.2 i).isSome := by
  induction h with
  | none => cases hi
  | refuse j event hadds h ih =>
    simp only [get?_set]
    split
    · rfl
    next hne => exact ih ((mem_append.mp hi).resolve_right (by simpa using hne))
  | add x event hadds hperm h ih =>
    simp only [get?_set]
    split
    · rfl
    next hne => exact ih ((mem_append.mp hi).resolve_right (by simpa using hne))
  | remove x event hadds hperm h ih =>
    simp only [get?_set]
    split
    · rfl
    · exact ih hi

/-- What is there was there or has been offered. -/
theorem mem_or_offered (hi : i ∈ s'.1.map name) : i ∈ s.1.map name ∨ i ∈ offered := by
  induction h with
  | none hperm => exact .inl ((hperm.map name).mem_iff.mpr hi)
  | refuse j event hadds h ih => exact (ih hi).imp_right (mem_append_left _)
  | add x event hadds hperm h ih =>
    rcases mem_cons.mp ((hperm.map name).mem_iff.mp hi) with rfl | hi
    · exact .inr (by simp)
    · exact (ih hi).imp_right (mem_append_left _)
  | remove x event hadds hperm h ih =>
    exact ih ((hperm.map name).mem_iff.mpr (mem_cons_of_mem _ hi))

/-- Names stay different if nothing is offered that is there, and nothing twice. The items that
are there are those that a replay of the events finds. -/
theorem replays {was : ι → Prop} (hnodup : (s.1.map name).Nodup)
    (hnew : ∀ i ∈ offered, i ∉ s.1.map name) (honce : offered.Nodup)
    (hwas : ∀ i, i ∈ s.1.map name ↔ replay adds (was i) (get? s.2 i)) :
    (s'.1.map name).Nodup ∧ ∀ i, i ∈ s'.1.map name ↔ replay adds (was i) (get? s'.2 i) := by
  induction h with
  | none hperm =>
    have hmap := hperm.map name
    exact ⟨hmap.nodup_iff.mp hnodup, fun i => hmap.mem_iff.symm.trans (hwas i)⟩
  | @refuse offered items events j event hadds h ih =>
    obtain ⟨honce', -, hdisj⟩ := nodup_append.mp honce
    obtain ⟨hnodup', hiff⟩ := ih (fun i hi => hnew i (mem_append_left _ hi)) honce'
    refine ⟨hnodup', fun i => ?_⟩
    rw [get?_set]
    split
    next heq =>
      have hnot : i ∉ items.map name := by
        intro hi
        rw [heq] at hi
        rcases h.mem_or_offered hi with hi | hi
        · exact hnew j (by simp) hi
        · exact hdisj j hi j (by simp) rfl
      simp [replay, hnot, hadds]
    · exact hiff i
  | @add offered items items' events x event hadds hperm h ih =>
    obtain ⟨honce', -, hdisj⟩ := nodup_append.mp honce
    obtain ⟨hnodup', hiff⟩ := ih (fun i hi => hnew i (mem_append_left _ hi)) honce'
    have hnot : name x ∉ items.map name := by
      intro hi
      rcases h.mem_or_offered hi with hi | hi
      · exact hnew (name x) (by simp) hi
      · exact hdisj _ hi _ (by simp) rfl
    have hmap := hperm.map name
    refine ⟨hmap.nodup_iff.mpr (nodup_cons.mpr ⟨hnot, hnodup'⟩), fun i => ?_⟩
    rw [hmap.mem_iff, get?_set]
    split
    next heq => simp [replay, heq, hadds]
    next hne =>
      rw [map_cons, mem_cons, hiff i]
      simp [hne]
  | @remove offered items items' events x event hadds hperm h ih =>
    obtain ⟨hnodup', hiff⟩ := ih hnew honce
    have hmap := hperm.map name
    obtain ⟨hnot, hnodup''⟩ := nodup_cons.mp (hmap.nodup_iff.mp hnodup')
    refine ⟨hnodup'', fun i => ?_⟩
    rw [get?_set]
    split
    next heq =>
      rw [← heq] at hnot
      simp [replay, hnot, hadds]
    next hne =>
      rw [← hiff i, hmap.mem_iff, map_cons, mem_cons]
      simp [hne]

end

end Changes

end MonadBft.Replay
