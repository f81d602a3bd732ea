import Mathlib.Tactic.Linarith
import MonadBft.Assoc

/-!
# Checks that remember what they accepted

`Lru` is a map of bounded size that forgets the least recently used entry. A memoized
check looks its key up first and records it when the check passes.

`Transparent` relates a check that reads and writes such a memory to the check without
it: from every memory that is `Sound`, the memory being sound afterwards, it returns what
the plain check returns. It is closed under sequencing (`Transparent.bind`), plain checks
satisfy it (`Transparent.lift`), a check may be skipped if the memory only holds what the
plain check accepts (`Transparent.unlessCached`), and what keeps the memory sound may be
written once it passed (`Transparent.record`). `Transparent.runAll` is the statement for a
sequence of checks that share one memory.
-/

namespace MonadBft

open Assoc

/-! ## Least recently used entries -/

variable {Key Value : Type} [DecidableEq Key]

/-- At most `capacity` entries, the most recent one first. -/
structure Lru (Key Value : Type) (capacity : ℕ) where
  entries : List (Key × Value)
  nodup : (entries.map Prod.fst).Nodup
  length_le : entries.length ≤ capacity

namespace Lru

variable {capacity : ℕ} {lru : Lru Key Value capacity} {e : Key × Value} {key : Key} {value : Value}

def empty (Key Value : Type) (capacity : ℕ) : Lru Key Value capacity :=
  ⟨[], List.nodup_nil, Nat.zero_le _⟩

def contains (lru : Lru Key Value capacity) (key : Key) : Bool := (get? lru.entries key).isSome

/-- Put the entry first. What does not fit any more is forgotten. -/
def put (lru : Lru Key Value capacity) (key : Key) (value : Value) : Lru Key Value capacity where
  entries := (Assoc.set lru.entries key value).take capacity
  nodup := (nodup_set lru.nodup).sublist ((List.take_sublist _ _).map _)
  length_le := List.length_take_le _ _

/-- The value of a key, which becomes the most recent one. -/
def get (lru : Lru Key Value capacity) (key : Key) : Option Value × Lru Key Value capacity :=
  match get? lru.entries key with
  | some value => (some value, lru.put key value)
  | none => (none, lru)

/-- An entry is the one just put or was there before. -/
theorem mem_put (h : e ∈ (lru.put key value).entries) : e = (key, value) ∨ e ∈ lru.entries := by
  rcases mem_set.mp (List.mem_of_mem_take h) with heq | ⟨hmem, -⟩
  · exact .inl heq
  · exact .inr hmem

theorem contains_put {key' : Key} (h : (lru.put key value).contains key' = true) :
    key' = key ∨ lru.contains key' = true := by
  obtain ⟨e, he, rfl⟩ := List.mem_map.mp (isSome_get?.mp h)
  rcases mem_put he with rfl | hmem
  · exact .inl rfl
  · exact .inr (isSome_get?.mpr (List.mem_map_of_mem hmem))

/-- What is read was there, and nothing is added by reading. -/
theorem mem_of_get (h : (lru.get key).1 = some value) : (key, value) ∈ lru.entries := by
  unfold get at h
  split at h
  next v hv =>
    cases h
    exact mem_of_get? hv
  · cases h

theorem mem_get_snd (h : e ∈ (lru.get key).2.entries) : e ∈ lru.entries := by
  unfold get at h
  split at h
  next v hv =>
    rcases mem_put h with rfl | hmem
    · exact mem_of_get? hv
    · exact hmem
  · exact h

end Lru

/-! ## Checks with a memory -/

variable {C ε α β : Type}

/-- A check that reads and writes a memory `C`. What it wrote stays when it fails. -/
abbrev Check (C ε α : Type) := ExceptT ε (StateM C) α

/-- The result and the memory afterwards. -/
def Check.run (m : Check C ε α) (c : C) : Except ε α × C := StateT.run (ExceptT.run m) c

/-- A check that does not touch the memory. -/
def Check.lift (r : Except ε α) : Check C ε α := ExceptT.mk (pure r)

/-- Skip the check if `cached` says so. -/
def Check.unlessCached (cached : C → Bool) (m : Check C ε Unit) : Check C ε Unit := do
  if cached (← get) then pure () else m

def Check.record (f : C → C) : Check C ε Unit := modify f

namespace Check

theorem run_bind (m : Check C ε α) (k : α → Check C ε β) (c : C) :
    (m >>= k).run c =
      match m.run c with
      | (.ok a, c') => (k a).run c'
      | (.error e, c') => (.error e, c') := by
  change (ExceptT.run (m >>= k)).run c = _
  change (match m.run c with
    | (r, c') => StateT.run (match r with
      | .ok a => ExceptT.run (k a)
      | .error e => pure (.error e)) c') = _
  rcases m.run c with ⟨_ | a, c'⟩ <;> rfl

theorem run_unlessCached (cached : C → Bool) (m : Check C ε Unit) (c : C) :
    (unlessCached cached m).run c = if cached c then (.ok (), c) else m.run c := by
  have hget : (unlessCached cached m).run c =
      (if cached c then (pure () : Check C ε Unit) else m).run c := rfl
  rw [hget]
  split <;> rfl

end Check

/-! ## Transparency -/

variable {Sound : C → Prop}

/-- From every sound memory, `m` returns what the plain check `r` returns and leaves a
sound memory. -/
def Transparent (Sound : C → Prop) (m : Check C ε α) (r : Except ε α) : Prop :=
  ∀ c, Sound c → (m.run c).1 = r ∧ Sound (m.run c).2

namespace Transparent

theorem lift (r : Except ε α) : Transparent Sound (Check.lift r) r := fun _ hc => ⟨rfl, hc⟩

theorem bind {m : Check C ε α} {r : Except ε α} {k : α → Check C ε β} {s : α → Except ε β}
    (hm : Transparent Sound m r) (hk : ∀ a, r = .ok a → Transparent Sound (k a) (s a)) :
    Transparent Sound (m >>= k) (r >>= s) := by
  intro c hc
  obtain ⟨hr, hc'⟩ := hm c hc
  rw [Check.run_bind]
  rcases hrun : m.run c with ⟨_ | a, c'⟩ <;> rw [hrun] at hr hc' <;> dsimp only at hr hc' ⊢
  · rw [← hr]
    exact ⟨rfl, hc'⟩
  · rw [← hr]
    exact hk a hr.symm c' hc'

variable {m : Check C ε Unit} {r : Except ε Unit}

/-- A memory is skipped to only for what the plain check accepts. -/
theorem unlessCached {cached : C → Bool} (hcached : ∀ c, Sound c → cached c = true → r = .ok ())
    (hm : Transparent Sound m r) : Transparent Sound (Check.unlessCached cached m) r := by
  intro c hc
  rw [Check.run_unlessCached]
  split
  next h => exact ⟨(hcached c hc h).symm, hc⟩
  · exact hm c hc

/-- What is written once the check passed has to keep the memory sound. -/
theorem record {f : C → C} (hm : Transparent Sound m r)
    (hf : r = .ok () → ∀ c, Sound c → Sound (f c)) :
    Transparent Sound (do m; Check.record f) r := by
  intro c hc
  obtain ⟨hr, hc'⟩ := hm c hc
  rw [Check.run_bind]
  rcases hrun : m.run c with ⟨_ | _, c'⟩ <;> rw [hrun] at hr hc' <;> dsimp only at hr hc' ⊢
  · exact ⟨hr, hc'⟩
  · exact ⟨hr, hf hr.symm c' hc'⟩

end Transparent

/-- The results of checks made one after the other with one memory. -/
def Check.runAll (check : β → Check C ε α) : List β → C → List (Except ε α) × C
  | [], c => ([], c)
  | b :: bs, c =>
    let (r, c') := (check b).run c
    let (rs, c'') := Check.runAll check bs c'
    (r :: rs, c'')

/-- Checks that share a memory return, one by one, what the plain checks return. -/
theorem Transparent.runAll {check : β → Check C ε α} {plain : β → Except ε α}
    (h : ∀ b, Transparent Sound (check b) (plain b)) (bs : List β) :
    ∀ c, Sound c → (Check.runAll check bs c).1 = bs.map plain ∧
      Sound (Check.runAll check bs c).2 := by
  induction bs with
  | nil => exact fun c hc => ⟨rfl, hc⟩
  | cons b bs ih =>
    intro c hc
    obtain ⟨hr, hc'⟩ := h b c hc
    obtain ⟨hrs, hc''⟩ := ih _ hc'
    exact ⟨by simp [Check.runAll, hr, hrs], hc''⟩

end MonadBft
