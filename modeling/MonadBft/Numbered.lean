import Mathlib.Data.List.Basic
import Mathlib.Data.Nat.Notation
import MonadBft.Prog

/-!
# Lists with consecutive numbers

`Numbered key n l`: the elements of `l` are numbered `n`, `n + 1` and so on. Such a list has
no gaps and no repetitions, so a number in its range belongs to exactly one element
(`Numbered.find?_eq`), and cutting it by number is the same as cutting it by position
(`Numbered.filter_le`, `Numbered.dropWhile_lt`).

A loop that counts along and stops at a gap is the loop without the counter
(`foldlM_counted`).
-/

namespace MonadBft

open List

universe u v

variable {α : Type u} {key : α → ℕ} {n m m' : ℕ} {l l' : List α} {a : α}

/-- The elements of a list are numbered from `n` on. -/
def Numbered (key : α → ℕ) : ℕ → List α → Prop
  | _, [] => True
  | n, a :: l => key a = n ∧ Numbered key (n + 1) l

namespace Numbered

instance decidable (key : α → ℕ) : (n : ℕ) → (l : List α) → Decidable (Numbered key n l)
  | _, [] => inferInstanceAs (Decidable True)
  | n, a :: l =>
    have := decidable key (n + 1) l
    inferInstanceAs (Decidable (key a = n ∧ Numbered key (n + 1) l))

theorem append_iff :
    Numbered key n (l ++ l') ↔ Numbered key n l ∧ Numbered key (n + l.length) l' := by
  induction l generalizing n with
  | nil => simp [Numbered]
  | cons a l ih =>
    rw [cons_append, Numbered, Numbered, ih, and_assoc, length_cons, Nat.add_right_comm,
      Nat.add_assoc]

section

variable (h : Numbered key n l)

include h

theorem drop (d : ℕ) : Numbered key (n + d) (l.drop d) := by
  induction d generalizing n l with
  | zero => exact h
  | succ d ih =>
    cases l with
    | nil => trivial
    | cons a l =>
      rw [drop_succ_cons, ← Nat.add_assoc, Nat.add_right_comm]
      exact ih h.2

theorem map {β : Type v} {f : α → β} {key' : β → ℕ} (hf : ∀ a, key' (f a) = key a) :
    Numbered key' n (l.map f) := by
  induction l generalizing n with
  | nil => trivial
  | cons a l ih => exact ⟨(hf a).trans h.1, ih h.2⟩

theorem bounds (ha : a ∈ l) : n ≤ key a ∧ key a < n + l.length := by
  induction l generalizing n with
  | nil => cases ha
  | cons b l ih =>
    rcases mem_cons.mp ha with rfl | ha
    · rw [h.1, length_cons]
      omega
    · have := ih h.2 ha
      rw [length_cons]
      omega

theorem exists_key (hn : n ≤ m) (hm : m < n + l.length) : ∃ a ∈ l, key a = m := by
  induction l generalizing n with
  | nil =>
    rw [length_nil] at hm
    omega
  | cons b l ih =>
    rw [length_cons] at hm
    by_cases heq : n = m
    · exact ⟨b, by simp, h.1.trans heq⟩
    · obtain ⟨a, ha, hkey⟩ := ih h.2 (by omega) (by omega)
      exact ⟨a, by simp [ha], hkey⟩

theorem find?_eq (hn : n ≤ m) (hm : m < n + l.length) :
    ∃ a ∈ l, key a = m ∧ l.find? (fun a => decide (key a = m)) = some a := by
  obtain ⟨a, ha, hkey⟩ := h.exists_key hn hm
  cases hfind : l.find? fun a => decide (key a = m) with
  | none => exact absurd hkey (by simpa using List.find?_eq_none.mp hfind a ha)
  | some b => exact ⟨b, mem_of_find?_eq_some hfind, by simpa using List.find?_some hfind, rfl⟩

theorem eq_of_key_eq {b : α} (ha : a ∈ l) (hb : b ∈ l) (hkey : key a = key b) : a = b := by
  induction l generalizing n with
  | nil => cases ha
  | cons c l ih =>
    have hhead := h.1
    rcases mem_cons.mp ha with rfl | ha' <;> rcases mem_cons.mp hb with rfl | hb'
    · rfl
    · have := (bounds h.2 hb').1
      omega
    · have := (bounds h.2 ha').1
      omega
    · exact ih h.2 ha' hb'

theorem nodup : l.Nodup := by
  induction l generalizing n with
  | nil => exact nodup_nil
  | cons a l ih =>
    refine nodup_cons.mpr ⟨fun ha => ?_, ih h.2⟩
    have := (bounds h.2 ha).1
    have := h.1
    omega

theorem getLast? (ha : l.getLast? = some a) : key a + 1 = n + l.length := by
  obtain ⟨l', rfl⟩ := List.getLast?_eq_some_iff.mp ha
  have := (append_iff.mp h).2.1
  rw [length_append, length_singleton]
  omega

/-! ## Cutting by number -/

theorem filter_le : (l.filter fun a => decide (m ≤ key a)) = l.drop (m - n) := by
  induction l generalizing n with
  | nil => simp
  | cons b l ih =>
    by_cases hm : m ≤ n
    · have hall : ∀ a ∈ b :: l, decide (m ≤ key a) = true := fun a ha =>
        decide_eq_true (Nat.le_trans hm (h.bounds ha).1)
      rw [filter_eq_self.mpr hall, Nat.sub_eq_zero_of_le hm, drop_zero]
    · have hsucc : m - n = (m - (n + 1)) + 1 := by omega
      rw [filter_cons_of_neg (by simpa [h.1] using hm), ih h.2, hsucc, drop_succ_cons]

theorem dropWhile_lt : (l.dropWhile fun a => decide (key a < m)) = l.drop (m - n) := by
  induction l generalizing n with
  | nil => simp
  | cons b l ih =>
    by_cases hm : m ≤ n
    · rw [dropWhile_cons_of_neg (by simpa [h.1] using hm), Nat.sub_eq_zero_of_le hm, drop_zero]
    · have hsucc : m - n = (m - (n + 1)) + 1 := by omega
      rw [dropWhile_cons_of_pos (by simpa [h.1] using hm), ih h.2, hsucc, drop_succ_cons]

/-- Two adjacent ranges make one. -/
theorem filter_append_filter (hm : m ≤ m') :
    ((l.filter fun a => decide (m ≤ key a) && decide (key a < m')) ++
      l.filter fun a => decide (m' ≤ key a)) = l.filter fun a => decide (m ≤ key a) := by
  induction l generalizing n with
  | nil => rfl
  | cons b l ih =>
    by_cases hlow : m' ≤ key b
    · -- From here on everything is in the second range.
      have hempty : ((b :: l).filter fun a => decide (m ≤ key a) && decide (key a < m')) = [] := by
        refine filter_eq_nil_iff.mpr fun a ha => ?_
        have := (h.bounds ha).1
        have := h.1
        simp
        omega
      rw [hempty, nil_append]
      refine filter_congr fun a ha => ?_
      have := (h.bounds ha).1
      have := h.1
      simp only [decide_eq_decide]
      omega
    · have := ih h.2
      by_cases hmid : m ≤ key b
      · simp only [filter_cons, hmid, hlow, Nat.lt_of_not_le hlow, decide_true, decide_false,
          Bool.and_self, if_true, Bool.false_eq_true, if_false, cons_append, this]
      · simp only [filter_cons, hmid, hlow, decide_false, Bool.false_and,
          Bool.false_eq_true, if_false, this]

end

end Numbered

/-! ## Loops that count -/

/-- A loop that expects the next number is the loop over the elements. -/
theorem foldlM_counted {ε : Type v} {σ : Type} {α : Type} {key : α → ℕ} {l : List α} {n : ℕ}
    {f : σ × ℕ → α → Except ε (σ × ℕ)} {g : σ → α → Except ε σ}
    (hstep : ∀ a ∈ l, ∀ s, f (s, key a) a = (g s a).map fun s' => (s', key a + 1))
    (h : Numbered key n l) (s : σ) :
    l.foldlM f (s, n) = (l.foldlM g s).map fun s' => (s', n + l.length) := by
  induction l generalizing n s with
  | nil => rfl
  | cons a l ih =>
    obtain ⟨hkey, hrest⟩ := h
    have hhead := hstep a (by simp) s
    rw [hkey] at hhead
    rw [foldlM_cons, foldlM_cons, hhead, length_cons]
    cases g s a with
    | error e => rfl
    | ok s₁ =>
      have := ih (fun b hb => hstep b (by simp [hb])) hrest s₁
      refine this.trans ?_
      rw [Nat.add_right_comm, Nat.add_assoc]
      rfl

end MonadBft
