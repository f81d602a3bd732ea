import Mathlib.Data.List.Basic
import Mathlib.Tactic.Linarith

/-!
# Binary hash trees in an array

The entry at `i` of such a tree combines its children, the entries at `2 i + 1` and
`2 i + 2`; the root is the entry at `0`. `climb` recomputes the root from an entry and the
siblings on the way up, the lowest first, and `pathUp` reads those siblings from a tree.

Two results. `climb_pathUp`: climbing from an entry of a tree with its own siblings ends
at the root. `climb_collision`: two climbs of the same number of levels from the same
index with different entries that end at the same root pass a collision of the combining
function, which `climbCollision` computes. The siblings may be anything.
-/

set_option linter.unusedSectionVars false

namespace MonadBft.HashTree

variable {H : Type}

/-! ## Indices -/

/-- The root has no parent. -/
def parentIdx : ℕ → Option ℕ
  | 0 => none
  | i + 1 => some (i / 2)

def siblingIdx (i : ℕ) : Option ℕ := (parentIdx i).map fun p => 2 * p + (1 + i % 2)

/-! ## Climbing -/

variable (node : H → H → H)

/-- The entry at `i` and its sibling, the left one first: an odd index is a left child. -/
def ordered (i : ℕ) (h s : H) : H × H := if i % 2 = 1 then (h, s) else (s, h)

theorem ordered_injective {i : ℕ} {h h' s s' : H} (heq : ordered i h s = ordered i h' s') :
    h = h' ∧ s = s' := by
  unfold ordered at heq
  split at heq <;> simp_all

/-- The parent of the entry at `i`. -/
def combine (i : ℕ) (h s : H) : H := node (ordered i h s).1 (ordered i h s).2

/-- The root above the entry `h`, from the siblings on the way up. There is no way up
beyond the root. -/
def climb : List H → Option ℕ → H → Option H
  | [], _, h => some h
  | _ :: _, none, _ => none
  | s :: ss, some i, h => climb ss (parentIdx i) (combine node i h s)

variable [DecidableEq H]

/-- The pairs of children of the lowest parents that two climbs have in common. -/
def climbCollision : List H → List H → Option ℕ → H → H → Option ((H × H) × (H × H))
  | s :: ss, s' :: ss', some i, h, h' =>
    if combine node i h s = combine node i h' s' then some (ordered i h s, ordered i h' s')
    else climbCollision ss ss' (parentIdx i) (combine node i h s) (combine node i h' s')
  | _, _, _, _, _ => none

/-- Two different pairs with one parent. -/
def IsCollision (x y : H × H) : Prop := x ≠ y ∧ node x.1 x.2 = node y.1 y.2

variable {node}

/-- Two climbs from different entries at one index that end at one root pass a
collision. -/
theorem climb_collision {r : H} :
    ∀ {ss ss' : List H} {i : Option ℕ} {h h' : H}, ss.length = ss'.length → h ≠ h' →
      climb node ss i h = some r → climb node ss' i h' = some r →
      ∃ x y, climbCollision node ss ss' i h h' = some (x, y) ∧ IsCollision node x y
  | [], [], _, h, h', _, hne, hr, hr' => by
    simp only [climb, Option.some.injEq] at hr hr'
    exact absurd (hr.trans hr'.symm) hne
  | _ :: _, _ :: _, none, _, _, _, _, hr, _ => by simp [climb] at hr
  | s :: ss, s' :: ss', some i, h, h', hlen, hne, hr, hr' => by
    unfold climbCollision
    split
    next heq =>
      -- the first common parent : its children differ, since the lower ones do
      exact ⟨_, _, rfl, fun hpair => hne (ordered_injective hpair).1, heq⟩
    next hne' => exact climb_collision (by simpa using hlen) hne' hr hr'

/-! ## Trees -/

variable (t : ℕ → H)

/-- The entries below `start` are inner: each combines its children. -/
def IsTree (node : H → H → H) (start : ℕ) (t : ℕ → H) : Prop :=
  ∀ i < start, t i = node (t (2 * i + 1)) (t (2 * i + 2))

/-- The siblings on the way up from `i`, the lowest first, at most `fuel` of them. -/
def pathUp : ℕ → ℕ → List H
  | 0, _ => []
  | fuel + 1, i =>
    match siblingIdx i, parentIdx i with
    | some s, some p => t s :: pathUp fuel p
    | _, _ => []

theorem pathUp_zero (fuel : ℕ) : pathUp t fuel 0 = [] := by
  cases fuel <;> rfl

variable {t} {start : ℕ}

/-- The parent of an entry of a tree combines it with its sibling. -/
theorem IsTree.combine_sibling (ht : IsTree node start t) {i : ℕ} (hi : i < 2 * start) :
    combine node (i + 1) (t (i + 1)) (t (2 * (i / 2) + (1 + (i + 1) % 2))) = t (i / 2) := by
  rw [ht (i / 2) (by omega)]
  unfold combine ordered
  rcases Nat.mod_two_eq_zero_or_one i with h | h
  · have hl : 2 * (i / 2) + 1 = i + 1 := by omega
    have hr : 2 * (i / 2) + (1 + (i + 1) % 2) = 2 * (i / 2) + 2 := by omega
    rw [if_pos (by omega), hl, hr]
  · have hl : 2 * (i / 2) + (1 + (i + 1) % 2) = 2 * (i / 2) + 1 := by omega
    have hr : 2 * (i / 2) + 2 = i + 1 := by omega
    rw [if_neg (by omega), hl, hr]

/-- Climbing with the siblings of a tree ends at its root. -/
theorem climb_pathUp (ht : IsTree node start t) :
    ∀ {fuel i : ℕ}, i ≤ fuel → i ≤ 2 * start →
      climb node (pathUp t fuel i) (some i) (t i) = some (t 0)
  | fuel, 0, _, _ => by rw [pathUp_zero]; rfl
  | fuel + 1, i + 1, hfuel, hi => by
    change climb node (pathUp t fuel (i / 2)) (some (i / 2)) _ = _
    rw [ht.combine_sibling (by omega)]
    exact climb_pathUp ht (by omega) (by omega)

/-- The entries from `2 ^ d - 1` on, `2 ^ d` of them, are `d` levels below the root. -/
theorem length_pathUp (t : ℕ → H) :
    ∀ {d fuel i : ℕ}, i ≤ fuel → 2 ^ d ≤ i + 1 → i + 1 < 2 ^ (d + 1) → (pathUp t fuel i).length = d
  | 0, fuel, i, _, _, hi => by
    obtain rfl : i = 0 := by omega
    rw [pathUp_zero]
    rfl
  | d + 1, fuel, 0, _, hlo, _ => by
    omega
  | d + 1, fuel + 1, i + 1, hfuel, hlo, hi => by
    change (_ :: pathUp t fuel (i / 2)).length = _
    rw [List.length_cons, length_pathUp t (d := d) (by omega) (by omega) (by omega)]

end MonadBft.HashTree
