import Mathlib.Data.List.Forall2
import Mathlib.Logic.Basic

/-!
# Programs with state, failure and output

A handler of an event-driven node reads and writes the node's state, may stop at an
assertion, and hands back a list of commands. `Prog σ ε ω α` is that shape: a
function from a state `σ` to a failure in `ε`, or to a result in `α` with the new
state and the outputs in `ω`, in the order they were produced.

`Sat x s Q E` says that running `x` from `s` ends in a state with `Q`, or fails with
a failure in `E`. `Follows D x s Q` is the form the proofs about handlers use: a
`Discipline` fixes which runs are allowed (a trace relation, an invariant it keeps and
the failures that may occur), and the program `x` follows it. Programs that do compose
(`Follows.bind`), so a handler is verified call by call. `Reach` is the closure of a step
relation under runs, with the rule that carries an invariant of every step to every run
(`Reach.invariant`).
-/

namespace MonadBft

open List

universe u v

/-- A program that reads and writes a state `σ`, may fail with an `ε` and produces
outputs in `ω`. -/
def Prog (σ ε ω α : Type u) : Type u := σ → Except ε (α × σ × List ω)

namespace Prog

variable {σ ε ω α β : Type u}

/-- Run `x`, then `f` on its result, appending the outputs. -/
def bind (x : Prog σ ε ω α) (f : α → Prog σ ε ω β) : Prog σ ε ω β := fun s =>
  match x s with
  | .error e => .error e
  | .ok (a, s₁, o₁) =>
    match f a s₁ with
    | .error e => .error e
    | .ok (b, s₂, o₂) => .ok (b, s₂, o₁ ++ o₂)

instance : Monad (Prog σ ε ω) where
  pure a := fun s => .ok (a, s, [])
  bind := bind

def get : Prog σ ε ω σ := fun s => .ok (s, s, [])

def modify (f : σ → σ) : Prog σ ε ω PUnit := fun s => .ok (⟨⟩, f s, [])

def emit (o : List ω) : Prog σ ε ω PUnit := fun s => .ok (⟨⟩, s, o)

def fail (e : ε) : Prog σ ε ω α := fun _ => .error e

def lift (x : Except ε α) : Prog σ ε ω α := fun s =>
  match x with
  | .ok a => .ok (a, s, [])
  | .error e => .error e

def forEach (f : β → Prog σ ε ω PUnit) : List β → Prog σ ε ω PUnit
  | [] => pure ⟨⟩
  | b :: bs => f b >>= fun _ => forEach f bs

/-! ## Partial correctness with failures -/

/-- From `s`, `x` ends in a result, state and outputs with `Q`, or fails in `E`. -/
def Sat (x : Prog σ ε ω α) (s : σ) (Q : α → σ → List ω → Prop) (E : ε → Prop) : Prop :=
  match x s with
  | .ok (a, s', o) => Q a s' o
  | .error e => E e

variable {x : Prog σ ε ω α} {f : α → Prog σ ε ω β} {s : σ} {E : ε → Prop}
  {Q : β → σ → List ω → Prop} {y : Except ε α} {g : σ → Prog σ ε ω β}

theorem Sat.mono {Q Q' : α → σ → List ω → Prop} {E' : ε → Prop} (h : Sat x s Q E)
    (hQ : ∀ a s' o, Q a s' o → Q' a s' o) (hE : ∀ e, E e → E' e) : Sat x s Q' E' := by
  unfold Sat at h ⊢
  split
  next a s' o hx => rw [hx] at h; exact hQ a s' o h
  next e hx => rw [hx] at h; exact hE e h

theorem Sat.bind {P : α → σ → List ω → Prop} (hx : Sat x s P E)
    (hf : ∀ a s' o, P a s' o → Sat (f a) s' (fun b s'' o' => Q b s'' (o ++ o')) E) :
    Sat (x >>= f) s Q E := by
  change Sat (Prog.bind x f) s Q E
  unfold Sat Prog.bind at *
  rcases hxs : x s with e | ⟨a, s₁, o₁⟩
  · simpa [hxs] using hx
  rw [hxs] at hx
  have := hf a s₁ o₁ hx
  rcases hfs : f a s₁ with e | ⟨b, s₂, o₂⟩
  · simpa [hfs] using this
  · simpa [hfs] using this

theorem Sat.of_eq {P : α → σ → List ω → Prop} {a : α} {s' : σ} {o : List ω}
    (hx : x s = .ok (a, s', o)) (hP : P a s' o) : Sat x s P E := by
  unfold Sat
  rwa [hx]

/-- Two runs after each other. -/
theorem run_bind {a : α} {b : β} {s₁ s₂ : σ} {o₁ o₂ : List ω} (hx : x s = .ok (a, s₁, o₁))
    (hf : f a s₁ = .ok (b, s₂, o₂)) : (x >>= f) s = .ok (b, s₂, o₁ ++ o₂) := by
  change Prog.bind x f s = _
  simp only [Prog.bind, hx, hf]

theorem Sat.get_bind (h : Sat (g s) s Q E) : Sat (get >>= g) s Q E :=
  Sat.bind (P := fun a s' o => a = s ∧ s' = s ∧ o = []) (Sat.of_eq rfl ⟨rfl, rfl, rfl⟩) (by
    rintro _ _ _ ⟨rfl, rfl, rfl⟩
    exact h)

theorem Sat.modify_bind {g : PUnit → Prog σ ε ω β} {k : σ → σ} (h : Sat (g ⟨⟩) (k s) Q E) :
    Sat (modify k >>= g) s Q E :=
  Sat.bind (P := fun _ s' o => s' = k s ∧ o = []) (Sat.of_eq rfl ⟨rfl, rfl⟩) (by
    rintro _ _ _ ⟨rfl, rfl⟩
    exact h)

theorem Sat.lift_bind (hok : ∀ a, y = .ok a → Sat (f a) s Q E) (herr : ∀ e, y = .error e → E e) :
    Sat (lift y >>= f) s Q E := by
  rcases y with e | a
  · exact herr e rfl
  · exact Sat.bind (P := fun b s' o => b = a ∧ s' = s ∧ o = []) (Sat.of_eq rfl ⟨rfl, rfl, rfl⟩) (by
      rintro _ _ _ ⟨rfl, rfl, rfl⟩
      exact hok _ rfl)

theorem sat_of_ok {Q : α → σ → List ω → Prop} {a : α} {s' : σ} {o : List ω} (h : Sat x s Q E)
    (hx : x s = .ok (a, s', o)) : Q a s' o := by
  unfold Sat at h
  rwa [hx] at h

variable {e : ε}

theorem sat_of_error {Q : α → σ → List ω → Prop} (h : Sat x s Q E) (hx : x s = .error e) : E e := by
  unfold Sat at h
  rwa [hx] at h

/-! ## Programs that follow a discipline -/

/-- How the states, outputs and failures of programs are constrained: `trace s o s'`
relates the end of a run with outputs `o` to its start, and composes; `inv` is an
invariant that traces keep; failures are in `err`. -/
structure Discipline (σ ε ω : Type u) where
  trace : σ → List ω → σ → Prop
  inv : σ → Prop
  err : ε → Prop
  nil : ∀ s, trace s [] s
  append : ∀ {s s₁ s₂ o₁ o₂}, trace s o₁ s₁ → trace s₁ o₂ s₂ → trace s (o₁ ++ o₂) s₂
  keeps : ∀ {s o s'}, inv s → trace s o s' → inv s'

/-- From a state `s` with the invariant, the run of `x` follows the discipline and gives a
result and state with `Q`. -/
def Follows (D : Discipline σ ε ω) (x : Prog σ ε ω α) (s : σ) (Q : α → σ → Prop) : Prop :=
  D.inv s → Sat x s (fun a s' o => D.trace s o s' ∧ Q a s') D.err

namespace Follows

variable {D : Discipline σ ε ω} {P : α → σ → Prop} {Q : β → σ → Prop}

theorem mono {P' : α → σ → Prop} (h : Follows D x s P) (hP : ∀ a s', P a s' → P' a s') :
    Follows D x s P' :=
  fun hI => Sat.mono (h hI) (fun a s' _ hr => ⟨hr.1, hP a s' hr.2⟩) fun _ he => he

/-- Programs that follow a discipline compose. The second may use what the trace of the
first says. -/
theorem bind (hx : Follows D x s P)
    (hf : ∀ a s' o, D.trace s o s' → P a s' → Follows D (f a) s' Q) : Follows D (x >>= f) s Q :=
  fun hI => Sat.bind (hx hI) fun a s' o ha =>
    Sat.mono (hf a s' o ha.1 ha.2 (D.keeps hI ha.1))
      (fun _ _ _ hb => ⟨D.append ha.1 hb.1, hb.2⟩) fun _ he => he

/-- A program whose run is known. -/
theorem of_eq {a : α} {s' : σ} {o : List ω} (hx : x s = .ok (a, s', o)) (ht : D.trace s o s')
    (hP : P a s') : Follows D x s P :=
  fun _ => Sat.of_eq hx ⟨ht, hP⟩

theorem pure {a : α} (h : P a s) : Follows D (Pure.pure a : Prog σ ε ω α) s P :=
  of_eq rfl (D.nil s) h

theorem fail (h : D.err e) : Follows D (Prog.fail e) s P := fun _ => h

theorem get_bind (h : Follows D (g s) s Q) : Follows D (get >>= g) s Q :=
  fun hI => Sat.get_bind (h hI)

theorem lift_bind (hok : ∀ a, y = .ok a → Follows D (f a) s Q)
    (herr : ∀ e, y = .error e → D.inv s → D.err e) : Follows D (lift y >>= f) s Q :=
  fun hI => Sat.lift_bind (fun a ha => hok a ha hI) fun e he => herr e he hI

theorem lift_ok_bind {a : α} (hy : y = .ok a) (h : Follows D (f a) s Q) :
    Follows D (lift y >>= f) s Q := by
  subst hy
  refine lift_bind (fun b hb => ?_) nofun
  cases hb
  exact h

/-- An early return. -/
theorem guard {c : Prop} [Decidable c] {a : α} (ha : P a s) (h : ¬c → Follows D x s P) :
    Follows D (if c then Pure.pure a else x) s P := by
  split
  · exact pure ha
  next hc => exact h hc

/-- The invariant may be assumed. -/
theorem of_inv (h : D.inv s → Follows D x s P) : Follows D x s P := fun hI => h hI hI

/-- A loop over a list keeps what each of its iterations keeps. -/
theorem forEach {I : σ → Prop} {g : β → Prog σ ε ω PUnit} :
    ∀ (l : List β) {s : σ}, I s → (∀ b ∈ l, ∀ s, I s → Follows D (g b) s fun _ s' => I s') →
      Follows D (Prog.forEach g l) s fun _ s' => I s'
  | [], _, hs, _ => Follows.pure hs
  | b :: l, _, hs, hg =>
    Follows.bind (hg b (by simp) _ hs) fun _ _ _ _ hs' =>
      forEach l hs' fun b' hb' => hg b' (by simp [hb'])

end Follows

end Prog

/-! ## Computations that may only fail -/

theorem except_ok_bind {ε : Type v} {α β : Type u} (a : α) (f : α → Except ε β) :
    (Except.ok a >>= f) = f a := rfl

theorem bind_eq_ok {ε : Type v} {α β : Type u} {x : Except ε α} {f : α → Except ε β} {b : β} :
    (x >>= f) = .ok b ↔ ∃ a, x = .ok a ∧ f a = .ok b := by
  cases x <;> simp [bind, Except.bind]

theorem except_map_eq_ok {ε : Type v} {α β : Type u} {x : Except ε α} {f : α → β} {b : β} :
    f <$> x = .ok b ↔ ∃ a, x = .ok a ∧ f a = b := by
  cases x <;> simp [Functor.map, Except.map]

theorem eq_ok_get {ε : Type v} {α : Type u} {x : Except ε α} (h : x.toOption.isSome = true) :
    x = .ok (x.toOption.get h) := by
  cases x with
  | error e => cases h
  | ok a => rfl

/-- A monadic map that succeeds has succeeded on every element. -/
theorem forall₂_of_mapM_eq_ok {ε : Type v} {α β : Type u} {f : α → Except ε β} {as : List α}
    {bs : List β} (h : as.mapM f = .ok bs) : List.Forall₂ (fun a b => f a = .ok b) as bs := by
  induction as generalizing bs with
  | nil =>
    cases h
    exact .nil
  | cons a as ih =>
    rw [mapM_cons] at h
    obtain ⟨b, hb, h⟩ := bind_eq_ok.mp h
    obtain ⟨bs', hbs', h⟩ := bind_eq_ok.mp h
    cases h
    exact .cons hb (ih hbs')

section Loops

variable {ε : Type v} {σ τ α : Type u} {f : σ → α → Except ε σ} {s s' : σ} {a : α} {l : List α}
  {t : τ}

theorem foldlM_cons_eq_ok :
    (a :: l).foldlM f s = .ok s' ↔ ∃ s₁, f s a = .ok s₁ ∧ l.foldlM f s₁ = .ok s' := by
  rw [foldlM_cons, bind_eq_ok]

theorem foldlM_append_eq_ok {l' : List α} :
    (l ++ l').foldlM f s = .ok s' ↔ ∃ s₁, l.foldlM f s = .ok s₁ ∧ l'.foldlM f s₁ = .ok s' := by
  rw [foldlM_append, bind_eq_ok]

/-- A loop that succeeds has gone through every element. -/
theorem foldlM_mem_eq_ok (h : l.foldlM f s = .ok s') (ha : a ∈ l) : ∃ s₁ s₂, f s₁ a = .ok s₂ := by
  induction l generalizing s with
  | nil => cases ha
  | cons b l ih =>
    obtain ⟨s₁, hb, hl⟩ := foldlM_cons_eq_ok.mp h
    rcases mem_cons.mp ha with rfl | ha
    · exact ⟨s, s₁, hb⟩
    · exact ih hl ha

theorem mapM_eq_error {β : Type u} {f : α → Except ε β} (h : l.mapM f = .error e) :
    ∃ a ∈ l, f a = .error e := by
  induction l with
  | nil => cases h
  | cons a l ih =>
    rw [mapM_cons] at h
    cases hf : f a with
    | error e' =>
      rw [hf] at h
      exact ⟨a, mem_cons_self, hf.trans (congrArg _ (Except.error.inj h))⟩
    | ok b =>
      cases hmap : l.mapM f with
      | error e' =>
        rw [hf, hmap] at h
        obtain ⟨a', ha', hf'⟩ := ih (hmap.trans (congrArg _ (Except.error.inj h)))
        exact ⟨a', mem_cons_of_mem _ ha', hf'⟩
      | ok bs =>
        rw [hf, hmap] at h
        cases h

/-- Two loops that both succeed keep a relation that their iterations keep. -/
theorem foldlM_related {ε' : Type v} {g : τ → α → Except ε' τ} {R : σ → τ → Prop}
    (hstep : ∀ a ∈ l, ∀ s t s' t', R s t → f s a = .ok s' → g t a = .ok t' → R s' t') {t' : τ}
    (hR : R s t) (h : l.foldlM f s = .ok s') (h' : l.foldlM g t = .ok t') : R s' t' := by
  induction l generalizing s t with
  | nil =>
    cases h
    cases h'
    exact hR
  | cons a l ih =>
    obtain ⟨s₁, ha, hl⟩ := foldlM_cons_eq_ok.mp h
    obtain ⟨t₁, ha', hl'⟩ := foldlM_cons_eq_ok.mp h'
    exact ih (fun b hb => hstep b (by simp [hb])) (hstep a (by simp) s t s₁ t₁ hR ha ha') hl hl'

/-- A loop whose iterations are simulated by `g` is simulated by the loop over `g`. -/
theorem foldlM_simulates {ε' : Type v} {g : τ → α → Except ε' τ} {R : σ → τ → Prop}
    (hstep : ∀ a ∈ l, ∀ s t s', R s t → f s a = .ok s' → ∃ t', g t a = .ok t' ∧ R s' t')
    (hR : R s t) (h : l.foldlM f s = .ok s') : ∃ t', l.foldlM g t = .ok t' ∧ R s' t' := by
  induction l generalizing s t with
  | nil =>
    cases h
    exact ⟨t, rfl, hR⟩
  | cons a l ih =>
    obtain ⟨s₁, ha, hl⟩ := foldlM_cons_eq_ok.mp h
    obtain ⟨t₁, hga, hR₁⟩ := hstep a (by simp) s t s₁ hR ha
    obtain ⟨t', hgl, hR'⟩ := ih (fun b hb => hstep b (by simp [hb])) hR₁ hl
    exact ⟨t', foldlM_cons_eq_ok.mpr ⟨t₁, hga, hgl⟩, hR'⟩

/-- A loop computes what its iterations compute of a part of the state. -/
theorem foldlM_project {π : σ → τ} {g : τ → α → τ}
    (hstep : ∀ a ∈ l, ∀ s s', f s a = .ok s' → π s' = g (π s) a) (h : l.foldlM f s = .ok s') :
    π s' = l.foldl g (π s) := by
  induction l generalizing s with
  | nil =>
    cases h
    rfl
  | cons a l ih =>
    obtain ⟨s₁, ha, hl⟩ := foldlM_cons_eq_ok.mp h
    rw [foldl_cons, ← hstep a (by simp) s s₁ ha]
    exact ih (fun b hb => hstep b (by simp [hb])) hl

end Loops

/-! ## Runs of a step relation -/

/-- An entry of a log that has just grown is the last one or an earlier one. -/
theorem eq_snoc_append_cons {α : Type u} {l pre post : List α} {x y : α}
    (h : l ++ [x] = pre ++ y :: post) :
    (post = [] ∧ pre = l ∧ y = x) ∨ ∃ post', post = post' ++ [x] ∧ l = pre ++ y :: post' := by
  rcases eq_nil_or_concat post with rfl | ⟨post', z, rfl⟩
  · obtain ⟨rfl, hxy⟩ := append_inj' h rfl
    exact .inl ⟨rfl, rfl, by simpa using hxy.symm⟩
  · rw [concat_eq_append, ← cons_append, ← append_assoc] at h
    obtain ⟨hl, hz⟩ := append_inj' h rfl
    exact .inr ⟨post', by rw [concat_eq_append, hz], hl⟩

/-- `s'` is reached from `s` by steps of `R`, producing the concatenated outputs. -/
inductive Reach {σ : Type u} {ω : Type v} (R : σ → List ω → σ → Prop) : σ → List ω → σ → Prop
  | nil (s : σ) : Reach R s [] s
  | snoc {s s₁ s₂ : σ} {o o' : List ω} : Reach R s o s₁ → R s₁ o' s₂ → Reach R s (o ++ o') s₂

namespace Reach

variable {σ : Type u} {ω : Type v} {R R' : σ → List ω → σ → Prop} {s s₁ s₂ : σ}
  {o o₁ o₂ : List ω}

theorem single (h : R s o s₁) : Reach R s o s₁ := by
  simpa using Reach.snoc (.nil s) h

theorem append (h₁ : Reach R s o₁ s₁) (h₂ : Reach R s₁ o₂ s₂) : Reach R s (o₁ ++ o₂) s₂ := by
  induction h₂ with
  | nil => simpa using h₁
  | snoc _ hstep ih => simpa using Reach.snoc ih hstep

/-- What every step keeps, every run keeps. -/
theorem invariant {I : σ → Prop} (hstep : ∀ s o s', I s → R s o s' → I s') (hs : I s)
    (h : Reach R s o s₁) : I s₁ := by
  induction h with
  | nil => exact hs
  | snoc _ hr ih => exact hstep _ _ _ ih hr

/-- The invariant may speak of the outputs produced so far. -/
theorem history {I : List ω → σ → Prop} (hs : I [] s)
    (hstep : ∀ o s o' s', I o s → R s o' s' → I (o ++ o') s') (h : Reach R s o s₁) : I o s₁ := by
  induction h with
  | nil => exact hs
  | snoc _ hr ih => exact hstep _ _ _ _ ih hr

end Reach

end MonadBft
