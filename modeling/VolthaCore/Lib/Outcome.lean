import Mathlib.Data.List.Forall2

/-! Computations that may fail after changing the state. `EStateM ε σ α` keeps
the state it had reached when it raises an error, so a failed computation can
leave partial effects behind. The rules below name the state that is left behind
and take successful sequences, maps and folds apart into their steps. -/

namespace VolthaCore.Outcome

open List

variable {ε σ α β : Type}

/-- The state a computation leaves behind, whether it returns or fails. -/
def after (x : EStateM ε σ α) (s : σ) : σ :=
  match x s with
  | .ok _ s' => s'
  | .error _ s' => s'

def returns (x : EStateM ε σ α) (s : σ) : Bool :=
  match x s with
  | .ok _ _ => true
  | .error _ _ => false

variable {x : EStateM ε σ α} {s s' : σ} {f : α → EStateM ε σ β}

theorem returns_iff : returns x s = true ↔ ∃ a, x s = .ok a (after x s) := by
  unfold returns after
  cases x s <;> simp

theorem not_returns_iff : returns x s = false ↔ ∃ e, x s = .error e (after x s) := by
  unfold returns after
  cases x s <;> simp

theorem after_of_ok {a : α} (h : x s = .ok a s') : after x s = s' := by
  simp [after, h]

theorem after_of_error {e : ε} (h : x s = .error e s') : after x s = s' := by
  simp [after, h]

@[simp] theorem pure_apply (a : α) (s : σ) : (pure a : EStateM ε σ α) s = .ok a s := rfl

@[simp] theorem throw_apply (e : ε) (s : σ) : (throw e : EStateM ε σ α) s = .error e s := rfl

theorem bind_apply (x : EStateM ε σ α) (f : α → EStateM ε σ β) (s : σ) :
    (x >>= f) s = match x s with
      | .ok a s' => f a s'
      | .error e s' => .error e s' := rfl

theorem bind_of_ok {a : α} (hx : x s = .ok a s') : (x >>= f) s = f a s' := by
  rw [bind_apply, hx]

theorem bind_ok_iff {b : β} : (x >>= f) s = .ok b s' ↔ ∃ a t, x s = .ok a t ∧ f a t = .ok b s' := by
  rw [bind_apply]
  cases h : x s with
  | ok a t =>
    constructor
    · intro hf
      exact ⟨a, t, rfl, hf⟩
    · rintro ⟨a', t', he, hf⟩
      cases he
      exact hf
  | error e t => simp

/-! ### Failures without a state -/

/-- The computation leaves the state as it is. -/
def Reads (x : EStateM ε σ α) : Prop := ∀ s, after x s = s

namespace Reads

variable {x : EStateM ε σ α}

theorem of_ok (hx : Reads x) {s s' : σ} {a : α} (h : x s = .ok a s') :
    s' = s := (after_of_ok h).symm.trans (hx s)

theorem of_error (hx : Reads x) {s s' : σ} {e : ε} (h : x s = .error e s') :
    s' = s := (after_of_error h).symm.trans (hx s)

end Reads

section Except

variable {x : Except ε α} {f : α → Except ε β} {xs : List α} {ys : List β} {R : α → β → Prop}

theorem except_bind_ok_iff {b : β} : (x >>= f) = .ok b ↔ ∃ a, x = .ok a ∧ f a = .ok b := by
  cases x <;> simp [bind, Except.bind]

theorem except_bind_error_iff {e : ε} :
    (x >>= f) = .error e ↔ x = .error e ∨ ∃ a, x = .ok a ∧ f a = .error e := by
  cases x <;> simp [bind, Except.bind]

theorem except_mapM_ok_iff : xs.mapM f = .ok ys ↔ List.Forall₂ (fun x y => f x = .ok y) xs ys := by
  induction xs generalizing ys with
  | nil => cases ys <;> simp [pure, Except.pure]
  | cons x xs ih =>
    rw [mapM_cons, except_bind_ok_iff]
    constructor
    · rintro ⟨y, hy, h⟩
      obtain ⟨ys', hys, h⟩ := except_bind_ok_iff.mp h
      cases h
      exact .cons hy (ih.mp hys)
    · rintro (_ | ⟨hy, hys⟩)
      exact ⟨_, hy, except_bind_ok_iff.mpr ⟨_, ih.mpr hys, rfl⟩⟩

theorem exists_mem_right_of_forall₂ (h : List.Forall₂ R xs ys) {x : α} (hx : x ∈ xs) :
    ∃ y ∈ ys, R x y := by
  induction h with
  | nil => simp at hx
  | cons hxy _ ih =>
    rcases mem_cons.mp hx with rfl | hx
    · exact ⟨_, by simp, hxy⟩
    · obtain ⟨y, hy, hr⟩ := ih hx
      exact ⟨y, mem_cons_of_mem _ hy, hr⟩

theorem exists_mem_left_of_forall₂ (h : List.Forall₂ R xs ys) {y : β} (hy : y ∈ ys) :
    ∃ x ∈ xs, R x y :=
  exists_mem_right_of_forall₂ h.flip hy

theorem except_foldlM_induction {P : β → Prop} {f : β → α → Except ε β} {b b' : β} (hb : P b)
    (hf : ∀ x ∈ xs, ∀ c c', P c → f c x = .ok c' → P c') (h : xs.foldlM f b = .ok b') : P b' := by
  induction xs generalizing b with
  | nil =>
    cases h
    exact hb
  | cons x xs ih =>
    rw [foldlM_cons] at h
    obtain ⟨c, hc, h⟩ := except_bind_ok_iff.mp h
    exact ih (hf x (by simp) b c hb hc) (fun y hy => hf y (mem_cons_of_mem _ hy)) h

end Except

end VolthaCore.Outcome
