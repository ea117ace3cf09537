import Mathlib.Data.List.Basic

/-! Runs of a system: a list of inputs is applied one after the other. A condition
on a state and an input holds along a run when every input meets it in the state
in which it arrives, and an invariant that such inputs keep holds at the end. -/

namespace VolthaCore.Runs

open List

variable {σ ι : Type} (step : σ → ι → σ)

def run (inputs : List ι) (s : σ) : σ := inputs.foldl step s

/-- Every input meets the condition in the state in which it arrives. -/
def Along (C : σ → ι → Prop) : List ι → σ → Prop
  | [], _ => True
  | i :: inputs, s => C s i ∧ Along C inputs (step s i)

instance Along.decidable (C : σ → ι → Prop) [∀ s i, Decidable (C s i)] :
    ∀ (inputs : List ι) (s : σ), Decidable (Along step C inputs s)
  | [], _ => .isTrue trivial
  | i :: inputs, s =>
    have := Along.decidable C inputs (step s i)
    inferInstanceAs (Decidable (C s i ∧ Along step C inputs (step s i)))

@[simp] theorem run_nil (s : σ) : run step [] s = s := rfl

@[simp] theorem run_cons (i : ι) (inputs : List ι) (s : σ) :
    run step (i :: inputs) s = run step inputs (step s i) := rfl

theorem run_append (before later : List ι) (s : σ) :
    run step (before ++ later) s = run step later (run step before s) := foldl_append

variable {step} {C : σ → ι → Prop} {s : σ} {D : ι → Prop} {inputs : List ι} {P : σ → Prop}

theorem along_append {before later : List ι} :
    Along step C (before ++ later) s ↔
      Along step C before s ∧ Along step C later (run step before s) := by
  induction before generalizing s with
  | nil => simp [Along]
  | cons i before ih => simp only [cons_append, Along, ih, run_cons, and_assoc]

theorem along_of_forall (h : ∀ i ∈ inputs, D i) (s : σ) : Along step (fun _ i => D i) inputs s := by
  induction inputs generalizing s with
  | nil => trivial
  | cons i inputs ih =>
    exact ⟨h i (by simp), ih (fun j hj => h j (mem_cons_of_mem _ hj)) (step s i)⟩

theorem Along.and {D : σ → ι → Prop} (hC : Along step C inputs s) (hD : Along step D inputs s) :
    Along step (fun s i => C s i ∧ D s i) inputs s := by
  induction inputs generalizing s with
  | nil => trivial
  | cons i inputs ih => exact ⟨⟨hC.1, hD.1⟩, ih hC.2 hD.2⟩

/-- An invariant that every admissible step keeps holds after every run. -/
theorem run_invariant (hstep : ∀ s i, C s i → P s → P (step s i)) (h : Along step C inputs s)
    (hs : P s) : P (run step inputs s) := by
  induction inputs generalizing s with
  | nil => exact hs
  | cons i inputs ih => exact ih h.2 (hstep s i h.1 hs)

/-- Where a step keeps a property exactly under a condition, the property holds after every
beginning of a run exactly when the condition holds along the run. -/
theorem forall_prefix_iff_along {I : σ → Prop} (hI : ∀ s i, D i → I s → I (step s i))
    (hP : ∀ s i, D i → I s → P s → (P (step s i) ↔ C s i)) (hD : ∀ i ∈ inputs, D i) (hs : I s)
    (h0 : P s) : (∀ before, before <+: inputs → P (run step before s)) ↔ Along step C inputs s := by
  induction inputs generalizing s with
  | nil => simp [Along, h0]
  | cons i inputs ih =>
    have hDi := hD i (by simp)
    have hrest := fun h => ih (fun j hj => hD j (mem_cons_of_mem _ hj)) (hI s i hDi hs) h
    have hfirst := hP s i hDi hs h0
    constructor
    · intro hall
      have hstep : P (step s i) := hall [i] (by simp)
      refine ⟨hfirst.mp hstep, (hrest hstep).mp fun before hbefore => ?_⟩
      exact hall (i :: before) (cons_prefix_cons.mpr ⟨rfl, hbefore⟩)
    · rintro ⟨hi, hinputs⟩ before hbefore
      cases before with
      | nil => exact h0
      | cons j before =>
        obtain ⟨rfl, hrestBefore⟩ := cons_prefix_cons.mp hbefore
        exact (hrest (hfirst.mpr hi)).mpr hinputs before hrestBefore

end VolthaCore.Runs
