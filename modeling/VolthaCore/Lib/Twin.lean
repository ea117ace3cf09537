import VolthaCore.Lib.Outcome

/-! Two computations side by side. From related states they return related values, or fail with
the same error, and leave related states behind. When the states are related by what an observer
sees of them, this says that the observer cannot tell the two runs apart. -/

namespace VolthaCore.Outcome

open List

variable {ε σ α β : Type}

def outcome (x : EStateM ε σ α) (s : σ) : Except ε α :=
  match x s with
  | .ok a _ => .ok a
  | .error e _ => .error e

/-- From states in the relation `R`, the computations return values in the relation `V` or fail with
the same error, and leave states in `R`. -/
def Twin (R : σ → σ → Prop) (V : α → α → Prop) (x y : EStateM ε σ α) : Prop :=
  ∀ s t, R s t → match x s, y t with
    | .ok a s', .ok b t' => V a b ∧ R s' t'
    | .error e s', .error f t' => e = f ∧ R s' t'
    | _, _ => False

/-- The same value, which has a property. -/
def Same (Q : α → Prop) (a b : α) : Prop := a = b ∧ Q a

namespace Twin

variable {R : σ → σ → Prop} {V : α → α → Prop} {W : β → β → Prop} {Q : α → Prop}
  {x y : EStateM ε σ α} {s t : σ}

/-- Both computations return, or both fail. -/
theorem cases (h : Twin R V x y) (hst : R s t) :
    (∃ a s' b t', x s = .ok a s' ∧ y t = .ok b t' ∧ V a b ∧ R s' t') ∨
      ∃ e s' t', x s = .error e s' ∧ y t = .error e t' ∧ R s' t' := by
  have hxy := h s t hst
  split at hxy
  · exact .inl ⟨_, _, _, _, ‹_›, ‹_›, hxy⟩
  · obtain ⟨rfl, hst'⟩ := hxy
    exact .inr ⟨_, _, _, ‹_›, ‹_›, hst'⟩
  · exact hxy.elim

theorem outcome_eq (h : Twin R (Same Q) x y) (hst : R s t) :
    outcome x s = outcome y t := by
  unfold outcome
  obtain ⟨a, s', b, t', hx, hy, hab, -⟩ | ⟨e, s', t', hx, hy, -⟩ := h.cases hst
  · rw [hx, hy, hab.1]
  · rw [hx, hy]

theorem after (h : Twin R V x y) (hst : R s t) :
    R (after x s) (Outcome.after y t) := by
  unfold Outcome.after
  obtain ⟨a, s', b, t', hx, hy, -, hst'⟩ | ⟨e, s', t', hx, hy, hst'⟩ := h.cases hst
  · rwa [hx, hy]
  · rwa [hx, hy]

theorem pure {a b : α} (h : V a b) :
    Twin R V (Pure.pure a : EStateM ε σ α) (Pure.pure b) := fun _ _ hst => ⟨h, hst⟩

theorem throw (e : ε) : Twin R V (throw e : EStateM ε σ α) (throw e) := fun _ _ hst => ⟨rfl, hst⟩

variable {f g : α → EStateM ε σ β} {xs : List β}

theorem bind (hx : Twin R V x y) (hf : ∀ a b, V a b → Twin R W (f a) (g b)) :
    Twin R W (x >>= f) (y >>= g) := by
  intro s t hst
  rw [bind_apply, bind_apply]
  obtain ⟨a, s', b, t', hr, hy, hab, hst'⟩ | ⟨e, s', t', hr, hy, hst'⟩ := hx.cases hst
  · rw [hr, hy]
    exact hf a b hab s' t' hst'
  · rw [hr, hy]
    exact ⟨rfl, hst'⟩

/-- Sequences whose first parts return the same value. -/
theorem seq (hx : Twin R (Same Q) x y) (hf : ∀ a, Q a → Twin R W (f a) (g a)) :
    Twin R W (x >>= f) (y >>= g) :=
  hx.bind fun a b hab => by
    obtain ⟨rfl, ha⟩ := hab
    exact hf a ha

theorem reads {f : σ → α} (h : ∀ s t, R s t → V (f s) (f t)) :
    Twin R V (do return f (← get) : EStateM ε σ α) (do return f (← get)) :=
  fun s t hst => ⟨h s t hst, hst⟩

theorem modify {f g : σ → σ} (h : ∀ s t, R s t → R (f s) (g t)) :
    Twin R (Same fun _ => True) (modify f : EStateM ε σ PUnit) (modify g) :=
  fun s t hst => ⟨⟨rfl, trivial⟩, h s t hst⟩

theorem modifyGet {f : σ → α × σ}
    (h : ∀ s t, R s t → V (f s).1 (f t).1 ∧ R (f s).2 (f t).2) :
    Twin R V (modifyGet f : EStateM ε σ α) (modifyGet f) := h

theorem mapM {f : β → EStateM ε σ α} (h : ∀ b ∈ xs, Twin R (Same Q) (f b) (f b)) :
    Twin R (Same fun as => ∀ a ∈ as, Q a) (xs.mapM f) (xs.mapM f) := by
  induction xs with
  | nil => exact pure ⟨rfl, by simp⟩
  | cons b xs ih =>
    rw [mapM_cons]
    refine (h b (by simp)).seq fun a ha =>
      (ih fun b' hb' => h b' (mem_cons_of_mem _ hb')).seq fun as has => pure ⟨rfl, ?_⟩
    intro a' ha'
    rcases mem_cons.mp ha' with rfl | ha'
    · exact ha
    · exact has a' ha'

theorem foldlM {f : α → β → EStateM ε σ α} {a : α} (ha : Q a)
    (h : ∀ b ∈ xs, ∀ a, Q a → Twin R (Same Q) (f a b) (f a b)) :
    Twin R (Same Q) (xs.foldlM f a) (xs.foldlM f a) := by
  induction xs generalizing a with
  | nil => exact pure ⟨rfl, ha⟩
  | cons b xs ih =>
    rw [foldlM_cons]
    exact (h b (by simp) a ha).seq fun a' ha' =>
      ih ha' fun b' hb' => h b' (mem_cons_of_mem _ hb')

end Twin

end VolthaCore.Outcome
