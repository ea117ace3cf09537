import VolthaCore.Lib.Outcome

/-! Pre- and postconditions of computations that may fail after changing the
state. A triple says what holds of the state when the computation returns, and
separately what holds of the state it leaves behind when it fails, so that the
clean-up of a failed computation is part of its contract. -/

namespace VolthaCore.Outcome

variable {ε σ α β : Type}

/-- From every state with `P`, the computation returns with `Q` or fails with `E`. -/
def Triple (P : σ → Prop) (x : EStateM ε σ α) (Q : α → σ → Prop) (E : ε → σ → Prop) : Prop :=
  ∀ s, P s → match x s with
    | .ok a s' => Q a s'
    | .error e s' => E e s'

namespace Triple

variable {P P' : σ → Prop} {x : EStateM ε σ α} {Q Q' : α → σ → Prop} {E E' : ε → σ → Prop}
  {s : σ} {R : β → σ → Prop} {f : α → EStateM ε σ PUnit} {I : σ → Prop} {xs : List α}

theorem returned {s' : σ} {a : α} (h : Triple P x Q E) (hs : P s) (hx : x s = .ok a s') :
    Q a s' := by
  have := h s hs
  rwa [hx] at this

theorem failed {s' : σ} {e : ε} (h : Triple P x Q E) (hs : P s) (hx : x s = .error e s') :
    E e s' := by
  have := h s hs
  rwa [hx] at this

theorem exists_ok (h : Triple P x Q fun _ _ => False) (hs : P s) :
    ∃ a s', x s = .ok a s' ∧ Q a s' := by
  cases hx : x s with
  | ok a s' => exact ⟨a, s', rfl, h.returned hs hx⟩
  | error e s' => exact (h.failed hs hx).elim

theorem after {R : σ → Prop} (h : Triple P x (fun _ => R) fun _ => R) (hs : P s) :
    R (after x s) := by
  have hx := h s hs
  unfold Outcome.after
  cases hr : x s <;> rwa [hr] at hx

theorem weaken (h : Triple P x Q E) (hP : ∀ s, P' s → P s) (hQ : ∀ a s, Q a s → Q' a s)
    (hE : ∀ e s, E e s → E' e s) : Triple P' x Q' E' := by
  intro s hs
  have hx := h s (hP s hs)
  cases hr : x s with
  | ok a s' => exact hQ a s' (by rwa [hr] at hx)
  | error e s' => exact hE e s' (by rwa [hr] at hx)

theorem pre (h : Triple P x Q E) (hP : ∀ s, P' s → P s) : Triple P' x Q E :=
  h.weaken hP (fun _ _ => id) (fun _ _ => id)

theorem pure {a : α} (h : ∀ s, P s → Q a s) : Triple P (Pure.pure a : EStateM ε σ α) Q E :=
  fun s hs => h s hs

theorem throw {e : ε} (h : ∀ s, P s → E e s) : Triple P (throw e : EStateM ε σ α) Q E :=
  fun s hs => h s hs

theorem modify {f : σ → σ} {Q : PUnit → σ → Prop} (h : ∀ s, P s → Q ⟨⟩ (f s)) :
    Triple P (modify f : EStateM ε σ PUnit) Q E :=
  fun s hs => h s hs

theorem bind {f : α → EStateM ε σ β} (hx : Triple P x Q E) (hf : ∀ a, Triple (Q a) (f a) R E) :
    Triple P (x >>= f) R E := by
  intro s hs
  have h := hx s hs
  rw [bind_apply]
  cases hr : x s with
  | ok a s' => exact hf a s' (by rwa [hr] at h)
  | error e s' => simpa only [hr] using h

/-- The state that is read is the current one. -/
theorem get {f : σ → EStateM ε σ β} (h : ∀ t, Triple (fun s => P s ∧ s = t) (f t) R E) :
    Triple P ((MonadState.get : EStateM ε σ σ) >>= f) R E :=
  fun s hs => h s s ⟨hs, rfl⟩

/-- A handler runs in the state that the failed computation left behind. -/
theorem tryCatch {F : ε → σ → Prop} {handler : ε → EStateM ε σ α} (hx : Triple P x Q F)
    (hh : ∀ e, Triple (F e) (handler e) Q E) :
    Triple P (MonadExcept.tryCatch x handler) Q E := by
  intro s hs
  have h := hx s hs
  change match EStateM.tryCatch x handler s with
    | .ok a s' => Q a s'
    | .error e s' => E e s'
  unfold EStateM.tryCatch
  cases hr : x s with
  | ok a s' => simpa only [hr] using h
  | error e s' => exact hh e s' (by rwa [hr] at h)

/-- A loop keeps what each of its rounds keeps; the invariant may speak of the elements
that the earlier rounds have visited. -/
theorem forM {I : List α → σ → Prop} (h : ∀ done x rest, xs = done ++ x :: rest →
      Triple (I done) (f x) (fun _ => I (done ++ [x])) E) :
    Triple (I []) (xs.forM f) (fun _ => I xs) E := by
  suffices hgen : ∀ rest done, xs = done ++ rest →
      Triple (I done) (rest.forM f) (fun _ => I xs) E from hgen xs [] rfl
  intro rest
  induction rest with
  | nil =>
    rintro done rfl
    rw [List.append_nil]
    exact pure fun _ hs => hs
  | cons x rest ih =>
    intro done hxs
    exact bind (h done x rest hxs) fun _ => ih (done ++ [x]) (by simp [hxs])

theorem forM_keeps (h : ∀ x ∈ xs, Triple I (f x) (fun _ => I) E) :
    Triple I (xs.forM f) (fun _ => I) E :=
  forM (I := fun _ => I) fun _ x _ hxs => h x (by simp [hxs])

/-- A round establishes what all rounds keep. -/
theorem forM_establishes {K : σ → Prop} {x : α} (hx : x ∈ xs)
    (hI : ∀ y ∈ xs, Triple I (f y) (fun _ => I) E) (hest : Triple I (f x) (fun _ => K) E)
    (hK : ∀ y ∈ xs, Triple K (f y) (fun _ => K) E) : Triple I (xs.forM f) (fun _ => K) E := by
  obtain ⟨before, later, rfl⟩ := List.append_of_mem hx
  have hbefore : Triple I (before.forM f) (fun _ => I) E :=
    forM_keeps fun y hy => hI y (List.mem_append_left _ hy)
  have hlater : Triple K (later.forM f) (fun _ => K) E :=
    forM_keeps fun y hy => hK y (by simp [hy])
  have happ : (before ++ x :: later).forM f =
      (before.forM f >>= fun _ => f x >>= fun _ => later.forM f) := List.forM_append
  rw [happ]
  exact hbefore.bind fun _ => hest.bind fun _ => hlater

/-- A fact that does not depend on the state is a hypothesis. -/
theorem of_fact {F : Prop} (h : F → Triple P x Q E) : Triple (fun s => F ∧ P s) x Q E :=
  fun s hs => h hs.1 s hs.2

theorem all {ι : Type} {Q : ι → α → σ → Prop} {F : ι → Prop}
    (h : ∀ i, F i → Triple P x (Q i) E) (h' : Triple P x Q' E) :
    Triple P x (fun a s => Q' a s ∧ ∀ i, F i → Q i a s) E := by
  intro s hs
  have hx := h' s hs
  cases hr : x s with
  | ok a s' => exact ⟨by rwa [hr] at hx, fun i hi => (h i hi).returned hs hr⟩
  | error e s' => rwa [hr] at hx

end Triple

end VolthaCore.Outcome
