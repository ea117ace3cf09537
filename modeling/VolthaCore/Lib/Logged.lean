import Mathlib.Data.List.Induction

/-! Computations that fail or return a value together with a log of what they have
done. The log is only written, so the outcome of a computation does not depend on
what was logged before it, and a sequence logs what its parts log, in order. -/

namespace VolthaCore

open List

/-- An error, or a value and what was logged on the way to it. -/
inductive Logged (ε ω α : Type) where
  | error (e : ε)
  | ok (a : α) (log : List ω)

namespace Logged

variable {ε ω α β : Type}

/-- The computation returns the value and logs the notes. -/
def Gives (x : Logged ε ω α) (a : α) (log : List ω) : Prop := x = ok a log

def after (log : List ω) : Logged ε ω α → Logged ε ω α
  | error e => error e
  | ok a log' => ok a (log ++ log')

protected def bind (x : Logged ε ω α) (f : α → Logged ε ω β) : Logged ε ω β :=
  match x with
  | error e => error e
  | ok a log => (f a).after log

instance : Monad (Logged ε ω) where
  pure a := ok a []
  bind := Logged.bind

instance : MonadExcept ε (Logged ε ω) where
  throw := error
  tryCatch x handler :=
    match x with
    | error e => handler e
    | ok a log => ok a log

def note (w : ω) : Logged ε ω Unit := ok () [w]

instance : LawfulMonad (Logged ε ω) := LawfulMonad.mk' (Logged ε ω)
  (fun x => by
    cases x with
    | error e => rfl
    | ok a log => exact congrArg (ok a) (append_nil log))
  (fun a f => by
    change (f a).after [] = f a
    cases f a <;> rfl)
  (fun x f g => by
    cases x with
    | error e => rfl
    | ok a log =>
      change Logged.bind ((f a).after log) g = (Logged.bind (f a) g).after log
      cases f a with
      | error e => rfl
      | ok b log' =>
        change (g b).after (log ++ log') = ((g b).after log').after log
        cases g b with
        | error e => rfl
        | ok c log'' => exact congrArg (ok c) (append_assoc log log' log''))

/-! ### Returned values -/

variable {a : α} {b b' : β} {log : List ω} {x : Logged ε ω α} {f : β → α → Logged ε ω β}
  {xs : List α}

theorem gives_pure {b : α} : (pure a : Logged ε ω α).Gives b log ↔ b = a ∧ log = [] := by
  change ok a [] = ok b log ↔ _
  rw [ok.injEq, eq_comm, eq_comm (a := [])]

theorem not_gives_throw {e : ε} : ¬(throw e : Logged ε ω α).Gives a log := nofun

theorem gives_note {w : ω} : (note w : Logged ε ω Unit).Gives () log ↔ log = [w] := by
  change ok () [w] = ok () log ↔ _
  rw [ok.injEq, eq_comm (a := [w])]
  simp

theorem gives_bind {f : α → Logged ε ω β} :
    (x >>= f).Gives b log ↔
      ∃ a log1 log2, x.Gives a log1 ∧ (f a).Gives b log2 ∧ log = log1 ++ log2 := by
  change Logged.bind x f = ok b log ↔ _
  constructor
  · intro h
    cases x with
    | error e => cases h
    | ok a log1 =>
      change (f a).after log1 = ok b log at h
      cases hf : f a with
      | error e =>
        rw [hf] at h
        cases h
      | ok b' log2 =>
        rw [hf] at h
        cases h
        exact ⟨a, log1, log2, rfl, hf, rfl⟩
  · rintro ⟨a, log1, log2, rfl, hf, rfl⟩
    change (f a).after log1 = _
    rw [hf]
    rfl

theorem Gives.unique {b : α} {log' : List ω} (h : x.Gives a log) (h' : x.Gives b log') :
    a = b ∧ log = log' := by
  have heq : ok a log = ok b log' := h.symm.trans h'
  rw [ok.injEq] at heq
  exact heq

def value? : Logged ε ω α → Option α
  | error _ => none
  | ok a _ => some a

theorem Gives.value? (h : x.Gives a log) : x.value? = some a := by
  rw [h]
  rfl

/-- A loop whose rounds, when they return, reach known values has returned from every round. -/
theorem foldlM_value (value : List α → β)
    (h : ∀ done x rest c log', xs = done ++ x :: rest → (f (value done) x).Gives c log' →
      c = value (done ++ [x])) (hrun : (xs.foldlM f (value [])).Gives b log) :
    b = value xs ∧ ∀ done x rest, xs = done ++ x :: rest →
      ∃ log', (f (value done) x).Gives (value (done ++ [x])) log' ∧ log' ⊆ log := by
  induction xs using List.reverseRecOn generalizing b log with
  | nil => exact ⟨(gives_pure.mp hrun).1, by simp⟩
  | append_singleton xs x ih =>
    rw [foldlM_append] at hrun
    obtain ⟨c, log1, log2, hc, hx, rfl⟩ := gives_bind.mp hrun
    obtain ⟨rfl, hrounds⟩ := ih (fun done y rest c log' hsplit =>
      h done y (rest ++ [x]) c log' (by simp [hsplit])) hc
    rw [foldlM_cons] at hx
    obtain ⟨c', log3, log4, hlast, hnil, rfl⟩ := gives_bind.mp hx
    obtain ⟨rfl, rfl⟩ := gives_pure.mp hnil
    have hb := h xs x [] _ _ rfl hlast
    refine ⟨hb, fun done y rest hsplit => ?_⟩
    rcases eq_nil_or_concat rest with rfl | ⟨rest, z, rfl⟩
    · obtain ⟨rfl, hy⟩ := append_inj' hsplit rfl
      cases hy
      exact ⟨log3, hb ▸ hlast, by simp⟩
    · rw [concat_eq_append, ← cons_append, ← append_assoc] at hsplit
      obtain ⟨log', hlog', hsub⟩ := hrounds done y rest (append_inj' hsplit rfl).1
      exact ⟨log', hlog', fun e he => mem_append_left _ (hsub he)⟩

/-! ### Values and a property of the log -/

/-- The computation returns the value, and all its notes have the property. -/
def Yields (Q : ω → Prop) (x : Logged ε ω α) (a : α) : Prop :=
  ∃ log, x.Gives a log ∧ ∀ w ∈ log, Q w

/-- The computation returns the value, whatever it logs. -/
abbrev Returns (x : Logged ε ω α) (a : α) : Prop := Yields (fun _ => True) x a

variable {Q : ω → Prop}

theorem Gives.returns (h : x.Gives a log) : Returns x a := ⟨log, h, fun _ _ => trivial⟩

theorem Yields.eq {b : α} (h : Yields Q x a) (hx : x.Gives b log) : b = a := by
  obtain ⟨log', h, -⟩ := h
  exact (hx.unique h).1

theorem Yields.unique {b : α} (h : Yields Q x a) (h' : Yields Q x b) : b = a := by
  obtain ⟨log, h', -⟩ := h'
  exact h.eq h'

theorem yields_pure (a : α) : Yields Q (pure a : Logged ε ω α) a :=
  ⟨[], gives_pure.mpr ⟨rfl, rfl⟩, by simp⟩

theorem Yields.bind {f : α → Logged ε ω β} (hx : Yields Q x a) (hf : Yields Q (f a) b) :
    Yields Q (x >>= f) b := by
  obtain ⟨log1, hx, hlog1⟩ := hx
  obtain ⟨log2, hf, hlog2⟩ := hf
  refine ⟨log1 ++ log2, gives_bind.mpr ⟨a, log1, log2, hx, hf, rfl⟩, fun w hw => ?_⟩
  exact (mem_append.mp hw).elim (hlog1 w) (hlog2 w)

theorem yields_bind {f : α → Logged ε ω β} :
    Yields Q (x >>= f) b ↔ ∃ a, Yields Q x a ∧ Yields Q (f a) b := by
  constructor
  · rintro ⟨log, h, hlog⟩
    obtain ⟨a, log1, log2, hx, hf, rfl⟩ := gives_bind.mp h
    exact ⟨a, ⟨log1, hx, fun w hw => hlog w (mem_append_left _ hw)⟩,
      ⟨log2, hf, fun w hw => hlog w (mem_append_right _ hw)⟩⟩
  · rintro ⟨a, hx, hf⟩
    exact hx.bind hf

theorem eq_of_yields_pure {b : α} (h : Yields Q (pure a : Logged ε ω α) b) : b = a := by
  obtain ⟨log, h, -⟩ := h
  exact (gives_pure.mp h).1

theorem not_yields_throw {e : ε} : ¬Yields Q (throw e : Logged ε ω α) a :=
  fun ⟨_, h, _⟩ => not_gives_throw h

theorem Yields.passOn (hx : Yields Q x a) (g : α → β) :
    Yields Q (x >>= fun a => pure (g a)) (g a) :=
  hx.bind (yields_pure _)

/-- A loop whose rounds each yield the next value, which may depend on the elements visited
so far. -/
theorem Yields.foldlM (value : List α → β) (h : ∀ done x rest, xs = done ++ x :: rest →
      Yields Q (f (value done) x) (value (done ++ [x]))) :
    Yields Q (xs.foldlM f (value [])) (value xs) := by
  suffices hgen : ∀ rest done, xs = done ++ rest →
      Yields Q (rest.foldlM f (value done)) (value xs) from hgen xs [] rfl
  intro rest
  induction rest with
  | nil =>
    rintro done rfl
    rw [append_nil]
    exact yields_pure _
  | cons x rest ih =>
    intro done hxs
    rw [foldlM_cons]
    exact (h done x rest hxs).bind (ih (done ++ [x]) (by simp [hxs]))

/-- What every round of a loop keeps holds after it. -/
theorem Yields.keeps {I : β → Prop} (h : Yields Q (xs.foldlM f b) b') (hb : I b)
    (hf : ∀ x ∈ xs, ∀ c c', I c → Yields Q (f c x) c' → I c') : I b' := by
  induction xs generalizing b with
  | nil =>
    rw [eq_of_yields_pure h]
    exact hb
  | cons x xs ih =>
    rw [foldlM_cons] at h
    obtain ⟨c, hc, h⟩ := yields_bind.mp h
    exact ih h (hf x (by simp) b c hb hc) fun y hy => hf y (mem_cons_of_mem _ hy)

/-- In a loop that yields, every round has yielded. -/
theorem Yields.rounds (h : Yields Q (xs.foldlM f b) b') :
    ∀ x ∈ xs, ∃ c c', Yields Q (f c x) c' := by
  induction xs generalizing b with
  | nil => simp
  | cons x xs ih =>
    rw [foldlM_cons] at h
    obtain ⟨c, hc, hrest⟩ := yields_bind.mp h
    exact forall_mem_cons.mpr ⟨⟨b, c, hc⟩, ih hrest⟩

theorem yields_forM {f : α → Logged ε ω PUnit} :
    Yields Q (xs.forM f) ⟨⟩ ↔ ∀ x ∈ xs, Yields Q (f x) ⟨⟩ := by
  induction xs with
  | nil => exact iff_of_true (yields_pure _) (by simp)
  | cons x xs ih =>
    rw [forall_mem_cons, ← ih]
    exact yields_bind.trans ⟨fun ⟨_, hx, hxs⟩ => ⟨hx, hxs⟩, fun ⟨hx, hxs⟩ => ⟨_, hx, hxs⟩⟩

end Logged

end VolthaCore
