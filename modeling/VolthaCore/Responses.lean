import Mathlib.Algebra.GroupWithZero.Nat
import VolthaCore.Errors

/-! Waiting for responses that goroutines give (`core_utils.go`). The responses are awaited one by
one against one timer. Whether a response that is not there yet comes before the timer fires,
and which of the two is noticed when both are there, is up to the scheduler. -/

namespace VolthaCore.Responses

open List

/-- How and when a response is completed. -/
inductive Completion where
  | never
  | done (time : ℕ)
  | error (time : ℕ) (e : Err)

namespace Completion

def err : Completion → Option Err
  | error _ e => some e
  | _ => none

def time : Completion → Option ℕ
  | never => none
  | done t | error t _ => some t

/-- The channel of the response is closed. -/
def closedBy (r : Completion) (now : ℕ) : Bool := r.time.any (· ≤ now)

end Completion

/-- The time that passes before the function turns to a response and before it goes on after
waiting, and what it takes when the response and the timer are both ready. -/
structure Delay where
  turn : ℕ
  wake : ℕ
  takeTimeout : Bool

/-- A response with its outcome: when the function turned to it and when the outcome was decided. -/
structure Turn where
  response : Completion
  turned : ℕ
  decided : ℕ
  outcome : Option Err

def timeout : Err := .status .aborted "timeout"

def awaitResponse (timedOut : ℕ) (response : Completion) (delay : Delay) (now : ℕ) : Turn :=
  let turned := now + delay.turn
  if response.closedBy turned then ⟨response, turned, turned, response.err⟩
  else
    let decided := max turned (response.time.elim timedOut (min timedOut)) + delay.wake
    ⟨response, turned, decided,
      if response.closedBy decided ∧ (decided < timedOut ∨ delay.takeTimeout = false) then
        response.err
      else some timeout⟩

def awaitAll (timedOut : ℕ) : List (Completion × Delay) → ℕ → List Turn
  | [], _ => []
  | (response, delay) :: responses, now =>
    let turn := awaitResponse timedOut response delay now
    turn :: awaitAll timedOut responses turn.decided

def waitForNilOrErrorResponses (timedOut : ℕ) (responses : List (Completion × Delay)) (now : ℕ) :
    Option (List (Option Err)) :=
  VolthaCore.waitForNilOrErrorResponses ((awaitAll timedOut responses now).map Turn.outcome)

/-- The outcome is that of the response, or the timeout once the timer has fired. -/
structure Turn.Fits (timedOut : ℕ) (turn : Turn) : Prop where
  own : turn.response.closedBy turn.turned → turn.outcome = turn.response.err
  waited : turn.response.closedBy turn.decided ∧ turn.outcome = turn.response.err ∨
    timedOut ≤ turn.decided ∧ turn.outcome = some timeout

theorem awaitResponse_spec (timedOut now : ℕ) (response : Completion) (delay : Delay) :
    let turn := awaitResponse timedOut response delay now
    turn.Fits timedOut ∧ turn.response = response ∧ now ≤ turn.turned ∧
      turn.turned ≤ turn.decided ∧
      turn.decided ≤ max now timedOut + (delay.turn + delay.wake) := by
  unfold awaitResponse
  by_cases hclosed : response.closedBy (now + delay.turn)
  · simp only [hclosed, if_true]
    exact ⟨⟨fun _ => rfl, .inl ⟨hclosed, rfl⟩⟩, trivial, by omega, by omega, by omega⟩
  · simp only [hclosed, if_false, Bool.false_eq_true]
    generalize hready : response.time.elim timedOut (min timedOut) = ready
    have hle : ready ≤ timedOut := by
      cases htime : response.time <;> simp [htime] at hready <;> omega
    refine ⟨⟨fun h => absurd h hclosed, ?_⟩, trivial, by omega, by omega, by omega⟩
    dsimp only
    split_ifs with htaken
    · exact .inl ⟨htaken.1, rfl⟩
    · refine .inr ⟨?_, rfl⟩
      by_contra hearly
      -- before the timer fires only the response can end the wait
      refine htaken ⟨?_, .inl (by omega)⟩
      cases htime : response.time with
      | none => simp [htime] at hready; omega
      | some t => simp [htime] at hready; simp [Completion.closedBy, htime]; omega

/-- Each response is awaited in its turn until the common deadline, and one that has arrived by
the turn before is never reported as timed out. -/
theorem waiting_is_per_response (timedOut : ℕ) (responses : List (Completion × Delay)) (now : ℕ) :
    let turns := awaitAll timedOut responses now
    turns.map Turn.response = responses.map Prod.fst ∧
      (∀ turn ∈ turns, turn.Fits timedOut ∧ turn.decided ≤ max now timedOut +
        (responses.map fun r => r.2.turn + r.2.wake).sum) ∧
      waitForNilOrErrorResponses timedOut responses now =
        (if ∀ turn ∈ turns, turn.outcome = none then none else some (turns.map Turn.outcome)) ∧
      turns.Pairwise fun earlier later =>
        later.response.closedBy earlier.decided → later.outcome = later.response.err := by
  intro turns
  have hspec : turns.map Turn.response = responses.map Prod.fst ∧
      (∀ turn ∈ turns, turn.Fits timedOut ∧ now ≤ turn.turned ∧ turn.decided ≤
        max now timedOut + (responses.map fun r => r.2.turn + r.2.wake).sum) ∧
      turns.Pairwise fun earlier later => earlier.decided ≤ later.turned := by
    simp only [turns]
    induction responses generalizing now with
    | nil => simp [awaitAll]
    | cons r responses ih =>
      obtain ⟨response, delay⟩ := r
      obtain ⟨hfits, hresponse, hnow, horder, hle⟩ := awaitResponse_spec timedOut now response delay
      obtain ⟨hall, hbounds, hpairs⟩ := ih (awaitResponse timedOut response delay now).decided
      rw [awaitAll, map_cons, map_cons, map_cons, sum_cons, hall, hresponse]
      refine ⟨rfl, forall_mem_cons.mpr ⟨⟨hfits, hnow, by dsimp only; omega⟩, fun turn h => ?_⟩,
        pairwise_cons.mpr ⟨fun turn h => (hbounds turn h).2.1, hpairs⟩⟩
      obtain ⟨hturn, hfrom, hto⟩ := hbounds turn h
      exact ⟨hturn, by omega, by dsimp only; omega⟩
  obtain ⟨hall, hbounds, hpairs⟩ := hspec
  refine ⟨hall, fun turn h => ⟨(hbounds turn h).1, (hbounds turn h).2.2⟩, ?_, ?_⟩
  · rw [waitForNilOrErrorResponses, VolthaCore.waitForNilOrErrorResponses]
    by_cases hnil : ∀ turn ∈ turns, turn.outcome = none
    · rw [if_pos hnil, if_neg (by simpa using hnil)]
    · rw [if_neg hnil, if_pos (by simpa [Option.isSome_iff_ne_none] using hnil)]
  · refine hpairs.imp_of_mem fun {earlier later} _ hmem hle hclosed => ?_
    refine (hbounds later hmem).1.own ?_
    unfold Completion.closedBy at hclosed ⊢
    cases htime : later.response.time with
    | none => simp [htime] at hclosed
    | some t => simp [htime] at hclosed ⊢; omega

end VolthaCore.Responses
