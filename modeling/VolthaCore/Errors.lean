import Mathlib.Data.List.Basic

/-! The failures of the core. A failure is a gRPC status, a plain Go error or a
run-time panic, and it is a value with the text that the source gives it, since
a waiting caller prints the errors of all its parts into its own message. -/

namespace VolthaCore

/-- The gRPC status codes that the modelled code reports. -/
inductive Code where
  | failedPrecondition | notFound | aborted | internal | invalidArgument | alreadyExists
  | unimplemented
  deriving DecidableEq

def Code.name : Code → String
  | .failedPrecondition => "FailedPrecondition"
  | .notFound => "NotFound"
  | .aborted => "Aborted"
  | .internal => "Internal"
  | .invalidArgument => "InvalidArgument"
  | .alreadyExists => "AlreadyExists"
  | .unimplemented => "Unimplemented"

/-- A failure. `crash` stands for a Go panic: a `nil` dereference or an index out
of range. -/
inductive Err where
  | status (code : Code) (desc : String)
  | plain (text : String)
  | crash (reason : String)
  deriving DecidableEq

/-- What Go's `Error` method prints. -/
def Err.text : Err → String
  | .status code desc => "rpc error: code = " ++ code.name ++ " desc = " ++ desc
  | .plain text => text
  | .crash reason => reason

/-! ### Responses -/

/-- The responses as they came in, when at least one of them is an error. -/
def waitForNilOrErrorResponses (responses : List (Option Err)) : Option (List (Option Err)) :=
  if responses.any Option.isSome then some responses else none

/-- How Go prints a list of errors with `%s`. -/
def errorsText (errors : List (Option Err)) : String :=
  "[" ++ " ".intercalate (errors.map fun
    | none => "%!s(<nil>)"
    | some e => e.text) ++ "]"

/-- Wait for every response and fail when one of them is an error. -/
def awaitResponses (responses : List (Option Err)) : Except Err Unit :=
  match waitForNilOrErrorResponses responses with
  | none => .ok ()
  | some errors => .error (.status .aborted ("errors-" ++ errorsText errors))

theorem awaitResponses_ok_iff (responses : List (Option Err)) :
    awaitResponses responses = .ok () ↔ ∀ r ∈ responses, r = none := by
  unfold awaitResponses waitForNilOrErrorResponses
  by_cases h : responses.any Option.isSome
  · obtain ⟨r, hr, hs⟩ := List.any_eq_true.mp h
    rw [if_pos h]
    refine ⟨fun hc => by simp at hc, fun hall => ?_⟩
    simp [hall r hr] at hs
  · rw [if_neg h]
    refine ⟨fun _ r hr => ?_, fun _ => rfl⟩
    by_contra hne
    exact h (List.any_eq_true.mpr ⟨r, hr, Option.isSome_iff_ne_none.mpr hne⟩)

end VolthaCore
