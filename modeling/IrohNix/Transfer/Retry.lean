import IrohNix.Basic
import IrohNix.Lib.Text
import Mathlib.Data.List.Infix

namespace IrohNix.Transfer
open IrohNix.Lib

/-- How often an operation is tried again. The delays in between are not modelled. -/
structure RetryConfig where
  maxRetries : UInt32
deriving DecidableEq

def RetryConfig.default : RetryConfig := ⟨3⟩
def RetryConfig.noRetry : RetryConfig := ⟨0⟩
def RetryConfig.aggressive : RetryConfig := ⟨5⟩
def RetryConfig.patient : RetryConfig := ⟨10⟩

/-- What a run of retries counts, its delays left out. -/
structure RetryStats where
  attempts : Nat
  succeeded : Bool
deriving DecidableEq

/-- `str::contains` -/
def contains (msg part : String) : Bool := part.toList <:+: msg.toList

/-- Determines if an error is retryable. -/
def isRetryable : Error → Bool
  | .connection _ | .timeout _ | .iroh _ | .gossip _ => true
  | .protocol msg =>
    contains msg "stream" || contains msg "connection" || contains msg "timeout" ||
      contains msg "reset"
  | .remote msg => !contains msg "not found"
  | .io kind _ => kind != .other
  | .hashNotFound _ | .storePathNotFound _ | .invalidStorePath _ | .database _ | .nar _
  | .signing _ | .build _ | .jobNotFound _ | .invalidBuilder _ | .internal _ => false
  | .httpCache msg => !contains msg "not found" && !contains msg "mismatch"

/-- From an attempt on, with so many left after it. -/
def retryFrom {α : Type} (operation : Nat → Except Error α) : Nat → Nat → Except Error α × RetryStats
  | left, attempt =>
    match operation attempt with
    | .ok result => (.ok result, ⟨attempt + 1, true⟩)
    | .error e =>
      match left with
      | 0 => (.error e, ⟨attempt + 1, false⟩)
      | left + 1 =>
        if isRetryable e then retryFrom operation left (attempt + 1)
        else (.error e, ⟨attempt + 1, false⟩)

/-- `with_retry_stats`, of an operation given by the outcome of each attempt. -/
def withRetryStats {α : Type} (config : RetryConfig) (operation : Nat → Except Error α) :
    Except Error α × RetryStats :=
  retryFrom operation config.maxRetries.toNat 0

def withRetry {α : Type} (config : RetryConfig) (operation : Nat → Except Error α) :
    Except Error α :=
  (withRetryStats config operation).1

theorem retryFrom_ok {α : Type} {operation : Nat → Except Error α} {left attempt : Nat} {a : α}
    (h : (retryFrom operation left attempt).1 = .ok a) : ∃ i, operation i = .ok a := by
  induction left generalizing attempt with
  | zero =>
    unfold retryFrom at h
    cases ho : operation attempt with
    | ok b => exact ⟨attempt, by simpa [ho] using h⟩
    | error e => simp [ho] at h
  | succ left ih =>
    unfold retryFrom at h
    cases ho : operation attempt with
    | ok b => exact ⟨attempt, by simpa [ho] using h⟩
    | error e =>
      simp only [ho] at h
      split at h
      · exact ih h
      · contradiction

/-- A value is returned only if some attempt returned it. -/
theorem withRetry_ok {α : Type} {config : RetryConfig} {operation : Nat → Except Error α} {a : α}
    (h : withRetry config operation = .ok a) : ∃ i, operation i = .ok a := retryFrom_ok h

/-- Where the first attempt succeeds there is no other. -/
theorem withRetry_first {α : Type} {operation : Nat → Except Error α} {a : α}
    (config : RetryConfig) (h : operation 0 = .ok a) : withRetry config operation = .ok a := by
  unfold withRetry withRetryStats retryFrom
  simp [h]

end IrohNix.Transfer
