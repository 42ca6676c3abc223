import IrohNix.Transfer.Retry
import Mathlib.Data.Nat.Find

namespace IrohNix.Transfer.RetryLoop
open IrohNix.Lib

/-- `RetryStats` with all it counts, the waiting time in nanoseconds. -/
structure RetryStats where
  attempts : UInt32
  totalDelay : Nat
  succeeded : Bool
deriving DecidableEq

def RetryStats.default : RetryStats := ⟨0, 0, false⟩

/-- What the loop carries between attempts, and what it has done: how often it invoked
the operation, and the calls of the progress callback. -/
structure Progress where
  lastError : Option Error
  stats : RetryStats
  invocations : Nat
  callbacks : List (UInt32 × UInt32 × Nat)
deriving DecidableEq

def Progress.start : Progress := ⟨none, .default, 0, []⟩

/-- No wait before the first attempt. `backoff` stands for the floating-point part. -/
def delayForAttempt (backoff : UInt32 → Nat) (attempt : UInt32) : Nat :=
  if attempt = 0 then 0 else backoff attempt

/-- How the function leaves: from inside the loop, or behind it with the last error or
with an error of its own. -/
inductive Exit (α : Type) where
  | returned (result : Except Error α)
  | lastError (e : Error)
  | exhausted
deriving DecidableEq

def Exit.result {α : Type} : Exit α → Except Error α
  | .returned result => result
  | .lastError e => .error e
  | .exhausted => .error (.timeout "all retries exhausted")

section
variable {α : Type} (config : RetryConfig) (backoff : UInt32 → Nat) (onRetry : Bool)
  (outcomes : Nat → Except Error α)

/-- The wait before an attempt, announced to the callback where there is one. -/
def wait (s : Progress) (attempt : UInt32) : Progress :=
  let delay := delayForAttempt backoff attempt
  if delay = 0 then s
  else
    { s with
      callbacks := if onRetry then s.callbacks ++ [(attempt, config.maxRetries, delay)]
        else s.callbacks
      stats := { s.stats with totalDelay := s.stats.totalDelay + delay } }

/-- The body of the loop: the function's result, if it returns here. -/
def turn (s : Progress) (attempt : UInt32) : Option (Except Error α) × Progress :=
  let s := { s with stats := { s.stats with attempts := attempt + 1 } }
  let s := wait config backoff onRetry s attempt
  let outcome := outcomes s.invocations
  let s := { s with invocations := s.invocations + 1 }
  match outcome with
  | .ok result => (some (.ok result), { s with stats := { s.stats with succeeded := true } })
  | .error e =>
    let isLast := decide (config.maxRetries ≤ attempt)
    let shouldRetry := !isLast && isRetryable e
    if shouldRetry then (none, { s with lastError := some e })
    else if isLast then (none, { s with lastError := some e })
    else (some (.error e), s)

def loop : List UInt32 → Progress → Exit α × Progress
  | [], s =>
    match s.lastError with
    | some e => (.lastError e, s)
    | none => (.exhausted, s)
  | attempt :: rest, s =>
    match turn config backoff onRetry outcomes s attempt with
    | (some result, s') => (.returned result, s')
    | (none, s') => loop rest s'

/-- The attempts from one on, up to the last allowed one. -/
def attemptsFrom (attempt : Nat) : List UInt32 :=
  (List.range' attempt (config.maxRetries.toNat + 1 - attempt)).map UInt32.ofNat

/-- The operation's outcomes are given in the order in which it is invoked. -/
def withRetryStats : Exit α × Progress :=
  loop config backoff onRetry outcomes (attemptsFrom config 0) .start

def withRetry : Except Error α :=
  (withRetryStats config backoff false outcomes).1.result

/-- The loop has no use for another attempt after this one. -/
def Stops (n : Nat) : Prop :=
  match outcomes n with
  | .ok _ => True
  | .error e => isRetryable e = false ∨ n = config.maxRetries.toNat

instance (n : Nat) : Decidable (Stops config outcomes n) :=
  match h : outcomes n with
  | .ok _ => .isTrue (by simp [Stops, h])
  | .error e => decidable_of_iff (isRetryable e = false ∨ n = config.maxRetries.toNat)
      (by simp [Stops, h])

theorem stops_at_last : Stops config outcomes config.maxRetries.toNat := by
  unfold Stops
  split
  · trivial
  · exact .inr rfl

/-- The least attempt after which the loop stops. -/
def stopIndex : Nat := Nat.find ⟨_, stops_at_last config outcomes⟩

end

section
variable {α : Type} (config : RetryConfig) (backoff : UInt32 → Nat) (onRetry : Bool)
  {outcomes : Nat → Except Error α}

theorem stopIndex_stops : Stops config outcomes (stopIndex config outcomes) := Nat.find_spec _

theorem stopIndex_le : stopIndex config outcomes ≤ config.maxRetries.toNat :=
  Nat.find_min' _ (stops_at_last config outcomes)

variable {config} in
theorem goes_on_before {m : Nat} (h : m < stopIndex config outcomes) :
    ∃ e, outcomes m = .error e ∧ isRetryable e = true := by
  have hm := Nat.find_min _ h
  unfold Stops at hm
  split at hm
  · exact absurd trivial hm
  · rename_i e he
    exact ⟨e, he, by simpa using fun hr => hm (.inl hr)⟩

@[simp] theorem wait_invocations (s : Progress) (attempt : UInt32) :
    (wait config backoff onRetry s attempt).invocations = s.invocations := by
  by_cases h : delayForAttempt backoff attempt = 0 <;> simp [wait, h]

@[simp] theorem wait_attempts (s : Progress) (attempt : UInt32) :
    (wait config backoff onRetry s attempt).stats.attempts = s.stats.attempts := by
  by_cases h : delayForAttempt backoff attempt = 0 <;> simp [wait, h]

@[simp] theorem wait_succeeded (s : Progress) (attempt : UInt32) :
    (wait config backoff onRetry s attempt).stats.succeeded = s.stats.succeeded := by
  by_cases h : delayForAttempt backoff attempt = 0 <;> simp [wait, h]

theorem attemptsFrom_cons {k : Nat} (h : k ≤ config.maxRetries.toNat) :
    attemptsFrom config k = UInt32.ofNat k :: attemptsFrom config (k + 1) := by
  have hlen : config.maxRetries.toNat + 1 - k = config.maxRetries.toNat + 1 - (k + 1) + 1 := by
    omega
  rw [attemptsFrom, hlen, List.range'_succ, List.map_cons, attemptsFrom]

theorem attemptsFrom_past : attemptsFrom config (config.maxRetries.toNat + 1) = [] := by
  simp [attemptsFrom]

/-- What has been counted after so many invocations. -/
structure Counts (s : Progress) (k : Nat) (succeeded : Bool) : Prop where
  invocations : s.invocations = k
  attempts : s.stats.attempts.toNat = k
  succeeded : s.stats.succeeded = succeeded

theorem toNat_ofNat {k : Nat} (hk : k + 1 < 2 ^ 32) : (UInt32.ofNat k).toNat = k := by
  apply UInt32.toNat_ofNat_of_lt'
  have hsize : UInt32.size = 2 ^ 32 := rfl
  omega

theorem toNat_succ {k : Nat} (hk : k + 1 < 2 ^ 32) : (UInt32.ofNat k + 1).toNat = k + 1 := by
  rw [UInt32.toNat_add, toNat_ofNat hk]
  exact Nat.mod_eq_of_lt hk

theorem turn_ok {s : Progress} {k : Nat} {a : α} (hk : k + 1 < 2 ^ 32) (hs : Counts s k false)
    (h : outcomes k = .ok a) :
    ∃ s', turn config backoff onRetry outcomes s (.ofNat k) = (some (.ok a), s') ∧
      Counts s' (k + 1) true := by
  simp only [turn, wait_invocations, hs.invocations, h]
  refine ⟨_, rfl, rfl, ?_, rfl⟩
  simpa only [wait_attempts] using toNat_succ hk

/-- An error that is retried, or that of the last attempt, is carried on. -/
theorem turn_again {s : Progress} {k : Nat} {e : Error} (hk : k + 1 < 2 ^ 32)
    (hs : Counts s k false) (h : outcomes k = .error e)
    (again : k = config.maxRetries.toNat ∨ k < config.maxRetries.toNat ∧ isRetryable e = true) :
    ∃ s', turn config backoff onRetry outcomes s (.ofNat k) = (none, s') ∧
      Counts s' (k + 1) false ∧ s'.lastError = some e := by
  have hlast : config.maxRetries ≤ .ofNat k ↔ config.maxRetries.toNat ≤ k := by
    rw [UInt32.le_iff_toNat_le, toNat_ofNat hk]
  simp only [turn, wait_invocations, hs.invocations, h, hlast]
  rcases again with rfl | ⟨hm, hr⟩
  · simp only [le_refl, decide_true, Bool.not_true, Bool.false_and, Bool.false_eq_true, if_false,
      if_true]
    refine ⟨_, rfl, ⟨rfl, ?_, ?_⟩, rfl⟩
    · simpa only [wait_attempts] using toNat_succ hk
    · simpa only [wait_succeeded] using hs.succeeded
  · simp only [Nat.not_le.mpr hm, decide_false, Bool.not_false, hr, Bool.and_self, if_true]
    refine ⟨_, rfl, ⟨rfl, ?_, ?_⟩, rfl⟩
    · simpa only [wait_attempts] using toNat_succ hk
    · simpa only [wait_succeeded] using hs.succeeded

theorem turn_gives_up {s : Progress} {k : Nat} {e : Error} (hk : k + 1 < 2 ^ 32)
    (hs : Counts s k false) (h : outcomes k = .error e) (before : k < config.maxRetries.toNat)
    (permanent : isRetryable e = false) :
    ∃ s', turn config backoff onRetry outcomes s (.ofNat k) = (some (.error e), s') ∧
      Counts s' (k + 1) false := by
  have hlast : ¬ config.maxRetries ≤ .ofNat k := by
    rw [UInt32.le_iff_toNat_le, toNat_ofNat hk]
    omega
  simp only [turn, wait_invocations, hs.invocations, h, hlast, permanent, Bool.and_false,
    decide_false, Bool.false_eq_true, if_false]
  refine ⟨_, rfl, rfl, ?_, ?_⟩
  · simpa only [wait_attempts] using toNat_succ hk
  · simpa only [wait_succeeded] using hs.succeeded

/-- From an attempt that is not behind the last one needed, the loop goes on to that one. -/
theorem loop_stops (hmax : config.maxRetries.toNat + 1 < 2 ^ 32) {k : Nat}
    (hk : k ≤ stopIndex config outcomes) {s : Progress} (hs : Counts s k false) :
    ∃ exit s', loop config backoff onRetry outcomes (attemptsFrom config k) s = (exit, s') ∧
      exit.result = outcomes (stopIndex config outcomes) ∧ exit ≠ .exhausted ∧
      Counts s' (stopIndex config outcomes + 1) (outcomes (stopIndex config outcomes)).isOk := by
  have hle : stopIndex config outcomes ≤ config.maxRetries.toNat := stopIndex_le config
  induction hd : stopIndex config outcomes - k generalizing k s with
  | zero =>
    obtain rfl : k = stopIndex config outcomes := by omega
    rw [attemptsFrom_cons config (by omega), loop]
    cases ho : outcomes (stopIndex config outcomes) with
    | ok a =>
      obtain ⟨s', hturn, counts⟩ :=
        turn_ok config backoff onRetry (by omega) hs ho
      rw [hturn]
      exact ⟨_, s', rfl, rfl, by simp, counts⟩
    | error e =>
      by_cases hlast : stopIndex config outcomes = config.maxRetries.toNat
      · obtain ⟨s', hturn, counts, hl⟩ := turn_again config backoff onRetry (by omega) hs ho
          (.inl hlast)
        rw [hturn, hlast, attemptsFrom_past]
        simp only [loop, hl]
        exact ⟨_, s', rfl, rfl, by simp, hlast ▸ counts⟩
      · have permanent : isRetryable e = false := by
          have hstops : Stops config outcomes (stopIndex config outcomes) := stopIndex_stops config
          simp only [Stops, ho] at hstops
          exact hstops.resolve_right hlast
        obtain ⟨s', hturn, counts⟩ := turn_gives_up config backoff onRetry (by omega) hs ho
          (by omega) permanent
        rw [hturn]
        exact ⟨_, s', rfl, rfl, by simp, counts⟩
  | succ d ih =>
    have before : k < stopIndex config outcomes := by omega
    obtain ⟨e, ho, hr⟩ := goes_on_before before
    obtain ⟨s', hturn, counts, _⟩ := turn_again config backoff onRetry (by omega) hs ho
      (.inr ⟨by omega, hr⟩)
    rw [attemptsFrom_cons config (by omega), loop, hturn]
    exact ih (by omega) counts (by omega)

/-- The operation is invoked up to the first attempt that succeeds, fails for good or is the
last allowed one, and what that attempt returned is returned. -/
theorem stops_at_first (config : RetryConfig) (backoff : UInt32 → Nat) (onRetry : Bool)
    (outcomes : Nat → Except Error α) (hmax : config.maxRetries.toNat < 2 ^ 32 - 1) :
    let run := withRetryStats config backoff onRetry outcomes
    let n := stopIndex config outcomes
    run.2.invocations = n + 1 ∧ run.1.result = outcomes n ∧ run.2.stats.attempts.toNat = n + 1 ∧
      (run.2.stats.succeeded = true ↔ ∃ a, outcomes n = .ok a) ∧ run.1 ≠ .exhausted := by
  have start : Counts .start 0 false := ⟨rfl, rfl, rfl⟩
  obtain ⟨exit, s', hrun, hresult, hown, counts⟩ := loop_stops config backoff onRetry (by omega)
    (Nat.zero_le (stopIndex config outcomes)) start
  simp only [withRetryStats, hrun]
  refine ⟨counts.invocations, hresult, counts.attempts, ?_, hown⟩
  rw [counts.succeeded]
  cases outcomes (stopIndex config outcomes) <;> simp [Except.isOk, Except.toBool]

theorem stops_at_first_try : (RetryConfig.default).maxRetries.toNat < 2 ^ 32 - 1 ∧
    (withRetryStats .default (fun _ => 500) true fun _ => (.ok 7 : Except Error Nat)).2.invocations =
      stopIndex .default (fun _ => (.ok 7 : Except Error Nat)) + 1 :=
  ⟨by decide, (stops_at_first .default (fun _ => 500) true _ (by decide)).1⟩

theorem retryFrom_stops {left attempt : Nat} (hle : attempt ≤ stopIndex config outcomes)
    (hleft : attempt + left = config.maxRetries.toNat) :
    retryFrom outcomes left attempt = (outcomes (stopIndex config outcomes),
      ⟨stopIndex config outcomes + 1, (outcomes (stopIndex config outcomes)).isOk⟩) := by
  have hmax : stopIndex config outcomes ≤ config.maxRetries.toNat := stopIndex_le config
  have hstops : Stops config outcomes (stopIndex config outcomes) := stopIndex_stops config
  induction left generalizing attempt with
  | zero =>
    obtain rfl : attempt = stopIndex config outcomes := by omega
    unfold retryFrom
    cases ho : outcomes (stopIndex config outcomes) <;> rfl
  | succ left ih =>
    unfold retryFrom
    by_cases hlast : attempt = stopIndex config outcomes
    · subst hlast
      cases ho : outcomes (stopIndex config outcomes) with
      | ok a => rfl
      | error e =>
        simp only [Stops, ho] at hstops
        have permanent : isRetryable e = false := hstops.resolve_right (by omega)
        simp only [permanent, Bool.false_eq_true, if_false]
        rfl
    · obtain ⟨e, ho, hr⟩ := goes_on_before (show attempt < stopIndex config outcomes by omega)
      simp only [ho, hr, if_true]
      exact ih (by omega) (by omega)

/-- The recursion on the attempts left is this loop. -/
theorem withRetry_eq (hmax : config.maxRetries.toNat < 2 ^ 32 - 1) :
    Transfer.withRetry config outcomes = withRetry config backoff outcomes := by
  have hloop := (stops_at_first config backoff false outcomes hmax).2.1
  rw [withRetry, hloop, Transfer.withRetry, Transfer.withRetryStats,
    retryFrom_stops config (Nat.zero_le _) (Nat.zero_add _)]

theorem withRetry_stops :
    Transfer.withRetry config outcomes = outcomes (stopIndex config outcomes) := by
  rw [Transfer.withRetry, Transfer.withRetryStats,
    retryFrom_stops config (Nat.zero_le _) (Nat.zero_add _)]

end
end IrohNix.Transfer.RetryLoop
