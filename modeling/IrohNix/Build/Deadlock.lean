import IrohNix.Lib.Locks

namespace IrohNix.Build
open IrohNix.Lib

/-- The mutexes of `BuildQueue`, one for each field. -/
inductive QueueLock where
  | nextJobId
  | pending
  | leased
  | completed
  | pendingFetch
  | neededFeatures
  | logSubscribers
deriving DecidableEq

/-- The methods of `BuildQueue` that lock, each by the branch it takes. -/
inductive QueueMethod where
  | push
  | pull (found : Bool)
  | heartbeat
  | complete (accepted : Bool)
  | fail (accepted : Bool)
  | checkTimeouts
  | hasPendingWork
  | neededFeatures
  | clearNeededFeatures
  | stats
  | getOutcome
  | listPending
  | listLeased
  | takePendingFetches
  | hasPendingFetches
  | subscribeLogs
  | broadcastLog
  | cleanupLogSubscribers
deriving DecidableEq

/-- A guard that lives while `inner` is done. -/
def guarded (lock : QueueLock) (inner : List (LockOp QueueLock)) : List (LockOp QueueLock) :=
  .acquire lock :: inner ++ [.release lock]

/-- Guards are dropped in the reverse of the order they were taken in: at the end of
their block, or, for the temporaries of `stats`, once its result is built. -/
def QueueMethod.script : QueueMethod → List (LockOp QueueLock)
  | .push => guarded .nextJobId [] ++ guarded .pending (guarded .neededFeatures [])
  | .pull false => guarded .pending []
  | .pull true => guarded .pending (guarded .leased [])
  | .heartbeat => guarded .leased []
  | .complete false => guarded .leased []
  | .complete true => guarded .leased (guarded .pendingFetch [] ++ guarded .completed [])
  | .fail false => guarded .leased []
  | .fail true => guarded .leased (guarded .completed [])
  | .checkTimeouts => guarded .leased (guarded .pending [])
  | .hasPendingWork => guarded .pending []
  | .neededFeatures => guarded .neededFeatures []
  | .clearNeededFeatures => guarded .neededFeatures []
  | .stats => guarded .pending (guarded .leased (guarded .completed []))
  | .getOutcome => guarded .completed []
  | .listPending => guarded .pending []
  | .listLeased => guarded .leased []
  | .takePendingFetches => guarded .pendingFetch []
  | .hasPendingFetches => guarded .pendingFetch []
  | .subscribeLogs => guarded .logSubscribers []
  | .broadcastLog => guarded .logSubscribers []
  | .cleanupLogSubscribers => guarded .logSubscribers []

/-- Under which lock which other one is ever acquired. `leased` and `pending` are
acquired under each other. -/
def under : QueueLock → QueueLock → Bool
  | .pending, .neededFeatures => true
  | .pending, .leased => true
  | .pending, .completed => true
  | .leased, .pendingFetch => true
  | .leased, .completed => true
  | .leased, .pending => true
  | _, _ => false

abbrev Under (held lock : QueueLock) : Prop := under held lock

theorem script_nested (m : QueueMethod) : Locks.Nested Under [] m.script := by
  cases m with
  | pull found => cases found <;> decide
  | complete accepted => cases accepted <;> decide
  | fail accepted => cases accepted <;> decide
  | _ => decide

variable {ι : Type}

/-- The calls of any number of threads, interleaved operation by operation. -/
abbrev QueueThreads (ι : Type) := Locks ι QueueLock

abbrev QueueThreads.Step [DecidableEq ι] := Locks.Step (ι := ι) QueueMethod.script

/-- The operations left to a thread start with these two acquisitions. -/
def TakesBoth (s : QueueThreads ι) (i : ι) (first second : QueueLock) : Prop :=
  ∃ rest, s.script i = .acquire first :: .acquire second :: rest

/-- The step takes `leased` for a `check_timeouts` while the holder of `pending` is
about to take `leased`, or takes `pending` for a `pull` or `stats` that will take
`leased` while a `check_timeouts` holds it and is about to take `pending`. -/
def Crosses (s : QueueThreads ι) : ThreadEvent ι QueueMethod → Prop
  | .call _ _ => False
  | .next i => ∃ j,
    (TakesBoth s i .leased .pending ∧ s.holder .pending = some j ∧ s.WaitsFor j .leased) ∨
    (TakesBoth s i .pending .leased ∧ s.holder .leased = some j ∧ s.WaitsFor j .pending)

/-- Two threads hold the two locks and wait for the other's. -/
def Crossed (s : QueueThreads ι) : Prop :=
  ∃ i j, s.holder .leased = some i ∧ s.WaitsFor i .pending ∧
    s.holder .pending = some j ∧ s.WaitsFor j .leased

theorem Crossed.deadlocked {s : QueueThreads ι} (h : Crossed s) :
    ∃ threads, s.Deadlocked threads := by
  obtain ⟨i, j, hi, wi, hj, wj⟩ := h
  have apart : i ≠ j := by
    intro same
    subst same
    cases wi.unique wj
  refine ⟨{i, j}, ⟨i, by simp⟩, ?_⟩
  intro k hk
  rcases hk with rfl | rfl
  · exact ⟨.pending, j, wi, hj, Ne.symm apart, by simp⟩
  · exact ⟨.leased, i, wj, hi, apart, by simp⟩

/-- The order in which locks are acquired under others, and the same with `leased`
before `pending`. -/
def rank (turned : Bool) : QueueLock → Nat
  | .pending => if turned then 1 else 0
  | .leased => if turned then 0 else 1
  | _ => 2

theorem rank_lt (turned : Bool) (lock : QueueLock) : rank turned lock < 3 := by
  cases turned <;> cases lock <;> decide

/-- The two acquisitions that go both ways are the only ones that may not climb. -/
theorem climbs {held lock : QueueLock} (h : under held lock) (turned : Bool)
    (other : turned = false → ¬ (held = .leased ∧ lock = .pending))
    (same : turned = true → ¬ (held = .pending ∧ lock = .leased)) :
    rank turned held < rank turned lock := by
  cases held <;> cases lock <;> cases h <;> cases turned <;> simp [rank] at other same ⊢

/-- Without such a pair every thread climbs: a `check_timeouts` in the middle turns the
order of the two locks around, for then nobody takes them the other way. -/
theorem not_deadlocked {s : QueueThreads ι}
    (orderly : s.Orderly Under QueueMethod.script)
    (uncrossed : ¬ Crossed s) (threads : Set ι) : ¬ s.Deadlocked threads := by
  by_cases turned : ∃ i, s.holder .leased = some i ∧ s.WaitsFor i .pending
  · obtain ⟨i, hi, wi⟩ := turned
    refine Locks.not_deadlocked (rank true) 3 (rank_lt true) ?_ threads
    intro j lock held wj hj
    refine climbs (orderly.holds_under wj hj) true (fun h => by cases h) ?_
    intro _ h
    obtain ⟨rfl, rfl⟩ := h
    exact uncrossed ⟨i, j, hi, wi, hj, wj⟩
  · refine Locks.not_deadlocked (rank false) 3 (rank_lt false) ?_ threads
    intro j lock held wj hj
    refine climbs (orderly.holds_under wj hj) false ?_ (fun h => by cases h)
    intro _ h
    obtain ⟨rfl, rfl⟩ := h
    exact turned ⟨j, hj, wj⟩

/-- What comes right before the two locks: only `check_timeouts` takes `pending` from
under another lock, and nobody but the holder of `pending` otherwise takes `leased`. -/
theorem script_before {m : QueueMethod} {first second : LockOp QueueLock}
    {rest : List (LockOp QueueLock)} (h : first :: second :: rest <:+ m.script) :
    (second = .acquire .pending → first = .acquire .leased ∨
      ∃ rest', first = .release .nextJobId ∧ rest = .acquire .neededFeatures :: rest') ∧
    (second = .acquire .leased → first = .acquire .pending) := by
  cases m with
  | pull found =>
    cases found <;> simp [QueueMethod.script, guarded, List.suffix_cons_iff] at h <;> grind
  | complete accepted =>
    cases accepted <;> simp [QueueMethod.script, guarded, List.suffix_cons_iff] at h <;> grind
  | fail accepted =>
    cases accepted <;> simp [QueueMethod.script, guarded, List.suffix_cons_iff] at h <;> grind
  | _ =>
    simp [QueueMethod.script, guarded, List.suffix_cons_iff] at h
    grind

/-- Whoever comes to hold `leased` and wait for `pending` took the first for the second. -/
theorem takes_leased [DecidableEq ι] {s t : QueueThreads ι} {i : ι}
    (orderly : s.Orderly Under QueueMethod.script) (orderly' : t.Orderly Under QueueMethod.script)
    (step : s.advance i = some t) (holds : t.holder .leased = some i)
    (waits : t.WaitsFor i .pending) : TakesBoth s i .leased .pending := by
  obtain ⟨op, rest, hop, hrest⟩ := Locks.advance_waits step waits
  obtain ⟨m, within⟩ := orderly.within_call hop
  rcases (script_before within).1 rfl with rfl | ⟨rest', _, rfl⟩
  · exact ⟨rest, hop⟩
  · -- a `push`, and what it acquires next is never acquired under `leased`
    obtain ⟨held, _, hmem, nested⟩ := orderly'.nested i
    rw [hrest] at nested
    have : Under .leased .neededFeatures :=
      nested.2.1 .leased (List.mem_cons_of_mem _ ((hmem _).mpr holds))
    contradiction

theorem takes_pending [DecidableEq ι] {s t : QueueThreads ι} {i : ι}
    (orderly : s.Orderly Under QueueMethod.script) (step : s.advance i = some t)
    (waits : t.WaitsFor i .leased) : TakesBoth s i .pending .leased := by
  obtain ⟨op, rest, hop, _⟩ := Locks.advance_waits step waits
  obtain ⟨m, within⟩ := orderly.within_call hop
  cases (script_before within).2 rfl
  exact ⟨rest, hop⟩

/-- Only a step that crosses brings two threads into that position. -/
theorem crosses_of_crossed [DecidableEq ι] {s t : QueueThreads ι} {e : ThreadEvent ι QueueMethod}
    (orderly : s.Orderly Under QueueMethod.script) (step : QueueThreads.Step s e t)
    (before : ¬ Crossed s) (after : Crossed t) : Crosses s e := by
  have orderly' := orderly.step script_nested step
  obtain ⟨i, j, hi, wi, hj, wj⟩ := after
  have apart : i ≠ j := by
    intro same
    subst same
    cases wi.unique wj
  cases e with
  | call k m =>
    obtain ⟨done, rfl⟩ := Locks.begin_cases step
    have idle (l : ι) (lock : QueueLock) (h : s.holder lock = some l) : l ≠ k := by
      intro same
      subst same
      exact orderly.free_when_idle done lock h
    have waits (l : ι) (lock held : QueueLock) (h : s.holder held = some l)
        (hw : Locks.WaitsFor ⟨Function.update s.script k m.script, s.holder⟩ l lock) :
        s.WaitsFor l lock := by
      simpa [Locks.WaitsFor, idle l held h] using hw
    exact (before ⟨i, j, hi, waits i _ _ hi wi, hj, waits j _ _ hj wj⟩).elim
  | next k =>
    have other (l : ι) (hl : l ≠ k) := Locks.advance_other step hl
    by_cases hki : i = k
    · subst hki
      have takes := takes_leased orderly orderly' step hi wi
      exact ⟨j, .inl ⟨takes, (other j (Ne.symm apart)).1 _ hj, (other j (Ne.symm apart)).2 _ wj⟩⟩
    · by_cases hkj : j = k
      · subst hkj
        have takes := takes_pending orderly step wj
        exact ⟨i, .inr ⟨takes, (other i apart).1 _ hi, (other i apart).2 _ wi⟩⟩
      · exact (before ⟨i, j, (other i hki).1 _ hi, (other i hki).2 _ wi, (other j hkj).1 _ hj,
          (other j hkj).2 _ wj⟩).elim

/-- A thread that takes two locks in turn holds neither. -/
theorem takes_unheld {s : QueueThreads ι} {i j : ι} {first second : QueueLock}
    (orderly : s.Orderly Under QueueMethod.script)
    (takes : TakesBoth s i first second) (holds : s.holder second = some j)
    (single : under second second = false) : j ≠ i := by
  intro same
  subst same
  obtain ⟨rest, hop⟩ := takes
  obtain ⟨held, _, hmem, nested⟩ := orderly.nested j
  rw [hop] at nested
  have twice : under second second := nested.2.1 second (List.mem_cons_of_mem _ ((hmem _).mpr holds))
  rw [single] at twice
  contradiction

theorem advance_takes [DecidableEq ι] {s t : QueueThreads ι} {i j : ι} {first second : QueueLock}
    (takes : TakesBoth s i first second) (step : s.advance i = some t) (other : j ≠ i)
    (apart : second ≠ first) :
    t.holder first = some i ∧ t.WaitsFor i second ∧ t.holder second = s.holder second ∧
      ∀ lock, s.WaitsFor j lock → t.WaitsFor j lock := by
  obtain ⟨rest, hop⟩ := takes
  rcases Locks.advance_cases step with ⟨lock, rest', hop', _, rfl⟩ | ⟨lock, rest', hop', _⟩
  · rw [hop] at hop'
    cases hop'
    refine ⟨by simp, ⟨rest, by simp⟩, by simp [apart], fun lock h => ?_⟩
    simpa [Locks.WaitsFor, other] using h
  · rw [hop] at hop'
    cases hop'

/-- And such a step does so at once. -/
theorem crossed_of_crosses [DecidableEq ι] {s t : QueueThreads ι} {e : ThreadEvent ι QueueMethod}
    (orderly : s.Orderly Under QueueMethod.script)
    (step : QueueThreads.Step s e t) (crosses : Crosses s e) : Crossed t := by
  cases e with
  | call => exact crosses.elim
  | next i =>
    obtain ⟨j, ⟨takes, hj, wj⟩ | ⟨takes, hj, wj⟩⟩ := crosses
    · have other := takes_unheld orderly takes hj rfl
      obtain ⟨hi, wi, same, waits⟩ := advance_takes takes step other (by simp)
      exact ⟨i, j, hi, wi, same.trans hj, waits _ wj⟩
    · have other := takes_unheld orderly takes hj rfl
      obtain ⟨hi, wi, same, waits⟩ := advance_takes takes step other (by simp)
      exact ⟨j, i, same.trans hj, waits _ wj, hi, wi⟩

theorem step_functional [DecidableEq ι] (s : QueueThreads ι) (e : ThreadEvent ι QueueMethod)
    (t t' : QueueThreads ι) (h : QueueThreads.Step s e t) (h' : QueueThreads.Step s e t') : t = t' :=
  Option.some.inj (h.symm.trans h')

theorem uncrossed_of_run [DecidableEq ι] {h : List (ThreadEvent ι QueueMethod)} {s : QueueThreads ι}
    (run : RunWhile (fun _ s e => ¬ Crosses s e) QueueThreads.Step Locks.idle h s) : ¬ Crossed s := by
  refine run.invariant (fun _ s => ¬ Crossed s) ?_ ?_
  · intro crossed
    obtain ⟨i, j, hi, _⟩ := crossed
    cases hi
  · intro _ s e t run before meets last crossed
    exact meets (crosses_of_crossed (.run script_nested run) last before crossed)

/-- The runs in which no threads ever lock each other out are those in which no step
crosses. -/
theorem deadlock_free_iff [DecidableEq ι] (h : List (ThreadEvent ι QueueMethod))
    (s : QueueThreads ι) :
    RunWhile (fun _ s e => ¬ Crosses s e) QueueThreads.Step Locks.idle h s ↔
      Run QueueThreads.Step Locks.idle h s ∧ ∀ h' t, h' <+: h →
        Run QueueThreads.Step Locks.idle h' t → ∀ threads, ¬ t.Deadlocked threads := by
  constructor
  · intro conforming
    refine ⟨conforming.run, fun h' t part run' => ?_⟩
    obtain ⟨t', conforming'⟩ := conforming.of_prefix part
    cases run'.unique step_functional conforming'.run
    exact not_deadlocked (.run script_nested run') (uncrossed_of_run conforming')
  · intro h
    obtain ⟨run, free⟩ := h
    induction run with
    | nil => exact .nil
    | @snoc h s t e run last ih =>
      have earlier := ih fun h' t part => free h' t (part.trans (List.prefix_append h [e]))
      refine earlier.snoc last fun crosses => ?_
      have crossed := crossed_of_crosses (.run script_nested run) last crosses
      obtain ⟨threads, dead⟩ := crossed.deadlocked
      exact free _ t (List.prefix_refl _) (run.snoc last) threads dead

/-- A thread inside a method that locks `pending` first, another inside `check_timeouts`,
and both have their first lock. -/
def lockout (m : QueueMethod) : List (ThreadEvent (Fin 2) QueueMethod) :=
  [.call 0 m, .call 1 .checkTimeouts, .next 0, .next 1]

/-- The queue locks up when leases are checked while a builder pulls or the counts are read. -/
theorem queue_locks_up :
    (∃ s, Run QueueThreads.Step Locks.idle (lockout (.pull true)) s ∧
      ∃ threads, s.Deadlocked threads) ∧
    (∃ s, Run QueueThreads.Step Locks.idle (lockout .stats) s ∧
      ∃ threads, s.Deadlocked threads) := by
  constructor
  · exact ⟨_, Run.of_foldlM _ rfl, Crossed.deadlocked ⟨1, 0, rfl, ⟨_, rfl⟩, rfl, ⟨_, rfl⟩⟩⟩
  · exact ⟨_, Run.of_foldlM _ rfl, Crossed.deadlocked ⟨1, 0, rfl, ⟨_, rfl⟩, rfl, ⟨_, rfl⟩⟩⟩

end IrohNix.Build
