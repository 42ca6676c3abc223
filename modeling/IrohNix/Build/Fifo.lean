import IrohNix.Build.Conservation
import Mathlib.Logic.Relation

namespace IrohNix.Build
open IrohNix.Lib

/-- Jobs in the order of their identifiers. -/
def InOrder (jobs : List BuildJob) : Prop := jobs.Pairwise fun a b => a.id.val ≤ b.id.val

/-- A successful pull returns, of the pending jobs that are offered all they require, the one
with the smallest identifier. -/
def FirstFirst (q : BuildQueue) : Prop :=
  ∀ builder features now job, (q.pull builder features now).2 = some job →
    ∀ k ∈ q.pending, k.offeredBy features = true → job.id.val ≤ k.id.val

/-- The expired leases are all of jobs submitted before any that is pending, and are visited
from the largest identifier to the smallest. -/
def ReclaimsInOrder (_ : List QueueEvent) (q : BuildQueue) : QueueEvent → Prop
  | .checkTimeouts now visited =>
    (∀ j lease, q.leased.get? j = some lease → jobLeaseTimeout < now - lease.lastHeartbeat →
      ∀ job ∈ q.pending, j.val ≤ job.id.val) ∧
      visited.Pairwise fun a b => b.val ≤ a.val
  | _ => True

/-- Identifiers are given out in the order of submission. -/
theorem Accounts.submitted {l : Ledger} {q : BuildQueue} (a : Accounts l q)
    (fits : l.jobs.length < 2 ^ 64) : l.jobs.Pairwise fun a b => a.id.val < b.id.val := by
  have ids : (l.jobs.map fun job => job.id.val).Pairwise (· < ·) := by
    rw [a.ids, List.pairwise_map]
    refine List.pairwise_lt_range.imp_of_mem fun {i k} hi hk hlt => ?_
    have hi := List.mem_range.mp hi
    have hk := List.mem_range.mp hk
    rw [UInt64.lt_iff_toNat_lt, UInt64.toNat_ofNat', UInt64.toNat_ofNat']
    omega
  exact List.pairwise_map.mp ids

theorem InOrder.first {q : BuildQueue} (inOrder : InOrder q.pending) : FirstFirst q := by
  intro builder features now job hjob k hk offered
  rcases q.pull_cases builder features now with ⟨_, hq⟩ | ⟨before, first, after, hp, passed, _, hq⟩
  · rw [hq] at hjob
    cases hjob
  · rw [hq] at hjob
    cases hjob
    rw [hp] at hk inOrder
    rcases List.mem_append.mp hk with hk | hk
    · rw [passed k hk] at offered
      cases offered
    · rcases List.mem_cons.mp hk with rfl | hk
      · exact UInt64.le_refl _
      · exact (List.pairwise_cons.mp (List.pairwise_append.mp inOrder).2.1).1 k hk

/-- One queue is what a pull leaves of the other. -/
def PulledFrom (q q' : BuildQueue) : Prop :=
  ∃ builder features now, q' = (q.pull builder features now).1

theorem InOrder.pull {q q' : BuildQueue} (inOrder : InOrder q.pending) (pulled : PulledFrom q q') :
    InOrder q'.pending := by
  obtain ⟨builder, features, now, rfl⟩ := pulled
  rcases q.pull_cases builder features now with ⟨_, hq⟩ | ⟨before, job, after, hp, _, _, hq⟩
  · rw [hq]
    exact inOrder
  · rw [hq]
    rw [hp] at inOrder
    exact inOrder.sublist ((List.sublist_cons_self job after).append_left before)

/-- A builder that offers everything empties the queue from the front, so that jobs out of
order are pulled out of order. -/
theorem in_order_iff_pulls (q : BuildQueue) :
    InOrder q.pending ↔ ∀ q', Relation.ReflTransGen PulledFrom q q' → FirstFirst q' := by
  constructor
  · intro inOrder q' pulls
    have kept : InOrder q'.pending := by
      induction pulls with
      | refl => exact inOrder
      | tail _ last ih => exact ih.pull last
    exact kept.first
  · intro first
    generalize hp : q.pending = jobs
    induction jobs generalizing q with
    | nil => exact .nil
    | cons job jobs ih =>
      let features := q.pending.flatMap BuildJob.systemFeatures
      have offered : ∀ k ∈ q.pending, k.offeredBy features = true := by
        intro k hk
        simp only [BuildJob.offeredBy, List.all_eq_true, List.contains_iff_mem]
        exact fun f hf => List.mem_flatMap.mpr ⟨k, hk, hf⟩
      have pull := @BuildQueue.pull_first q [] _ _ features hp (by simp)
        (offered job (by simp [hp])) ⟨zeroBytes32⟩ 0
      have least := first q .refl ⟨zeroBytes32⟩ features 0 job (by rw [pull])
      refine List.pairwise_cons.mpr ⟨fun k hk => ?_, ?_⟩
      · have there : k ∈ q.pending := hp ▸ List.mem_cons_of_mem _ hk
        exact least k there (offered k there)
      · refine ih _ (fun q' pulls => first q' (.head ⟨⟨zeroBytes32⟩, features, 0, rfl⟩ pulls)) ?_
        rw [pull]
        rfl

theorem in_order_checkTimeouts {l : Ledger} {q : BuildQueue} (a : Accounts l q)
    (inOrder : InOrder q.pending) (h : List QueueEvent) (order : q.leased.Iter) (now : Instant) :
    InOrder (q.checkTimeouts order now).1.pending ↔
      ReclaimsInOrder h q (.checkTimeouts now (q.checkTimeouts order now).2) := by
  have ids : (q.expired order now).map (·.2.job.id) = (q.expired order now).map Prod.fst := by
    refine List.map_congr_left fun e he => ?_
    exact (a.leased e.1 e.2 (BuildQueue.mem_expired.mp he).1).2
  rw [BuildQueue.checkTimeouts_eq, ReclaimsInOrder, ← ids, InOrder, List.pairwise_append,
    List.pairwise_reverse, List.pairwise_map, List.pairwise_map]
  simp only [List.mem_reverse, List.forall_mem_map]
  constructor
  · intro h
    obtain ⟨visited, _, front⟩ := h
    refine ⟨fun j lease held silent job hjob => ?_, visited⟩
    rw [← (a.leased j lease held).2]
    exact front (j, lease) (BuildQueue.mem_expired.mpr ⟨held, silent⟩) job hjob
  · intro h
    obtain ⟨front, visited⟩ := h
    refine ⟨visited, inOrder, fun e he job hjob => ?_⟩
    obtain ⟨held, silent⟩ := BuildQueue.mem_expired.mp he
    rw [(a.leased e.1 e.2 held).2]
    exact front e.1 e.2 held silent job hjob

/-- Every call keeps the order, a call of `check_timeouts` if it reclaims in order. -/
theorem in_order_step {hashers : Hashers} {h : List QueueEvent} {q q' : BuildQueue}
    {e : QueueEvent} (a : Accounts (ledger hashers h) q) (inOrder : InOrder q.pending)
    (step : QueueStep hashers q e q') (fits : (ledger hashers (h ++ [e])).jobs.length < 2 ^ 64) :
    InOrder q'.pending ↔ ReclaimsInOrder h q e := by
  cases step with
  | push drvPath systemFeatures outputs inputPaths timestamp =>
    refine iff_of_true (List.pairwise_append.mpr ⟨inOrder, List.pairwise_singleton _ _, ?_⟩) trivial
    intro job hj new hnew
    rw [ledger_snoc] at fits
    simp only [Ledger.record, QueueEvent.pushed, Option.toList_some, List.length_append,
      List.length_singleton] at fits
    rw [List.mem_singleton.mp hnew]
    exact UInt64.le_of_lt (a.below fits job (a.pending job hj))
  | pull builder features now =>
    exact iff_of_true (inOrder.pull ⟨builder, features, now, rfl⟩) trivial
  | heartbeat jobId builder status now =>
    refine iff_of_true ?_ trivial
    rcases q.heartbeat_cases jobId builder status now with ⟨hq, _⟩ | ⟨_, _, _, hq⟩ <;>
      exact hq ▸ inOrder
  | complete jobId builder result =>
    refine iff_of_true ?_ trivial
    rcases q.complete_cases jobId builder result with ⟨hq, _⟩ | ⟨_, _, _, hq⟩ <;>
      exact hq ▸ inOrder
  | fail jobId builder error =>
    refine iff_of_true ?_ trivial
    rcases q.fail_cases jobId builder error with ⟨hq, _⟩ | ⟨_, _, _, hq⟩ <;> exact hq ▸ inOrder
  | checkTimeouts order now => exact in_order_checkTimeouts a inOrder h order now
  | takePendingFetches => exact iff_of_true inOrder trivial
  | broadcastLog => exact iff_of_true inOrder trivial

/-- While every call of `check_timeouts` reclaims in order, a pull returns the job that was
submitted first of those it can return; and the first call that does not leads, over pulls
alone, to one that does not. -/
theorem first_first_while_in_order (hashers : Hashers) (ourId : EndpointId) (h : List QueueEvent)
    (q : BuildQueue) (run : RunWhile ReclaimsInOrder (QueueStep hashers) (.new ourId) h q)
    (fits : (ledger hashers h).jobs.length < 2 ^ 64) :
    (ledger hashers h).jobs.Pairwise (fun a b => a.id.val < b.id.val) ∧ FirstFirst q ∧
      ∀ e q', QueueStep hashers q e q' → (ledger hashers (h ++ [e])).jobs.length < 2 ^ 64 →
        ((∀ q'', Relation.ReflTransGen PulledFrom q' q'' → FirstFirst q'') ↔
          ReclaimsInOrder h q e) := by
  have inOrder : InOrder q.pending := by
    refine run.invariant
      (fun h q => (ledger hashers h).jobs.length < 2 ^ 64 → InOrder q.pending) ?_ ?_ fits
    · exact fun _ => List.Pairwise.nil
    · intro h s e t run inOrder reclaims step fits
      have before : (ledger hashers h).jobs.length < 2 ^ 64 := by
        rw [ledger_snoc, Ledger.record, List.length_append] at fits
        omega
      exact (in_order_step (accounts_run run) (inOrder before) step fits).mpr reclaims
  have accounts := accounts_run run.run
  refine ⟨accounts.submitted fits, inOrder.first, fun e q' step fits => ?_⟩
  rw [← in_order_iff_pulls]
  exact in_order_step accounts inOrder step fits

section TwoFeatures

theorem first_first_two_jobs : ∃ h q,
    RunWhile ReclaimsInOrder (QueueStep zeroHashers) (.new ⟨zeroBytes32⟩) h q ∧ h.length = 4 ∧
      q.pending.length = 2 ∧ FirstFirst q := by
  have start : RunWhile ReclaimsInOrder (QueueStep zeroHashers) (.new ⟨zeroBytes32⟩) [] _ := .nil
  have leased := ((start.snoc (.push _ "/nix/store/a.drv" ["kvm"] [] [] 0) trivial).snoc
    (.push _ "/nix/store/b.drv" ["big"] [] [] 0) trivial).snoc
    (.pull _ ⟨zeroBytes32⟩ ["kvm"] 0) trivial
  have run := leased.snoc (.checkTimeouts _ (HashMap.Iter.single _ _) (jobLeaseTimeout + 1))
    ⟨fun j lease held _ job hjob => by
      have hj : j = ⟨1⟩ := congrArg Prod.fst
        (List.mem_singleton.mp (((HashMap.Iter.single _ _).mem_iff j lease).mpr held))
      rw [List.mem_singleton.mp hjob, hj]
      decide, List.pairwise_singleton _ _⟩
  exact ⟨_, _, run, rfl, rfl, (first_first_while_in_order _ _ _ _ run (by decide)).2.1⟩

/-- The second job, leased past the first one and silent, comes back in front of it. -/
theorem second_job_first : ∃ h q, QueueRun zeroHashers ⟨zeroBytes32⟩ h q ∧
    (ledger zeroHashers h).jobs.length = 2 ∧ ¬ FirstFirst q := by
  have start : QueueRun zeroHashers ⟨zeroBytes32⟩ [] _ := .nil
  have run := ((start.snoc (.push _ "/nix/store/a.drv" ["kvm"] [] [] 0)).snoc
    (.push _ "/nix/store/b.drv" ["big"] [] [] 0)).snoc (.pull _ ⟨zeroBytes32⟩ ["big"] 0)
  have late := run.snoc (.checkTimeouts _ (HashMap.Iter.single _ _) (jobLeaseTimeout + 1))
  refine ⟨_, _, late, rfl, fun first => ?_⟩
  have wrong := first ⟨zeroBytes32⟩ ["kvm", "big"] 0 _ rfl _
    (List.mem_cons_of_mem _ List.mem_cons_self) rfl
  exact absurd wrong (by decide)

end TwoFeatures

end IrohNix.Build
