import Mathlib.Data.List.Basic
import Mathlib.Data.Fintype.Card
import Mathlib.Logic.Relation

namespace IrohNix.Lib

variable {α : Type} {nodes : Set α} {needs : α → α → Prop} {order : List α}

/-- What a node in the list needs of the nodes stands before it. -/
def DependenciesFirst (nodes : Set α) (needs : α → α → Prop) (order : List α) : Prop :=
  ∀ before d after, order = before ++ d :: after → ∀ e ∈ nodes, needs d e → e ∈ before

/-- Every node that is left out needs another one that is. -/
def NoneReady (nodes : Set α) (needs : α → α → Prop) (order : List α) : Prop :=
  ∀ d ∈ nodes, d ∉ order → ∃ e ∈ nodes, needs d e ∧ e ∉ order

/-- One node needs another one. -/
def Within (nodes : Set α) (needs : α → α → Prop) (a b : α) : Prop :=
  a ∈ nodes ∧ b ∈ nodes ∧ needs a b

/-- No node needs itself, through however many others. -/
def Acyclic (nodes : Set α) (needs : α → α → Prop) : Prop :=
  ∀ d, ¬ Relation.TransGen (Within nodes needs) d d

theorem dependenciesFirst_nil : DependenciesFirst nodes needs [] := by
  intro before d after h
  simp at h

/-- A node is listed when all it needs is. -/
theorem DependenciesFirst.snoc (first : DependenciesFirst nodes needs order) {node : α}
    (ready : ∀ e ∈ nodes, needs node e → e ∈ order) :
    DependenciesFirst nodes needs (order ++ [node]) := by
  intro before d after h e he hneeds
  cases after using List.reverseRecOn with
  | nil =>
    obtain ⟨rfl, hd⟩ := List.append_inj' h rfl
    cases hd
    exact ready e he hneeds
  | append_singleton after last =>
    rw [← List.cons_append, ← List.append_assoc] at h
    exact first before d after (List.append_inj' h rfl).1 e he hneeds

/-- No node stands before one that it needs. -/
theorem DependenciesFirst.pairwise (first : DependenciesFirst nodes needs order)
    (nodup : order.Nodup) (inside : ∀ d ∈ order, d ∈ nodes) :
    order.Pairwise fun d e => ¬ needs d e := by
  have tails : ∀ before after, order = before ++ after →
      after.Pairwise fun d e => ¬ needs d e := by
    intro before after
    induction after generalizing before with
    | nil => exact fun _ => .nil
    | cons d after ih =>
      intro h
      refine List.pairwise_cons.mpr ⟨?_, ih (before ++ [d]) (by simp [h])⟩
      intro e he hneeds
      have hbefore := first before d after h e (inside e (by simp [h, he])) hneeds
      rw [h] at nodup
      exact (List.nodup_append.mp nodup).2.2 e hbefore e (List.mem_cons_of_mem _ he) rfl
  exact tails [] order rfl

theorem DependenciesFirst.not_self (first : DependenciesFirst nodes needs order)
    (nodup : order.Nodup) {d : α} (listed : d ∈ order) (hd : d ∈ nodes) : ¬ needs d d := by
  intro hneeds
  obtain ⟨before, after, rfl⟩ := List.append_of_mem listed
  have hbefore := first before d after rfl d hd hneeds
  exact (List.nodup_append.mp nodup).2.2 d hbefore d List.mem_cons_self rfl

/-- A list of all the nodes, each after what it needs, shows that there is no cycle. -/
theorem DependenciesFirst.acyclic [DecidableEq α] (first : DependenciesFirst nodes needs order)
    (all : ∀ d ∈ nodes, d ∈ order) : Acyclic nodes needs := by
  have earlier : ∀ a b, Within nodes needs a b → order.idxOf b < order.idxOf a := by
    intro a b h
    obtain ⟨ha, hb, hneeds⟩ := h
    obtain ⟨before, after, horder, hnew⟩ := List.eq_append_cons_of_mem (all a ha)
    have hbefore := first before a after horder b hb hneeds
    rw [horder, List.idxOf_append_of_mem hbefore, List.idxOf_append_of_notMem hnew,
      List.idxOf_cons_self]
    exact List.idxOf_lt_length_iff.mpr hbefore
  have path : ∀ a b, Relation.TransGen (Within nodes needs) a b →
      order.idxOf b < order.idxOf a := by
    intro a b h
    induction h with
    | single h => exact earlier a _ h
    | tail _ last ih => exact Nat.lt_trans (earlier _ _ last) ih
  intro d h
  exact absurd (path d d h) (Nat.lt_irrefl _)

/-- Without a cycle, a node that needs no other one that is left out is left out itself
only if none is. -/
theorem NoneReady.complete (none_ready : NoneReady nodes needs order) (finite : nodes.Finite)
    (acyclic : Acyclic nodes needs) : ∀ d ∈ nodes, d ∈ order := by
  let below : nodes → nodes → Prop := fun e d => Relation.TransGen (Within nodes needs) d e
  have : Finite nodes := finite
  have : IsTrans nodes below := ⟨fun _ _ _ hab hbc => hbc.trans hab⟩
  have : Std.Irrefl below := ⟨fun d => acyclic d⟩
  have listed : ∀ d : nodes, d.1 ∈ order := by
    intro d
    induction d using (Finite.wellFounded_of_trans_of_irrefl below).induction with
    | _ d ih =>
      by_contra hmissing
      obtain ⟨e, he, hneeds, hout⟩ := none_ready d d.2 hmissing
      exact hout (ih ⟨e, he⟩ (.single ⟨d.2, he, hneeds⟩))
  exact fun d hd => listed ⟨d, hd⟩

/-- A list that cannot be carried on has all the nodes exactly if there is no cycle. -/
theorem complete_iff_acyclic [DecidableEq α] (first : DependenciesFirst nodes needs order)
    (none_ready : NoneReady nodes needs order) (finite : nodes.Finite) :
    (∀ d ∈ nodes, d ∈ order) ↔ Acyclic nodes needs :=
  ⟨first.acyclic, none_ready.complete finite⟩

end IrohNix.Lib
