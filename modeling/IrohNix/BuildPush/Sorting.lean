import IrohNix.Build.Conservation
import IrohNix.BuildPush.Plan
import IrohNix.Lib.Topological
import Mathlib.Data.Set.Finite.Basic

namespace IrohNix.BuildPush
open IrohNix.Lib IrohNix.Build

/-- The derivations and those of them to build, and the orders in which
`topological_sort` walks its maps. -/
structure SortInput where
  drvs : HashMap String DrvInfo
  toBuild : HashSet String
  visits : toBuild.Iter
  inputs : (drvPath : String) → (info : DrvInfo) → info.inputDrvs.Iter

structure SortMaps where
  inDegree : HashMap String Nat
  dependents : HashMap String (List String)

/-- An input counts if it is built too. -/
def countInput (toBuild : HashSet String) (drvPath : String) (maps : SortMaps) (dep : String) :
    SortMaps :=
  if (toBuild.get? dep).isSome then
    { inDegree := maps.inDegree.insert drvPath ((maps.inDegree.get? drvPath).getD 0 + 1)
      dependents := maps.dependents.insert dep ((maps.dependents.get? dep).getD [] ++ [drvPath]) }
  else maps

/-- The body of the loop over the derivations to build. -/
def countInputs (input : SortInput) (maps : SortMaps) (drvPath : String) : SortMaps :=
  let maps := { maps with
    inDegree := maps.inDegree.insert drvPath ((maps.inDegree.get? drvPath).getD 0) }
  match input.drvs.get? drvPath with
  | some info =>
    (input.inputs drvPath info).keys.foldl (countInput input.toBuild drvPath) maps
  | none => maps

def sortMaps (input : SortInput) : SortMaps :=
  input.visits.keys.foldl (countInputs input) ⟨∅, ∅⟩

/-- One dependent of an emitted derivation: `none` where its in-degree would underflow. -/
def release (state : HashMap String Nat × List String) (dep : String) :
    Option (HashMap String Nat × List String) :=
  let (inDegree, queue) := state
  match inDegree.get? dep with
  | none => some (inDegree, queue)
  | some deg => do
    let deg ← checkedSub deg 1
    some (inDegree.insert dep deg, if deg = 0 then queue ++ [dep] else queue)

/-- Kahn's algorithm: `none` also where the steps it is given do not empty the queue. -/
def popAll (dependents : HashMap String (List String)) :
    Nat → HashMap String Nat × List String → List String → Option (List String)
  | 0, _, _ => none
  | steps + 1, (inDegree, queue), result =>
    match queue with
    | [] => some result
    | node :: queue => do
      let state ← ((dependents.get? node).getD []).foldlM release (inDegree, queue)
      popAll dependents steps state (result ++ [node])

def topologicalSort (input : SortInput) (degrees : (sortMaps input).inDegree.Iter) :
    Option (List String) :=
  let maps := sortMaps input
  let queue := (degrees.items.filter (fun e => e.2 == 0)).map Prod.fst
  popAll maps.dependents (input.visits.keys.length + 1) (maps.inDegree, queue) []

def ofBuilt (toBuild : HashSet String) (deps : List String) : List String :=
  deps.filter fun dep => (toBuild.get? dep).isSome

/-- The inputs of a derivation that are built too. -/
def buildInputs (input : SortInput) (drvPath : String) : List String :=
  match input.drvs.get? drvPath with
  | some info => ofBuilt input.toBuild (input.inputs drvPath info).keys
  | none => []

theorem buildInputs_nodup (input : SortInput) (d : String) : (buildInputs input d).Nodup := by
  unfold buildInputs
  split
  · exact (input.inputs d _).keys_nodup.filter _
  · exact List.nodup_nil

theorem foldl_countInput (toBuild : HashSet String) (d : String) (deps : List String)
    (nodup : deps.Nodup) (maps : SortMaps) (deg : Nat) (hd : maps.inDegree.get? d = some deg) :
    (∀ x, (deps.foldl (countInput toBuild d) maps).inDegree.get? x =
      if x = d then some (deg + (ofBuilt toBuild deps).length) else maps.inDegree.get? x) ∧
    ∀ e, ((deps.foldl (countInput toBuild d) maps).dependents.get? e).getD [] =
      (maps.dependents.get? e).getD [] ++ if e ∈ ofBuilt toBuild deps then [d] else [] := by
  induction deps generalizing maps deg with
  | nil =>
    refine ⟨fun x => ?_, fun e => by simp [ofBuilt]⟩
    by_cases hx : x = d <;> simp [hx, hd, ofBuilt]
  | cons dep deps ih =>
    obtain ⟨hnew, hrest⟩ := List.nodup_cons.mp nodup
    by_cases hb : (toBuild.get? dep).isSome = true
    · have counted : ofBuilt toBuild (dep :: deps) = dep :: ofBuilt toBuild deps :=
        List.filter_cons_of_pos hb
      have visited : countInput toBuild d maps dep =
          ⟨maps.inDegree.insert d (deg + 1),
            maps.dependents.insert dep ((maps.dependents.get? dep).getD [] ++ [d])⟩ := by
        simp [countInput, hb, hd]
      obtain ⟨degrees, dependents⟩ := ih hrest (countInput toBuild d maps dep) (deg + 1)
        (by simp [visited])
      rw [List.foldl_cons, counted]
      constructor
      · intro x
        rw [degrees, visited, HashMap.get_insert, List.length_cons]
        by_cases hx : x = d
        · simp only [hx, if_true, Option.some.injEq]
          omega
        · simp [hx]
      · intro e
        rw [dependents, visited, HashMap.get_insert]
        by_cases he : e = dep
        · have hnot : dep ∉ ofBuilt toBuild deps := fun h => hnew (List.mem_filter.mp h).1
          simp [he, hnot]
        · simp [he]
    · have skipped : countInput toBuild d maps dep = maps := by simp [countInput, hb]
      have uncounted : ofBuilt toBuild (dep :: deps) = ofBuilt toBuild deps :=
        List.filter_cons_of_neg hb
      rw [List.foldl_cons, skipped, uncounted]
      exact ih hrest maps deg hd

/-- What one derivation adds to the maps. -/
theorem countInputs_spec (input : SortInput) (maps : SortMaps) {d : String}
    (hd : maps.inDegree.get? d = none) :
    (∀ x, (countInputs input maps d).inDegree.get? x =
      if x = d then some (buildInputs input d).length else maps.inDegree.get? x) ∧
    ∀ e, ((countInputs input maps d).dependents.get? e).getD [] =
      (maps.dependents.get? e).getD [] ++ if e ∈ buildInputs input d then [d] else [] := by
  unfold countInputs buildInputs
  rw [hd]
  cases input.drvs.get? d with
  | none =>
    refine ⟨fun x => ?_, fun e => by simp⟩
    simp [HashMap.get_insert]
  | some info =>
    obtain ⟨degrees, dependents⟩ := foldl_countInput input.toBuild d (input.inputs d info).keys
      (input.inputs d info).keys_nodup { maps with inDegree := maps.inDegree.insert d 0 } 0
      (by simp)
    refine ⟨fun x => ?_, dependents⟩
    rw [Option.getD_none, degrees, Nat.zero_add, HashMap.get_insert]
    by_cases hx : x = d <;> simp [hx]

/-- The in-degrees count the inputs, and each derivation is listed under its inputs. -/
theorem sortMaps_spec (input : SortInput) :
    (∀ x, (sortMaps input).inDegree.get? x =
      if x ∈ input.visits.keys then some (buildInputs input x).length else none) ∧
    ∀ e, ((sortMaps input).dependents.get? e).getD [] =
      input.visits.keys.filter fun d => e ∈ buildInputs input d := by
  unfold sortMaps
  have nodup := input.visits.keys_nodup
  generalize input.visits.keys = ds at nodup ⊢
  induction ds using List.reverseRecOn with
  | nil => simp
  | append_singleton ds d ih =>
    obtain ⟨hds, _, hdisjoint⟩ := List.nodup_append.mp nodup
    obtain ⟨degrees, dependents⟩ := ih hds
    have hnew : d ∉ ds := fun h => hdisjoint d h d (List.mem_singleton_self d) rfl
    obtain ⟨degrees', dependents'⟩ := countInputs_spec input
      (ds.foldl (countInputs input) ⟨∅, ∅⟩) (d := d) (by rw [degrees, if_neg hnew])
    rw [List.foldl_append, List.foldl_cons, List.foldl_nil]
    constructor
    · intro x
      rw [degrees', degrees]
      by_cases hx : x = d <;> simp [hx]
    · intro e
      rw [dependents', dependents, List.filter_append]
      by_cases he : e ∈ buildInputs input d <;> simp [he]

/-- How many inputs are not among those seen. -/
def missing (deps seen : List String) : Nat := (deps.filter (· ∉ seen)).length

theorem missing_eq_zero {deps seen : List String} :
    missing deps seen = 0 ↔ ∀ e ∈ deps, e ∈ seen := by
  simp [missing, List.length_eq_zero_iff, List.filter_eq_nil_iff]

theorem missing_congr {deps seen seen' : List String} (same : ∀ e ∈ deps, e ∈ seen ↔ e ∈ seen') :
    missing deps seen = missing deps seen' :=
  congrArg List.length (List.filter_congr fun e he => by simp [same e he])

/-- One input less is missing. -/
theorem missing_snoc {deps seen : List String} {node : String} (nodup : deps.Nodup)
    (input : node ∈ deps) (unseen : node ∉ seen) :
    missing deps seen = missing deps (seen ++ [node]) + 1 := by
  have split : deps.filter (· ∉ seen ++ [node]) = (deps.filter (· ∉ seen)).erase node := by
    rw [(nodup.filter _).erase_eq_filter, List.filter_filter]
    refine List.filter_congr fun e _ => ?_
    by_cases he : e = node <;> simp [he]
  have there : node ∈ deps.filter (· ∉ seen) := List.mem_filter.mpr ⟨input, by simpa using unseen⟩
  rw [missing, missing, split, List.length_erase_of_mem there]
  exact (Nat.succ_pred_eq_of_pos (List.length_pos_of_mem there)).symm

/-- The in-degrees and the queue while the dependents of a node are told of it: each
derivation has seen some of those that are emitted, and is listed, that is emitted or
queued, once it has seen all its inputs. -/
structure Counts (nodes : List String) (deps : String → List String)
    (seen : String → List String) (emitted : List String)
    (state : HashMap String Nat × List String) : Prop where
  degree : ∀ d ∈ nodes, state.1.get? d = some (missing (deps d) (seen d))
  listed : ∀ d ∈ nodes, d ∈ emitted ++ state.2 ↔ ∀ e ∈ deps d, e ∈ seen d
  nodup : (emitted ++ state.2).Nodup
  inside : ∀ d ∈ emitted ++ state.2, d ∈ nodes

variable {nodes : List String} {deps : String → List String} {seen : String → List String}
  {emitted : List String} {state : HashMap String Nat × List String}

/-- A dependent is told, and queued if nothing else is missing. -/
theorem Counts.release (counts : Counts nodes deps seen emitted state)
    (nodup : ∀ d, (deps d).Nodup) {node d : String} (hd : d ∈ nodes) (input : node ∈ deps d)
    (unseen : node ∉ seen d) :
    ∃ state', release state d = some state' ∧
      Counts nodes deps (Function.update seen d (seen d ++ [node])) emitted state' := by
  obtain ⟨inDegree, queue⟩ := state
  have degree := counts.degree d hd
  rw [missing_snoc (nodup d) input unseen] at degree
  have unlisted : d ∉ emitted ++ queue := fun h => unseen ((counts.listed d hd).mp h node input)
  have done : missing (deps d) (seen d ++ [node]) = 0 ↔ ∀ e ∈ deps d, e ∈ seen d ++ [node] :=
    missing_eq_zero
  generalize hleft : missing (deps d) (seen d ++ [node]) = left at degree done
  refine ⟨(inDegree.insert d left, if left = 0 then queue ++ [d] else queue), ?_, ?_, ?_, ?_, ?_⟩
  · simp [BuildPush.release, degree, checkedSub]
  · intro x hx
    rw [HashMap.get_insert]
    by_cases he : x = d
    · simp [he, hleft]
    · simpa [he] using counts.degree x hx
  · intro x hx
    by_cases he : x = d
    · rw [he, Function.update_self, ← done]
      by_cases hzero : left = 0
      · simp [hzero]
      · simpa [hzero] using unlisted
    · rw [Function.update_of_ne he, ← counts.listed x hx]
      by_cases hzero : left = 0 <;> simp [hzero, he]
  · by_cases hzero : left = 0
    · rw [if_pos hzero, ← List.append_assoc]
      exact List.nodup_append.mpr ⟨counts.nodup, List.nodup_singleton d, fun a ha b hb he =>
        unlisted (by rwa [he, List.mem_singleton.mp hb] at ha)⟩
    · rw [if_neg hzero]
      exact counts.nodup
  · intro x hx
    by_cases hzero : left = 0
    · rw [if_pos hzero, ← List.append_assoc] at hx
      rcases List.mem_append.mp hx with hx | hx
      · exact counts.inside x hx
      · rwa [List.mem_singleton.mp hx]
    · rw [if_neg hzero] at hx
      exact counts.inside x hx

/-- All dependents are told, one after the other. -/
theorem Counts.releaseAll (nodup : ∀ d, (deps d).Nodup) {node : String} (told : List String)
    (distinct : told.Nodup) (counts : Counts nodes deps seen emitted state)
    (dependents : ∀ d ∈ told, d ∈ nodes ∧ node ∈ deps d ∧ node ∉ seen d) :
    ∃ state', told.foldlM BuildPush.release state = some state' ∧
      Counts nodes deps (fun d => if d ∈ told then seen d ++ [node] else seen d) emitted
        state' := by
  induction told generalizing seen state with
  | nil => exact ⟨state, rfl, by simpa using counts⟩
  | cons d told ih =>
    obtain ⟨hnew, hrest⟩ := List.nodup_cons.mp distinct
    obtain ⟨hd, input, unseen⟩ := dependents d List.mem_cons_self
    obtain ⟨mid, released, counts⟩ := counts.release nodup hd input unseen
    have later : ∀ x ∈ told, x ≠ d := fun x hx he => hnew (he ▸ hx)
    obtain ⟨state', all, counts⟩ := ih hrest counts fun x hx => by
      rw [Function.update_of_ne (later x hx)]
      exact dependents x (List.mem_cons_of_mem _ hx)
    refine ⟨state', by rw [List.foldlM_cons, released]; exact all, ?_⟩
    convert counts using 2 with x
    by_cases he : x = d
    · simp [he, hnew]
    · simp [he]

/-- What a derivation has seen counts only as far as it is among its inputs. -/
theorem Counts.congr {seen' : String → List String}
    (counts : Counts nodes deps seen emitted state)
    (same : ∀ d ∈ nodes, ∀ e ∈ deps d, e ∈ seen d ↔ e ∈ seen' d) :
    Counts nodes deps seen' emitted state where
  degree d hd := (counts.degree d hd).trans (congrArg some (missing_congr (same d hd)))
  listed d hd := (counts.listed d hd).trans (forall₂_congr (same d hd))
  nodup := counts.nodup
  inside := counts.inside

/-- A node is emitted and its dependents are told. -/
theorem Counts.pop (nodup : ∀ d, (deps d).Nodup) (distinct : nodes.Nodup) {node : String}
    {inDegree : HashMap String Nat} {queue : List String}
    (counts : Counts nodes deps (fun _ => emitted) emitted (inDegree, node :: queue)) :
    ∃ state', (nodes.filter fun d => node ∈ deps d).foldlM BuildPush.release (inDegree, queue) =
        some state' ∧
      Counts nodes deps (fun _ => emitted ++ [node]) (emitted ++ [node]) state' := by
  have moved : emitted ++ node :: queue = (emitted ++ [node]) ++ queue := by simp
  have popped : Counts nodes deps (fun _ => emitted) (emitted ++ [node]) (inDegree, queue) :=
    ⟨counts.degree, fun d hd => moved ▸ counts.listed d hd, moved ▸ counts.nodup,
      moved ▸ counts.inside⟩
  have fresh : node ∉ emitted := fun h =>
    (List.nodup_append.mp counts.nodup).2.2 node h node List.mem_cons_self rfl
  obtain ⟨state', all, counts'⟩ := popped.releaseAll nodup (nodes.filter fun d => node ∈ deps d)
    (distinct.filter _) fun d hd => by
      obtain ⟨hd, input⟩ := List.mem_filter.mp hd
      exact ⟨hd, of_decide_eq_true input, fresh⟩
  refine ⟨state', all, counts'.congr fun d hd e he => ?_⟩
  by_cases input : node ∈ deps d
  · rw [if_pos (List.mem_filter.mpr ⟨hd, decide_eq_true input⟩)]
  · have other : e ≠ node := fun h => input (h ▸ he)
    simp [input, other]

/-- Enough steps empty the queue; what is emitted is in order and cannot be carried on. -/
theorem popAll_sorted {needs : String → String → Prop} (nodup : ∀ d, (deps d).Nodup)
    (distinct : nodes.Nodup) (reads : ∀ d e, e ∈ deps d ↔ e ∈ nodes ∧ needs d e)
    {dependents : HashMap String (List String)}
    (told : ∀ e, (dependents.get? e).getD [] = nodes.filter fun d => e ∈ deps d)
    (steps : Nat) (enough : nodes.length < emitted.length + steps)
    (counts : Counts nodes deps (fun _ => emitted) emitted state)
    (first : DependenciesFirst {d | d ∈ nodes} needs emitted) :
    ∃ result, popAll dependents steps state emitted = some result ∧ result.Nodup ∧
      (∀ d ∈ result, d ∈ nodes) ∧ DependenciesFirst {d | d ∈ nodes} needs result ∧
      NoneReady {d | d ∈ nodes} needs result := by
  have unique : emitted.Nodup := (List.nodup_append.mp counts.nodup).1
  have inside : ∀ d ∈ emitted, d ∈ nodes := fun d hd =>
    counts.inside d (List.mem_append_left _ hd)
  induction steps generalizing emitted state with
  | zero =>
    have := unique.length_le_of_subset inside
    omega
  | succ steps ih =>
    obtain ⟨inDegree, queue⟩ := state
    cases queue with
    | nil =>
      refine ⟨emitted, rfl, unique, inside, first, fun d hd hout => ?_⟩
      have waiting : ¬ ∀ e ∈ deps d, e ∈ emitted := fun h =>
        hout (by simpa using (counts.listed d hd).mpr h)
      push Not at waiting
      obtain ⟨e, he, hmissing⟩ := waiting
      obtain ⟨hnode, hneeds⟩ := (reads d e).mp he
      exact ⟨e, hnode, hneeds, hmissing⟩
    | cons node queue =>
      have queued : node ∈ emitted ++ node :: queue := by simp
      have seen_all := (counts.listed node (counts.inside node queued)).mp queued
      have ready : ∀ e ∈ {d | d ∈ nodes}, needs node e → e ∈ emitted := fun e he hneeds =>
        seen_all e ((reads node e).mpr ⟨he, hneeds⟩)
      obtain ⟨state', all, counts'⟩ := counts.pop nodup distinct
      have further := ih (by simp; omega) counts' (first.snoc ready)
        (List.nodup_append.mp counts'.nodup).1
        (fun d hd => counts'.inside d (List.mem_append_left _ hd))
      rw [popAll, told, all]
      exact further

/-- The derivations to build. -/
def toBuildSet (input : SortInput) : Set String := {d | (input.toBuild.get? d).isSome}

/-- One derivation is an input of the other. -/
def NeedsInput (input : SortInput) (d e : String) : Prop :=
  ∃ info, input.drvs.get? d = some info ∧ info.dependsOn e

theorem mem_buildInputs {input : SortInput} {d e : String} :
    e ∈ buildInputs input d ↔ e ∈ input.visits.keys ∧ NeedsInput input d e := by
  unfold buildInputs NeedsInput
  cases hd : input.drvs.get? d with
  | none => simp
  | some info => simp [ofBuilt, HashMap.Iter.mem_keys, DrvInfo.dependsOn, and_comm]

/-- Before anything is emitted, the derivations without inputs are queued. -/
theorem counts_start (input : SortInput) (degrees : (sortMaps input).inDegree.Iter) :
    Counts input.visits.keys (buildInputs input) (fun _ => []) []
      ((sortMaps input).inDegree, (degrees.items.filter (fun e => e.2 == 0)).map Prod.fst) := by
  have degree := (sortMaps_spec input).1
  have none_seen : ∀ d, missing (buildInputs input d) [] = (buildInputs input d).length := by
    intro d
    simp [missing]
  have queued : ∀ d, d ∈ (degrees.items.filter (fun e => e.2 == 0)).map Prod.fst ↔
      d ∈ input.visits.keys ∧ missing (buildInputs input d) [] = 0 := by
    intro d
    simp only [List.mem_map, List.mem_filter, Prod.exists, degrees.mem_iff, degree, none_seen]
    constructor
    · intro h
      obtain ⟨d', deg, ⟨hdeg, hzero⟩, rfl⟩ := h
      split at hdeg
      · rename_i hd
        cases hdeg
        exact ⟨hd, by simpa using hzero⟩
      · cases hdeg
    · intro h
      exact ⟨d, 0, ⟨by rw [if_pos h.1, h.2], rfl⟩, rfl⟩
  refine ⟨fun d hd => ?_, fun d hd => ?_, ?_, fun d hd => ((queued d).mp hd).1⟩
  · rw [degree, if_pos hd, none_seen]
  · rw [List.nil_append, queued, missing_eq_zero]
    exact and_iff_right hd
  · exact degrees.nodup.sublist (List.filter_sublist.map Prod.fst)

theorem toBuildSet_eq (input : SortInput) : toBuildSet input = {d | d ∈ input.visits.keys} := by
  ext d
  exact (input.visits.mem_keys d).symm

/-- The sort succeeds with derivations to build, each once and after its inputs; what it leaves
out needs something that is left out. -/
theorem topologicalSort_sorted (input : SortInput) (degrees : (sortMaps input).inDegree.Iter) :
    ∃ result, topologicalSort input degrees = some result ∧ result.Nodup ∧
      (∀ d ∈ result, d ∈ toBuildSet input) ∧
      DependenciesFirst (toBuildSet input) (NeedsInput input) result ∧
      NoneReady (toBuildSet input) (NeedsInput input) result := by
  rw [toBuildSet_eq]
  exact popAll_sorted (buildInputs_nodup input) input.visits.keys_nodup
    (fun d e => mem_buildInputs) (sortMaps_spec input).2 (input.visits.keys.length + 1) (by simp)
    (counts_start input degrees) dependenciesFirst_nil

/-- Whatever the graph and the orders in which its maps are walked, the in-degrees do not
underflow, and the result has derivations to build, each once and after its inputs; it has
all of them exactly if none is, through others, its own input. -/
theorem topological_sort_correct (input : SortInput)
    (degrees : (sortMaps input).inDegree.Iter) :
    ∃ result, topologicalSort input degrees = some result ∧ result.Nodup ∧
      (∀ d ∈ result, d ∈ toBuildSet input) ∧
      (∀ before d after, result = before ++ d :: after →
        ∀ e ∈ toBuildSet input, NeedsInput input d e → e ∈ before) ∧
      ((∀ d ∈ toBuildSet input, d ∈ result) ↔
        ∀ d, ¬ Relation.TransGen (fun a b =>
          a ∈ toBuildSet input ∧ b ∈ toBuildSet input ∧ NeedsInput input a b) d d) := by
  obtain ⟨result, sorted, nodup, inside, first, none_ready⟩ := topologicalSort_sorted input degrees
  have finite : (toBuildSet input).Finite :=
    toBuildSet_eq input ▸ List.finite_toSet input.visits.keys
  exact ⟨result, sorted, nodup, inside, first, complete_iff_acyclic first none_ready finite⟩

end IrohNix.BuildPush
