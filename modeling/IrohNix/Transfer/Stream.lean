import IrohNix.Basic
import IrohNix.Lib.Bytes

namespace IrohNix.Transfer
open IrohNix.Lib

/-- A `RecvStream`: the pieces that arrive, each of which a `read` may return at
once, then the end, or an error. -/
structure RecvStream where
  chunks : List Bytes
  broken : Option String
  /-- The error of a `read_exact` that meets the end. -/
  finishedEarly : String
deriving Inhabited

/-- At most so many bytes, or none at the end of the stream. -/
def RecvStream.read (recv : RecvStream) (max : Nat) :
    Except String (Option (Bytes × RecvStream)) :=
  match recv.chunks with
  | [] => match recv.broken with
    | none => .ok none
    | some e => .error e
  | chunk :: rest =>
    if chunk.length ≤ max then .ok (some (chunk, { recv with chunks := rest }))
    else .ok (some (chunk.take max, { recv with chunks := chunk.drop max :: rest }))

theorem RecvStream.read_length {recv rest : RecvStream} {max : Nat} {buf : Bytes}
    (h : recv.read max = .ok (some (buf, rest))) : buf.length ≤ max := by
  unfold RecvStream.read at h
  split at h
  · split at h <;> simp at h
  · split at h
    · rename_i hfits
      simp only [Except.ok.injEq, Option.some.injEq, Prod.mk.injEq] at h
      rw [← h.1]
      exact hfits
    · simp only [Except.ok.injEq, Option.some.injEq, Prod.mk.injEq] at h
      rw [← h.1]
      exact List.length_take_le _ _

/-- The first bytes of the pieces and the pieces left, where there are so many. -/
def takeExact : Nat → List Bytes → Option (Bytes × List Bytes)
  | 0, chunks => some ([], chunks)
  | _ + 1, [] => none
  | n + 1, chunk :: rest =>
    if chunk.length ≤ n + 1 then
      (takeExact (n + 1 - chunk.length) rest).map fun r => (chunk ++ r.1, r.2)
    else some (chunk.take (n + 1), chunk.drop (n + 1) :: rest)

def RecvStream.readExact (recv : RecvStream) (n : Nat) : Except String (Bytes × RecvStream) :=
  match takeExact n recv.chunks with
  | some (bytes, rest) => .ok (bytes, { recv with chunks := rest })
  | none => .error (recv.broken.getD recv.finishedEarly)

/-- The pieces still to be read are not empty, and together are these bytes. -/
structure RecvStream.Holds (recv : RecvStream) (bytes : Bytes) : Prop where
  nonempty : ∀ chunk ∈ recv.chunks, chunk ≠ []
  together : recv.chunks.flatten = bytes

/-- A read of a stream that goes on takes at least one byte off its front. -/
theorem RecvStream.Holds.read {recv : RecvStream} {bytes : Bytes} {max : Nat}
    (holds : recv.Holds bytes) (more : bytes ≠ []) (hmax : 0 < max) : ∃ buf rest bytes',
      recv.read max = .ok (some (buf, rest)) ∧ buf ≠ [] ∧ rest.Holds bytes' ∧
        bytes = buf ++ bytes' := by
  obtain ⟨chunks, broken, early⟩ := recv
  obtain ⟨nonempty, rfl⟩ := holds
  cases chunks with
  | nil => exact absurd rfl more
  | cons chunk chunks =>
    have hchunk : chunk ≠ [] := nonempty chunk (by simp)
    have later : ∀ c ∈ chunks, c ≠ [] := fun c hc => nonempty c (by simp [hc])
    by_cases hfits : chunk.length ≤ max
    · refine ⟨chunk, ⟨chunks, broken, early⟩, _, ?_, hchunk, ⟨later, rfl⟩, by simp⟩
      simp [RecvStream.read, hfits]
    · have hrest : chunk.drop max ≠ [] := by simp; omega
      refine ⟨chunk.take max, ⟨chunk.drop max :: chunks, broken, early⟩, _, ?_, ?_, ⟨?_, rfl⟩, ?_⟩
      · simp [RecvStream.read, hfits]
      · simp only [ne_eq, List.take_eq_nil_iff, not_or]
        exact ⟨by omega, hchunk⟩
      · intro c hc
        rcases List.mem_cons.mp hc with rfl | hc
        · exact hrest
        · exact later c hc
      · simp [← List.append_assoc]

theorem takeExact_append {chunks : List Bytes} {front back : Bytes}
    (nonempty : ∀ chunk ∈ chunks, chunk ≠ []) (h : chunks.flatten = front ++ back) :
    ∃ rest, takeExact front.length chunks = some (front, rest) ∧
      (∀ chunk ∈ rest, chunk ≠ []) ∧ rest.flatten = back := by
  induction chunks generalizing front with
  | nil =>
    obtain ⟨rfl, rfl⟩ := List.append_eq_nil_iff.mp h.symm
    exact ⟨[], rfl, by simp, rfl⟩
  | cons chunk chunks ih =>
    have later : ∀ c ∈ chunks, c ≠ [] := fun c hc => nonempty c (by simp [hc])
    cases hn : front.length with
    | zero =>
      rw [List.length_eq_zero_iff.mp hn] at h ⊢
      exact ⟨_, rfl, nonempty, h⟩
    | succ n =>
      rw [List.flatten_cons] at h
      unfold takeExact
      by_cases hfits : chunk.length ≤ n + 1
      · obtain ⟨front', rfl⟩ : ∃ front', front = chunk ++ front' := by
          have := List.prefix_of_prefix_length_le (List.prefix_append chunk _)
            (h ▸ List.prefix_append front back) (by omega)
          exact ⟨_, this.choose_spec.symm⟩
        rw [List.append_assoc] at h
        obtain ⟨rest, htake, hrest, hback⟩ := ih later (List.append_cancel_left h)
        have hlen : n + 1 - chunk.length = front'.length := by
          rw [List.length_append] at hn
          omega
        exact ⟨rest, by simp [hfits, hlen, htake], hrest, hback⟩
      · have hfront : front = chunk.take (n + 1) := by
          have := congrArg (List.take (n + 1)) h
          rw [List.take_append_of_le_length (by omega), ← hn, List.take_left] at this
          rw [← hn]
          exact this.symm
        refine ⟨_, by rw [if_neg hfits, hfront], ?_, ?_⟩
        · intro c hc
          rcases List.mem_cons.mp hc with rfl | hc
          · simp; omega
          · exact later c hc
        · rw [hfront] at h
          have hsplit := List.take_append_drop (n + 1) chunk
          rw [List.flatten_cons]
          apply (List.append_right_inj (chunk.take (n + 1))).mp
          rw [← List.append_assoc, hsplit, h]

/-- Reading exactly the front of a stream leaves the rest of it. -/
theorem RecvStream.Holds.readExact {recv : RecvStream} {front back : Bytes}
    (holds : recv.Holds (front ++ back)) : ∃ rest,
      recv.readExact front.length = .ok (front, rest) ∧ rest.Holds back := by
  obtain ⟨rest, htake, hrest, hback⟩ := takeExact_append holds.nonempty holds.together
  exact ⟨{ recv with chunks := rest }, by simp [RecvStream.readExact, htake], hrest, hback⟩

theorem RecvStream.read_same {recv rest : RecvStream} {max : Nat} {buf : Bytes}
    (h : recv.read max = .ok (some (buf, rest))) :
    rest.broken = recv.broken ∧ rest.finishedEarly = recv.finishedEarly := by
  unfold RecvStream.read at h
  split at h
  · split at h <;> simp at h
  · split at h
    all_goals
      cases h
      exact ⟨rfl, rfl⟩

theorem RecvStream.readExact_same {recv rest : RecvStream} {n : Nat} {bytes : Bytes}
    (h : recv.readExact n = .ok (bytes, rest)) :
    rest.broken = recv.broken ∧ rest.finishedEarly = recv.finishedEarly := by
  unfold RecvStream.readExact at h
  split at h
  · cases h
    exact ⟨rfl, rfl⟩
  · cases h

/-- The stream holds these bytes and then ends, as the sender finished it. -/
structure RecvStream.Ends (recv : RecvStream) (bytes : Bytes) : Prop where
  holds : recv.Holds bytes
  unbroken : recv.broken = none

theorem RecvStream.Ends.readExact {recv : RecvStream} {front back : Bytes}
    (ends : recv.Ends (front ++ back)) : ∃ rest,
      recv.readExact front.length = .ok (front, rest) ∧ rest.Ends back := by
  obtain ⟨rest, read, holds⟩ := ends.holds.readExact
  exact ⟨rest, read, holds, (readExact_same read).1.trans ends.unbroken⟩

/-- Nothing is left in a stream that holds no bytes. -/
theorem RecvStream.Holds.nothing {recv : RecvStream} (holds : recv.Holds []) :
    recv.chunks = [] := by
  rw [List.eq_nil_iff_forall_not_mem]
  intro chunk hc
  exact holds.nonempty chunk hc (List.flatten_eq_nil_iff.mp holds.together chunk hc)

theorem RecvStream.Ends.readExact_nil {recv : RecvStream} (ends : recv.Ends []) {n : Nat}
    (more : 0 < n) : recv.readExact n = .error recv.finishedEarly := by
  obtain ⟨m, rfl⟩ := Nat.exists_eq_succ_of_ne_zero (Nat.ne_of_gt more)
  rw [RecvStream.readExact, ends.holds.nothing, ends.unbroken]
  rfl

theorem RecvStream.Ends.read_nil {recv : RecvStream} (ends : recv.Ends []) (max : Nat) :
    recv.read max = .ok none := by
  rw [RecvStream.read, ends.holds.nothing, ends.unbroken]

end IrohNix.Transfer
