import IrohNix.Lib.Bytes

namespace IrohNix.Lib

/-- A payload behind its length: four bytes, the most significant first. -/
def framed (payload : List UInt8) : List UInt8 := beBytes 4 payload.length ++ payload

/-- What a stream begins with, to a reader of frames. -/
inductive Front where
  | noLength
  | tooLarge (size : Nat)
  | noBody (size : Nat)
  | frame (payload rest : List UInt8)

/-- A reader takes the length first, and the payload behind it if that is not too large. -/
def front (limit : Nat) (bytes : List UInt8) : Front :=
  if bytes.length < 4 then .noLength
  else
    let size := ofBeBytes (bytes.take 4)
    let body := bytes.drop 4
    if size > limit then .tooLarge size
    else if body.length < size then .noBody size
    else .frame (body.take size) (body.drop size)

variable {limit : Nat} {bytes payload rest : List UInt8}

theorem front_frame (h : front limit bytes = .frame payload rest) :
    bytes = bytes.take 4 ++ (payload ++ rest) ∧ 4 ≤ bytes.length ∧
      ofBeBytes (bytes.take 4) = payload.length ∧ payload.length ≤ limit := by
  simp only [front] at h
  split at h
  · cases h
  · split at h
    · cases h
    · split at h
      · cases h
      · rename_i long fits whole
        cases h
        have size : ((bytes.drop 4).take (ofBeBytes (bytes.take 4))).length =
            ofBeBytes (bytes.take 4) := List.length_take_of_le (by omega)
        refine ⟨?_, by omega, size.symm, by omega⟩
        rw [List.take_append_drop, List.take_append_drop]

theorem front_rest_lt (h : front limit bytes = .frame payload rest) :
    rest.length < bytes.length := by
  obtain ⟨split, _⟩ := front_frame h
  have lengths := congrArg List.length split
  simp only [List.length_append, List.length_take] at lengths
  omega

/-- A whole frame in front is read, whatever its length bytes say of the rest. -/
theorem front_of_length {length : List UInt8} (four : length.length = 4)
    (size : ofBeBytes length = payload.length) (fits : payload.length ≤ limit)
    (rest : List UInt8) : front limit (length ++ (payload ++ rest)) = .frame payload rest := by
  have long : ¬ (length ++ (payload ++ rest)).length < 4 := by
    simp only [List.length_append]
    omega
  have taken : (length ++ (payload ++ rest)).take 4 = length := by
    rw [← four, List.take_left]
  have dropped : (length ++ (payload ++ rest)).drop 4 = payload ++ rest := by
    rw [← four, List.drop_left]
  simp only [front, if_neg long, taken, dropped, size]
  rw [if_neg (by omega), if_neg (by simp), List.take_left, List.drop_left]

/-- Bytes behind a frame are left for the next one. -/
theorem front_append (h : front limit bytes = .frame payload rest) (more : List UInt8) :
    front limit (bytes ++ more) = .frame payload (rest ++ more) := by
  obtain ⟨split, long, size, fits⟩ := front_frame h
  have length : (bytes.take 4).length = 4 := List.length_take_of_le long
  rw [split, List.append_assoc, List.append_assoc]
  exact front_of_length length size fits _

/-- What is written as a frame is read as one, if the reader's limit allows it. -/
theorem front_framed (fits : payload.length ≤ limit) (small : limit < 256 ^ 4)
    (rest : List UInt8) : front limit (framed payload ++ rest) = .frame payload rest := by
  rw [framed, List.append_assoc]
  refine front_of_length (beBytes_length 4 _) ?_ fits rest
  rw [ofBeBytes_beBytes, Nat.mod_eq_of_lt (Nat.lt_of_le_of_lt fits small)]

/-- The payloads of the frames that some bytes begin with, a bounded number of them. -/
def payloadsWithin (limit : Nat) : Nat → List UInt8 → List (List UInt8)
  | 0, _ => []
  | fuel + 1, bytes =>
    match front limit bytes with
    | .frame payload rest => payload :: payloadsWithin limit fuel rest
    | _ => []

/-- The payloads of all whole frames, up to the first that is too large. -/
def payloads (limit : Nat) (bytes : List UInt8) : List (List UInt8) :=
  payloadsWithin limit bytes.length bytes

/-- A frame takes a byte at least, so there are no more frames than bytes. -/
theorem payloadsWithin_enough {fuel fuel' : Nat} (enough : bytes.length ≤ fuel)
    (enough' : bytes.length ≤ fuel') :
    payloadsWithin limit fuel bytes = payloadsWithin limit fuel' bytes := by
  induction fuel generalizing bytes fuel' with
  | zero =>
    have none : bytes = [] := List.length_eq_zero_iff.mp (Nat.le_zero.mp enough)
    subst none
    cases fuel' <;> rfl
  | succ fuel ih =>
    cases fuel' with
    | zero =>
      have none : bytes = [] := List.length_eq_zero_iff.mp (Nat.le_zero.mp enough')
      subst none
      rfl
    | succ fuel' =>
      simp only [payloadsWithin]
      cases hf : front limit bytes with
      | noLength | tooLarge | noBody => rfl
      | frame payload rest =>
        have lt := front_rest_lt hf
        simp only
        rw [ih (by omega) (by omega : rest.length ≤ fuel')]

theorem payloads_frame (h : front limit bytes = .frame payload rest) :
    payloads limit bytes = payload :: payloads limit rest := by
  have lt := front_rest_lt h
  rw [payloads, payloadsWithin_enough (Nat.le_refl _) (Nat.le_succ bytes.length), payloadsWithin, h]
  simp only
  rw [payloadsWithin_enough (by omega : rest.length ≤ bytes.length) (Nat.le_refl _), payloads]

theorem payloads_none (h : ∀ payload rest, front limit bytes ≠ .frame payload rest) :
    payloads limit bytes = [] := by
  rw [payloads, payloadsWithin_enough (Nat.le_refl _) (Nat.le_succ bytes.length), payloadsWithin]
  cases hf : front limit bytes with
  | noLength | tooLarge | noBody => rfl
  | frame payload rest => exact absurd hf (h payload rest)

/-- More bytes add frames, and change none. -/
theorem payloads_of_more (limit : Nat) (bytes more : List UInt8) :
    payloads limit bytes <+: payloads limit (bytes ++ more) := by
  induction hn : bytes.length using Nat.strongRecOn generalizing bytes with
  | ind n ih =>
    cases hf : front limit bytes with
    | noLength | tooLarge | noBody =>
      rw [payloads_none (by simp [hf])]
      exact List.nil_prefix
    | frame payload rest =>
      rw [payloads_frame hf, payloads_frame (front_append hf more)]
      exact (List.prefix_cons_inj payload).mpr (ih _ (hn ▸ front_rest_lt hf) rest rfl)

end IrohNix.Lib
