import IrohNix.Basic
import IrohNix.Lib.Wire

namespace IrohNix
open IrohNix.Lib

variable {α : Type}

/-- Every message is encoded, to bytes that decode to it. -/
def Postcard.RoundTrips (codec : Postcard α) : Prop :=
  ∀ message, ∃ bytes, codec.toAllocvec message = .ok bytes ∧ codec.fromBytes bytes = .ok message

/-- The encoding that writes messages in a format. `postcard` has a format for every type
that its messages are made of; bytes that follow a message are ignored. -/
def Postcard.ofWire (format : Wire α) : Postcard α where
  toAllocvec message := .ok (format.write message)
  fromBytes bytes :=
    match format.read bytes with
    | some (message, _) => .ok message
    | none => .error "Hit the end of buffer, expected more data"

theorem Postcard.ofWire_roundTrips (format : Wire α) : (Postcard.ofWire format).RoundTrips := by
  intro message
  refine ⟨format.write message, rfl, ?_⟩
  have read := format.read_write message []
  rw [List.append_nil] at read
  simp only [Postcard.ofWire, read]

end IrohNix
