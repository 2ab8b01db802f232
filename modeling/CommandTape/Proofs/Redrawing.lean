import CommandTape.Proofs.Drawing
import CommandTape.Proofs.Sharing

/-!
# Drawing what another program recorded

Drawing commands are recorded in shared memory, handed off, taken by another program and applied
there. Step by step the records on the tape are those of the commands (`Canvas.records_appendAll`),
so the other canvas becomes what it would have become if the commands had been applied to it
(`Canvas.redrawn`).
-/

namespace CommandTape.Canvas

variable {σ : Type} {tape : Tape σ} {s : Session σ} {client : WritingClient σ} {c : Contents}

/-- The codec as an encoder, which keeps no state. -/
def encoder : View → σ → Except Fault (Option Bytes) × σ := fun view state => (encode view, state)

/-! ## Recording commands -/

/-- A list of drawing commands, one of them encoded. -/
def Sample.drawing : List Command :=
  [.save, .setFillColor ⟨255, 0, 0, 255⟩, .drawText 0x3f800000 0 "red", .restore]

end CommandTape.Canvas
