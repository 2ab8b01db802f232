import CommandTape.Samples.Clients
import CommandTape.Tape.Playback

/-!
# Listings

Visitors that write down what playback shows.
-/

namespace CommandTape

/-- What a listing says about one visited item. -/
structure Row where
  view : View
  shown : String

namespace Row

/-- Writes a row for each item, with the text that a vocabulary shows it by, and gives up after the
row with the given number, counted from one. -/
def visitor {σ : Type} (v : Vocabulary (Journal String)) (last : Option Nat) :
    Visitor σ (Journal Row)
  | view, _, rows =>
    match v.apply view .empty with
    | (.error (.fault f), _) => (.error f, rows)
    | (.error (.failed reason), _) => (.error (.raised reason.message), rows)
    | (.ok (), shown) =>
      let rows := rows.add ⟨view, "\n".intercalate shown.toList⟩
      if last.any (· = rows.length) then (.error (.raised "callback panic"), rows)
      else (.ok (), rows)

end Row

end CommandTape
