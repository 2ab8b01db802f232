import CommandTape.Proofs.Packing
import Mathlib.Order.Bounds.Defs

/-!
# Sizes at the end of their range

Sizes are rounded up to multiples of eight, and every sum on the way is checked. Near the end of the
range of sizes this fails, for each computation from another place on (`Word.roundsUp`,
`Word.measuresBlob`, `Tape.acceptsCapacity`). All of these places follow from one equivalence: a
multiple of eight is as large as a size just if it is as large as the size rounded up
(`Layout.roundUp_le_iff`). A tape is made with a capacity that is such a multiple, and keeps it, so
it never asks for memory in uneven pieces (`TapeState.sizes_rounded`).
-/

namespace CommandTape

variable {σ : Type}

/-- Rounding up yields the least multiple of eight that is at least `n`. -/
theorem Layout.isLeast_roundUp (n : Nat) : IsLeast {k | n ≤ k ∧ k % 8 = 0} (roundUp n) := by
  refine ⟨⟨le_roundUp n, roundUp_mod n⟩, ?_⟩
  rintro k ⟨hle, hmod⟩
  exact (roundUp_le_iff hmod).2 hle

/-! ## Rounding up -/

namespace Word

variable {n m : Nat}

/-- Eight is added before one is taken off, so the last eight sizes of the range cannot be rounded
up. -/
theorem add_lt_iff : n + 8 < limit ↔ n ≤ limit - 9 := by
  unfold limit
  omega

theorem alignUp_eq_ok_iff : alignUp n = .ok m ↔ n ≤ limit - 9 ∧ m = Layout.roundUp n := by
  by_cases h : n + 8 < limit
  · rw [alignUp_of_lt h, Except.ok.injEq, eq_comm]
    simp only [add_lt_iff.1 h, true_and]
  · rw [alignUp_of_le (Nat.le_of_not_lt h)]
    simp only [reduceCtorEq, mt add_lt_iff.2 h, false_and]

/-- What was rounded up can be rounded up again unless it is the last multiple of the range. -/
theorem roundUp_le_limit_iff : Layout.roundUp n ≤ limit - 9 ↔ n ≤ limit - 16 := by
  have hlast : Layout.roundUp n ≤ limit - 16 ↔ n ≤ limit - 16 := Layout.roundUp_le_iff rfl
  have hmod := Layout.roundUp_mod n
  unfold limit at *
  omega

/-- Rounding up once more changes nothing, where it can be done. -/
theorem alignUp_again_iff : (∃ m, alignUp n = .ok m ∧ alignUp m = .ok m) ↔ n ≤ limit - 16 := by
  constructor
  · rintro ⟨m, hfirst, hagain⟩
    obtain ⟨-, rfl⟩ := alignUp_eq_ok_iff.1 hfirst
    exact roundUp_le_limit_iff.1 (alignUp_eq_ok_iff.1 hagain).1
  · intro hle
    have hround := roundUp_le_limit_iff.2 hle
    have hfirst := Nat.le_trans (Layout.le_roundUp n) hround
    have hsame := Layout.roundUp_eq_self (Layout.roundUp_mod n)
    exact ⟨_, alignUp_eq_ok_iff.2 ⟨hfirst, rfl⟩, alignUp_eq_ok_iff.2 ⟨hround, hsame.symm⟩⟩

/-- Machine words, whose sums wrap around, come to the same as far as no sum is too large. -/
theorem toNat_mask {w : UInt64} (h : w.toNat ≤ limit - 9) :
    ((w + 8 - 1) &&& ~~~(8 - 1)).toNat = clearLowBits (w.toNat + 8 - 1) := by
  have hsum : (w + 8).toNat = w.toNat + 8 := by
    rw [UInt64.toNat_add, show (8 : UInt64).toNat = 8 from rfl, Nat.mod_eq_of_lt]
    exact add_lt_iff.2 h
  have hone : 1 ≤ w + 8 := by
    rw [UInt64.le_iff_toNat_le, hsum]
    exact Nat.le_add_left 1 (w.toNat + 7)
  rw [UInt64.toNat_and, UInt64.toNat_sub_of_le _ _ hone, hsum]
  rfl

/-- What rounding `n` up comes to. -/
structure RoundsUp (n : Nat) : Prop where
  least : n ≤ limit - 9 → ∃ m, alignUp n = .ok m ∧ IsLeast {k | n ≤ k ∧ k % 8 = 0} m
  overflow : limit - 9 < n → alignUp n = .error .overflow
  /-- The result is that of a machine word's own operations. -/
  masked : ∀ w : UInt64, w.toNat = n → n ≤ limit - 9 →
    alignUp n = .ok ((w + 8 - 1) &&& ~~~(8 - 1)).toNat
  mono : ∀ other m m', n ≤ other → alignUp n = .ok m → alignUp other = .ok m' → m ≤ m'
  again : (∃ m, alignUp n = .ok m ∧ alignUp m = .ok m) ↔ n ≤ limit - 16

theorem roundsUp (n : Nat) : RoundsUp n where
  least h := ⟨_, alignUp_of_lt (add_lt_iff.2 h), Layout.isLeast_roundUp n⟩
  overflow h := alignUp_of_le (Nat.le_of_not_lt (mt add_lt_iff.1 (Nat.not_le.2 h)))
  masked := by
    rintro w rfl h
    have hsum : add w.toNat Layout.alignment = .ok (w.toNat + 8) := add_of_lt (add_lt_iff.2 h)
    rw [toNat_mask h]
    simp only [alignUp, hsum, bind, Except.bind, pure, Except.pure]
  mono := by
    intro other m m' hle hm hm'
    obtain ⟨-, rfl⟩ := alignUp_eq_ok_iff.1 hm
    obtain ⟨-, rfl⟩ := alignUp_eq_ok_iff.1 hm'
    exact (Layout.roundUp_le_iff (Layout.roundUp_mod other)).2
      (Nat.le_trans hle (Layout.le_roundUp other))
  again := alignUp_again_iff

-- not even the last multiple of eight in the range can be rounded up
example : (limit - 8) % 8 = 0 ∧ alignUp (limit - 8) = .error .overflow := by
  decide

/-! ## The size of encoded records -/

/-- What the size of an encoded record with a blob of `length` bytes comes to. -/
structure MeasuresBlob (length : Nat) : Prop where
  size : length ≤ limit - 24 → ∃ m, alignUp length = .ok m ∧ encodedSize length = .ok (16 + m)
  overflow : limit - 24 < length → encodedSize length = .error .overflow
  size_eq_iff : ∀ other, length ≤ limit - 24 → other ≤ limit - 24 →
    (encodedSize length = encodedSize other ↔ alignUp length = alignUp other)

theorem measures_of_le {length : Nat} (h : length ≤ limit - 24) :
    alignUp length = .ok (Layout.roundUp length) ∧
      encodedSize length = .ok (16 + Layout.roundUp length) := by
  have hle : length + 24 ≤ limit := (Nat.le_sub_iff_add_le (by decide)).1 h
  exact ⟨alignUp_of_lt (by omega), encodedSize_of_le hle⟩

theorem measuresBlob (length : Nat) : MeasuresBlob length where
  size h := ⟨_, measures_of_le h⟩
  overflow h := encodedSize_of_limit_lt ((Nat.sub_lt_iff_lt_add (by decide)).1 h)
  size_eq_iff := by
    intro other hlength hother
    obtain ⟨halign, hsize⟩ := measures_of_le hlength
    obtain ⟨halign', hsize'⟩ := measures_of_le hother
    rw [halign, hsize, halign', hsize', Except.ok.injEq, Except.ok.injEq, Nat.add_left_cancel_iff]

end Word

/-! ## Capacities -/

namespace Tape

/-- What making a tape for a capacity comes to. -/
structure AcceptsCapacity (σ : Type) (capacity : Nat) : Prop where
  made : capacity ≤ Word.limit - 9 → ∃ tape : Tape σ, withCapacity capacity = .ok tape ∧
    IsLeast {k | capacity ≤ k ∧ 0 < k ∧ k % 8 = 0} tape.segmentCapacity
  overflow : Word.limit - 9 < capacity →
    (withCapacity capacity : Except Fault (Tape σ)) = .error .overflow

/-- A capacity of nothing becomes one of a header, as does any other up to that. -/
theorem isLeast_capacity (capacity : Nat) :
    IsLeast {k | capacity ≤ k ∧ 0 < k ∧ k % 8 = 0}
      (Layout.roundUp (max capacity Layout.headerSize)) := by
  obtain ⟨⟨hle, hmod⟩, hleast⟩ := Layout.isLeast_roundUp (max capacity Layout.headerSize)
  unfold Layout.headerSize at *
  refine ⟨⟨by omega, by omega, hmod⟩, ?_⟩
  rintro k ⟨hcapacity, hpos, hk⟩
  exact hleast ⟨by omega, hk⟩

theorem acceptsCapacity (σ : Type) (capacity : Nat) : AcceptsCapacity σ capacity where
  made h := by
    have hmax : max capacity Layout.headerSize ≤ Word.limit - 9 := Nat.max_le.2 ⟨h, by decide⟩
    refine ⟨⟨none, none, .empty, [], none, 0, Layout.roundUp (max capacity Layout.headerSize)⟩, ?_,
      isLeast_capacity capacity⟩
    simp only [withCapacity, Word.alignUp_of_lt (Word.add_lt_iff.2 hmax), bind, Except.bind, pure,
      Except.pure]
  overflow h := by
    have hmax := Nat.lt_of_lt_of_le h (Nat.le_max_left capacity Layout.headerSize)
    simp only [withCapacity, (Word.roundsUp _).overflow hmax, bind, Except.bind]

/-- Asked for `minimum` bytes, the tape obtains a segment in its own memory, and asks for whole
units of eight bytes there, so that this is no fault. -/
def AllocatesEvenly (tape : Tape σ) (minimum : Nat) : Prop :=
  ∃ size, Word.alignUp minimum = .ok size ∧
    max size tape.segmentCapacity % Layout.alignment = 0 ∧
    ∀ s, tape.createSegment minimum s = allocated (max size tape.segmentCapacity) s ∧
      ∀ f, (tape.createSegment minimum s).1 ≠ .error (.fault f)

theorem allocatesEvenly {tape : Tape σ} (hcapacity : tape.segmentCapacity % Layout.alignment = 0)
    (hwriter : tape.writer = none) {minimum : Nat} (h : minimum ≤ Word.limit - 9) :
    tape.AllocatesEvenly minimum := by
  have hlt := Word.add_lt_iff.2 h
  have hmod := max_capacity_mod hcapacity (Layout.roundUp_mod minimum)
  refine ⟨_, Word.alignUp_of_lt hlt, hmod, fun s => ?_⟩
  rw [createSegment_eq_allocated hwriter hlt]
  exact ⟨rfl, allocated_ne_fault hmod s⟩

end Tape

theorem TapeState.capacity_mod_run {d : TapeState σ} {segments : List Segment}
    (hfresh : d.tape.Fresh d.session.store segments) (steps : List (Step σ)) :
    (d.run steps).tape.segmentCapacity % Layout.alignment = 0 := by
  rw [segmentCapacity_run hfresh.holds]
  exact hfresh.capacity_mod

/-- What sizes come to over all of their range, and beyond it. A size can be rounded up just if the
range has room for eight more bytes. This yields the least multiple of eight that is as large, as it
does in machine words; it respects the order of sizes, and can be repeated unless the result is the
last multiple of the range. An encoded record takes another sixteen bytes, for which the range must
have room, too, and no two lengths have records of one size unless they are rounded up to the same.
A tape can be made for every capacity that can be rounded up. Whatever was done to it since, if it
has no client, it asks for memory in whole units of eight bytes for every size that can be rounded
up. -/
theorem TapeState.sizes_rounded (σ : Type) :
    (∀ n, Word.RoundsUp n) ∧ (∀ length, Word.MeasuresBlob length) ∧
    (∀ capacity, Tape.AcceptsCapacity σ capacity) ∧
    ∀ (d : TapeState σ) (segments : List Segment), d.tape.Fresh d.session.store segments →
      ∀ steps : List (Step σ), (d.run steps).tape.writer = none →
        ∀ minimum ≤ Word.limit - 9, (d.run steps).tape.AllocatesEvenly minimum := by
  refine ⟨Word.roundsUp, Word.measuresBlob, Tape.acceptsCapacity σ, ?_⟩
  intro d segments hfresh steps hwriter minimum hle
  exact Tape.allocatesEvenly (capacity_mod_run hfresh steps) hwriter hle

/-- The largest size that can be rounded up, on a tape whose client was taken away again. -/
theorem TapeState.sizes_rounded_sample :
    let last := Sample.tapeState.run (Sample.steps ++ [.setWriter none])
    (∃ m, Word.alignUp (Word.limit - 9) = .ok m ∧
      IsLeast {k | Word.limit - 9 ≤ k ∧ k % 8 = 0} m) ∧
    last.tape.writer = none ∧ last.tape.AllocatesEvenly (Word.limit - 9) := by
  intro last
  have hmade : Tape.withCapacity 12 = .ok Sample.tapeState.tape := rfl
  have hwriter : last.tape.writer = none := rfl
  obtain ⟨hround, -, -, hevenly⟩ := TapeState.sizes_rounded Tallies
  exact ⟨(hround _).least (Nat.le_refl _), hwriter,
    hevenly Sample.tapeState [] (.withCapacity hmade) _ hwriter _ (Nat.le_refl _)⟩

end CommandTape
