import CommandTape.Proofs.Showing

/-!
# How long what is shown is

The records of a segment that plays to its end tile it: each starts where the one before it ends,
the first at the start, and the last ends at the end (`Tape.records_tile`). The view of an inline
item is as long as its record. The view of a decoded item is as long as an inline record of the
item would be, whatever length the encoded record has that it was decoded from. So the views tile a
segment just if each decoded item happens to be as long as its record, and in general they do not
(`Tape.views_overlap`).
-/

namespace CommandTape

variable {σ γ C : Type}

/-- Where the item's record is, and how long it is. -/
def ShownItem.record (e : ShownItem σ) : Location × Nat := (e.frame.location, e.frame.size)

/-- Where the item was shown, and how long its view is. -/
def ShownItem.extent (e : ShownItem σ) : Location × Nat := (e.view.location, e.view.length)

/-- The view of an inline item is the record, and that of a decoded item is as long as an inline
record of it. -/
theorem Frame.ShownAs.lengths {reader? : Option (ReadingClient σ)} {frame : Frame} {view : View}
    (h : frame.ShownAs reader? view) :
    (∃ location, frame = ⟨location, .inline view⟩ ∧ view.location = location ∧
      view.length = frame.size) ∨
    ∃ location tag blob item place, frame = ⟨location, .encoded tag blob⟩ ∧
      view = View.ofItem item place ∧ frame.size = Layout.encodedSize blob.length ∧
      view.length = item.kind.recordSize := by
  cases h with
  | inline hlocation => exact Or.inl ⟨_, rfl, hlocation, rfl⟩
  | decoded state hclient hresult htag =>
    exact Or.inr ⟨_, _, _, _, _, rfl, rfl, rfl, View.length_ofItem _ _⟩

namespace SegmentView

/-- Pieces, each with its location and its length, lie one behind the other from an offset on, up to
the end of the segment. -/
def Tiles (segment : SegmentView) : Nat → List (Location × Nat) → Prop
  | offset, [] => offset = segment.data.length
  | offset, piece :: rest => piece.1 = ⟨segment.id, offset⟩ ∧ segment.Tiles (offset + piece.2) rest

instance decidableTiles (segment : SegmentView) :
    (offset : Nat) → (pieces : List (Location × Nat)) → Decidable (segment.Tiles offset pieces)
  | offset, [] => inferInstanceAs (Decidable (offset = segment.data.length))
  | offset, piece :: rest =>
    have := decidableTiles segment (offset + piece.2) rest
    inferInstanceAs
      (Decidable (piece.1 = ⟨segment.id, offset⟩ ∧ segment.Tiles (offset + piece.2) rest))

variable {segment : SegmentView} {v : Vocabulary C} {reader? : Option (ReadingClient σ)}

/-- The locations of pieces tell where the first of them starts. -/
theorem Tiles.offset_eq {a b : Nat} {pieces others : List (Location × Nat)}
    (h : segment.Tiles a pieces) (h' : segment.Tiles b others)
    (hplaces : pieces.map Prod.fst = others.map Prod.fst) : a = b := by
  cases pieces with
  | nil =>
    obtain rfl : others = [] := List.map_eq_nil_iff.1 hplaces.symm
    exact Eq.trans h (Eq.symm h')
  | cons piece rest =>
    cases others with
    | nil => exact absurd hplaces (by simp)
    | cons other more =>
      have hplace : piece.1 = other.1 := (List.cons.inj hplaces).1
      rw [h.1, h'.1] at hplace
      exact congrArg Location.offset hplace

/-- The records that are shown up to the end of a segment tile it. -/
theorem Displays.tiles {offset stop : Nat} {row : List (ShownItem σ)}
    (h : segment.Displays v reader? offset row stop) (hstop : stop = segment.data.length) :
    segment.Tiles offset (row.map ShownItem.record) := by
  induction h with
  | nil hle => exact hstop
  | cons hread hshown hrow ih => exact ⟨(Frame.liesAt_of_read hread).location_eq, ih hstop⟩

/-- The views of items that are shown at their records up to the end of a segment tile it just if
each is as long as its record. -/
theorem Displays.tiles_extents_iff {offset stop : Nat} {row : List (ShownItem σ)}
    (h : segment.Displays v reader? offset row stop) (hstop : stop = segment.data.length)
    (hplace : ∀ e ∈ row, e.view.location = e.frame.location) :
    segment.Tiles offset (row.map ShownItem.extent) ↔ ∀ e ∈ row, e.view.length = e.frame.size := by
  induction h with
  | nil hle => exact ⟨fun _ e hmem => absurd hmem List.not_mem_nil, fun _ => hstop⟩
  | @cons offset e row stop hread hshown hrow ih =>
    obtain ⟨hfirst, hothers⟩ := List.forall_mem_cons.1 hplace
    have hlocation : e.view.location = ⟨segment.id, offset⟩ :=
      hfirst.trans (Frame.liesAt_of_read hread).location_eq
    have hplaces : (row.map ShownItem.extent).map Prod.fst =
        (row.map ShownItem.record).map Prod.fst := by
      rw [List.map_map, List.map_map]
      exact List.map_congr_left hothers
    constructor
    · rintro ⟨-, hrest⟩
      -- the next view starts where the next record does, or both end with the segment
      have hlength : e.view.length = e.frame.size :=
        Nat.add_left_cancel (hrest.offset_eq (hrow.tiles hstop) hplaces)
      have hrest' : segment.Tiles (offset + e.frame.size) (row.map ShownItem.extent) := by
        rw [← hlength]
        exact hrest
      exact List.forall_mem_cons.2 ⟨hlength, (ih hstop hothers).1 hrest'⟩
    · intro hall
      obtain ⟨hlength, hrest⟩ := List.forall_mem_cons.1 hall
      refine ⟨hlocation, ?_⟩
      show segment.Tiles (offset + e.view.length) (row.map ShownItem.extent)
      rw [hlength]
      exact (ih hstop hothers).2 hrest

end SegmentView

namespace Tape

/-- If a playback ends well, the records of what was shown tile each segment. An inline item is
shown as its record, where that is; a decoded one is shown in a view that is as long as an inline
record of it, and its own record is as long as its blob takes. That view is where the record is if
the reading client keeps the slot; then the views tile a segment just if each is as long as its
record. -/
theorem records_tile (tape : Tape σ) (v : Vocabulary C) (f : Visitor σ γ) (start : γ)
    (s : Session σ) {n : Nat} (h : (tape.forEach v f start s).1 = .ok n) :
    ∃ rows : List (List (ShownItem σ)),
      tape.visits v s = rows.flatten.map ShownItem.visit ∧
      (tape.forEach v f start s).2.1 = f.after (tape.visits v s) start ∧
      List.Forall₂ (fun segment row =>
        segment.Displays v tape.reader 0 row segment.data.length ∧
        segment.Tiles 0 (row.map ShownItem.record) ∧
        (∀ e ∈ row,
          (∃ location, e.frame = ⟨location, .inline e.view⟩ ∧ e.view.location = location ∧
            e.view.length = e.frame.size) ∨
          ∃ location tag blob item place, e.frame = ⟨location, .encoded tag blob⟩ ∧
            e.view = View.ofItem item place ∧
            e.frame.size = Layout.encodedSize blob.length ∧
            e.view.length = item.kind.recordSize) ∧
        ((∀ client ∈ tape.reader, client.KeepsSlot) →
          (∀ e ∈ row, e.view.location = e.frame.location) ∧
          (segment.Tiles 0 (row.map ShownItem.extent) ↔
            ∀ e ∈ row, e.view.length = e.frame.size)))
      (tape.views s.store) rows := by
  obtain ⟨rows, outcome, notices, last, htoured, hvisits, -, hplayed⟩ := tape.toured v s
  have hshown : (f.showAll (tape.visits v s) start).1 = .ok () := by
    refine showAll_of_unfaulted fun e he => ?_
    rw [h] at he
    exact absurd he (by simp)
  have hforEach := (hplayed γ f start).1 hshown
  rw [hforEach] at h ⊢
  obtain rfl : outcome = .ok n := h
  refine ⟨rows, hvisits, rfl, htoured.of_ok.1.imp fun segment row hrow => ?_⟩
  refine ⟨hrow, hrow.tiles rfl, fun e hmem => (hrow.shown hmem).lengths, fun hkeeps => ?_⟩
  have hplace : ∀ e ∈ row, e.view.location = e.frame.location := fun e hmem =>
    (hrow.shown hmem).location_eq hkeeps
  exact ⟨hplace, hrow.tiles_extents_iff rfl hplace⟩

/-- A blob and a byte item behind it, in a segment of their own, for a client that keeps the slot.
-/
theorem records_tile_sample :
    let d := (Sample.tapeState.run Sample.steps).run [.setReader (some Sample.reader)]
    let count : Visitor Tallies Nat := fun _ _ seen => (.ok (), seen + 1)
    (d.tape.forEach Sample.coreVocabulary count 0 d.session).1 = .ok 3 ∧
    ∃ rows : List (List (ShownItem Tallies)),
      d.tape.visits Sample.coreVocabulary d.session = rows.flatten.map ShownItem.visit ∧
      List.Forall₂ (fun segment row => segment.Tiles 0 (row.map ShownItem.record) ∧
          ∀ e ∈ row, e.view.location = e.frame.location)
        (d.tape.views d.session.store) rows := by
  intro d count
  have hok : (d.tape.forEach Sample.coreVocabulary count 0 d.session).1 = .ok 3 := by
    decide +kernel
  obtain ⟨rows, hvisits, -, hrows⟩ :=
    d.tape.records_tile Sample.coreVocabulary count 0 d.session hok
  have hkeeps : ∀ client ∈ d.tape.reader, client.KeepsSlot := by
    intro client hclient
    obtain rfl : Sample.reader = client := Option.some.inj hclient
    exact Sample.keepsSlot_reader
  exact ⟨hok, rows, hvisits, hrows.imp fun segment row hrow => ⟨hrow.2.1, (hrow.2.2.2 hkeeps).1⟩⟩

/-- The view of the blob reaches over the record of the byte item behind it: it is 32 bytes long, as
an inline record of the blob would be, and the record of the blob takes 24. -/
theorem views_overlap :
    let d := (Sample.tapeState.run Sample.steps).run [.setReader (some Sample.reader)]
    let count : Visitor Tallies Nat := fun _ _ seen => (.ok (), seen + 1)
    let visits := d.tape.visits Sample.coreVocabulary d.session
    (d.tape.forEach Sample.coreVocabulary count 0 d.session).1 = .ok 3 ∧
    visits.map (fun visit => (visit.1.location, visit.1.length)) =
      [(⟨⟨1⟩, 0⟩, 16), (⟨⟨2⟩, 0⟩, 32), (⟨⟨2⟩, 24⟩, 16)] ∧
    ∃ segment ∈ d.tape.views d.session.store, ¬segment.Tiles 0
      ((visits.filter fun visit => visit.1.location.segment = segment.id).map fun visit =>
        (visit.1.location, visit.1.length)) := by
  decide +kernel

end Tape

end CommandTape
