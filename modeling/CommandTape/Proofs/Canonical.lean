import CommandTape.Proofs.Steps

/-!
# The bytes on a tape

What a tape shows is made of whole records in a form of their own: nothing stands between them, and
they depend on the items and their blobs alone, whatever lay in memory before, whoever supplied it,
and wherever a segment was full.
-/

namespace CommandTape

variable {σ : Type}

namespace Recorded

/-- Bytes, and zeros up to the next multiple of eight. -/
def filled (bs : Bytes) : Bytes := bs ++ List.replicate ((8 - bs.length % 8) % 8) 0

/-- The one form of a record: the tag, seven zeros, and the item's image or the length, the checksum
and the bytes of its blob; then zeros up to the next multiple of eight. -/
def canonical : Recorded → Bytes
  | inline item _ => filled (item.kind.tag :: List.replicate 7 0 ++ item.image)
  | encoded item blob _ _ =>
    filled (item.kind.tag :: List.replicate 7 0 ++ LittleEndian.encode 4 blob.length ++
      LittleEndian.encode 4 (Checksum.crc32 blob).toNat ++ blob)

/-- What stands behind a multiple of eight bytes is filled up as it would be alone. -/
theorem filled_append {front bs : Bytes} (h : front.length % 8 = 0) :
    filled (front ++ bs) = front ++ bs ++ Record.padding bs.length := by
  have hcount : (8 - (front.length + bs.length) % 8) % 8 =
      Layout.roundUp bs.length - bs.length := by
    unfold Layout.roundUp
    omega
  rw [filled, Record.padding, List.length_append, hcount]

/-- Records are in canonical form. -/
theorem bytes_eq_canonical (r : Recorded) : r.bytes = r.canonical := by
  cases r with
  | inline item hinline =>
    have hfront : (Record.header item.kind.tag).length % 8 = 0 := by
      rw [Record.length_header]
    exact (filled_append hfront).symm
  | encoded item blob hinline hlen =>
    have hfront : (Record.header item.kind.tag ++ LittleEndian.encode 4 blob.length ++
        LittleEndian.encode 4 (Checksum.crc32 blob).toNat).length % 8 = 0 := by
      simp only [List.length_append, Record.length_header, LittleEndian.length_encode]
    exact (filled_append hfront).symm

theorem text_eq_flatMap_canonical (records : List Recorded) :
    text records = records.flatMap canonical := by
  rw [text, funext bytes_eq_canonical]

end Recorded

namespace TapeState

/-- After any steps on a tape without items, or steps in which the tape was cleared, what it shows
is divided into whole records, which in the order of recording are those of the items that were
recorded and not cleared since, in canonical form. -/
theorem views_eq_canonical {d : TapeState σ} {segments : List Segment}
    (hfresh : d.tape.Fresh d.session.store segments) {steps : List (Step σ)}
    (hnew : segments = [] ∨ Step.clear ∈ steps) :
    let views := (d.run steps).tape.views (d.run steps).session.store
    views.flatMap (fun view => view.data.toList) =
        (d.log [] steps).flatMap Recorded.canonical ∧
      ∃ parts : List (List Recorded), parts.flatten = d.log [] steps ∧ [] ∉ parts ∧
        views.map (fun view => view.data.toList) =
          parts.map fun part => part.flatMap Recorded.canonical := by
  intro views
  obtain ⟨c, hhas, hgiven, hrecords⟩ := holds_run (d := d) hfresh.holds steps
  rw [given_eq_nil hnew] at hgiven
  have hviews : views = c.filled.map (Chapter.view (d.run steps).session.store) := by
    rw [show views = _ from hhas.views_eq, Contents.views, hgiven, List.map_nil, List.nil_append]
  have hparts : (c.filled.map Chapter.records).flatten = d.log [] steps := by
    rw [← hrecords, ← c.flatMap_filled, List.flatMap_def]
  have hdata : views.map (fun view => view.data.toList) =
      (c.filled.map Chapter.records).map fun part => part.flatMap Recorded.canonical := by
    rw [hviews, hhas.toList_views, List.map_map]
    refine List.map_congr_left fun chapter _ => ?_
    exact Recorded.text_eq_flatMap_canonical chapter.records
  refine ⟨?_, c.filled.map Chapter.records, hparts, ?_, hdata⟩
  · rw [List.flatMap_def, hdata, List.map_map, ← List.flatMap_def, ← hrecords, ← c.flatMap_filled,
      List.flatMap_assoc]
    rfl
  · intro hmem
    obtain ⟨chapter, hchapter, hempty⟩ := List.mem_map.1 hmem
    have hne := (List.mem_filter.1 hchapter).2
    rw [hempty] at hne
    exact absurd hne (by simp)

/-- Three items, one of them encoded, that are recorded into dirty memory after others were
cleared. -/
theorem views_eq_canonical_sample :
    let d := Sample.tapeState.run (Sample.steps ++ .clear :: Sample.steps)
    (d.tape.views d.session.store).flatMap (fun view => view.data.toList) =
      [5, 0, 0, 0, 0, 0, 0, 0, 7, 7, 7, 7, 7, 7, 7, 7] ++
      [11, 0, 0, 0, 0, 0, 0, 0, 3, 0, 0, 0, 174, 235, 150, 83, 1, 2, 3, 0, 0, 0, 0, 0] ++
      [7, 0, 0, 0, 0, 0, 0, 0, 9, 0, 0, 0, 0, 0, 0, 0] := by
  intro d
  have hmade : Tape.withCapacity 12 = .ok Sample.tapeState.tape := rfl
  rw [(views_eq_canonical (.withCapacity hmade) (Or.inl rfl)).1]
  decide +kernel

end TapeState

end CommandTape
