import CommandTape.Proofs.Showing
import CommandTape.Proofs.Steps

/-!
# Where playing stops

A playback that ends well counts the items that it showed, and reports nothing. One that ends for a
reason reports the segment with the record that is the reason, and the count of items that it showed
in the segments before (`Tape.stop_reported`). The items that it showed in that segment are left
out, so the count is the right one just if the record is the first of its segment
(`Tape.stop_miscounted`).
-/

namespace CommandTape

variable {σ γ C : Type}

/-- What a playback says about its end, if the visitor and the reading client do not give up. Ending
well, it returns the count of the items that it showed, and reports nothing. Ending for a reason, it
has gone through some segments to their ends and comes to a record in the next one that cannot be
read or decoded. It reports that segment, and how many items it showed in those before. It showed
just as many in all if the record is the first one of its segment, and more if not. -/
theorem Tape.stop_reported (tape : Tape σ) (v : Vocabulary C) (f : Visitor σ γ) (start : γ)
    (s : Session σ) :
    let played := tape.forEach v f start s
    let visits := tape.visits v s
    (∀ n, played.1 = .ok n →
      n = visits.length ∧ played.2.1 = f.after visits start ∧
        played.2.2.notices = s.notices) ∧
    ∀ reason, played.1 = .error (.failed reason) →
      played.2.1 = f.after visits start ∧
      ∃ (before : List SegmentView) (segment : SegmentView) (behind : List SegmentView)
        (rows : List (List (ShownItem σ))) (row : List (ShownItem σ)) (stop : Nat),
        tape.views s.store = before ++ segment :: behind ∧
        List.Forall₂ (fun segment row =>
          segment.Displays v tape.reader 0 row segment.data.length) before rows ∧
        segment.Displays v tape.reader 0 row stop ∧
        segment.EndsAt v tape.reader stop (some (.failed reason)) ∧
        visits = (rows.flatten ++ row).map ShownItem.visit ∧
        played.2.2.notices.toList =
          s.notices.toList ++ [.stopped segment.id rows.flatten.length reason] ∧
        (rows.flatten.length = visits.length ↔ stop = 0) := by
  intro played visits
  obtain ⟨rows, outcome, notices, last, htoured, hvisits, hnotices, hplayed⟩ := tape.toured v s
  -- a visitor that gives up at an item ends the playback by its fault
  have hunfaulted : (∀ e, played.1 ≠ .error (.fault e)) →
      played = (outcome, f.after visits start, last) := fun h =>
    (hplayed γ f start).1 (Tape.showAll_of_unfaulted h)
  refine ⟨fun n hok => ?_, fun reason hfailed => ?_⟩
  · have heq := hunfaulted fun e he => by
      rw [hok] at he
      exact absurd he (by simp)
    rw [heq] at hok ⊢
    obtain rfl : outcome = .ok n := hok
    obtain ⟨-, hcount, rfl⟩ := htoured.of_ok
    refine ⟨?_, rfl, Journal.toList_inj.1 (hnotices.trans (List.append_nil _))⟩
    rw [hcount, show visits = _ from hvisits, List.length_map, Nat.zero_add]
  · have heq := hunfaulted fun e he => by
      rw [hfailed] at he
      exact absurd he (by simp)
    rw [heq] at hfailed ⊢
    obtain rfl : outcome = .error (.failed reason) := hfailed
    obtain ⟨before, segment, behind, whole, row, stop, hviews, rfl, hwhole, hrow, hends, rfl⟩ :=
      htoured.of_failed
    rw [Nat.zero_add] at hnotices
    have hshown : visits = (whole.flatten ++ row).map ShownItem.visit := by
      rw [show visits = _ from hvisits, List.flatten_append, List.flatten_singleton]
    refine ⟨rfl, before, segment, behind, whole, row, stop, hviews, hwhole, hrow, hends, hshown,
      hnotices, ?_⟩
    rw [hshown, List.length_map, List.length_append, ← hrow.eq_nil_iff, ← List.length_eq_zero_iff]
    omega

/-- Records a byte item, and a blob behind it. -/
def Sample.stoppedSteps : List (Step Tallies) :=
  [.setWriter (some Sample.dirtyClient), .tryAppend (Sample.uniform Sample.byteKind 9),
   .tryAppend (Sample.blob [1, 2, 3])]

/-- Without a reading client playing stops at the blob. -/
theorem Tape.stop_reported_sample :
    let d := Sample.tapeState.run Sample.stoppedSteps
    let count : Visitor Tallies Nat := fun _ _ seen => (.ok (), seen + 1)
    let played := d.tape.forEach Sample.coreVocabulary count 0 d.session
    played.1 = .error (.failed .missingReadingClient) ∧
    played.2.1 = count.after (d.tape.visits Sample.coreVocabulary d.session) 0 ∧
    ∃ (segment : SegmentView) (shown stop : Nat),
      segment.EndsAt Sample.coreVocabulary d.tape.reader stop
        (some (.failed .missingReadingClient)) ∧
      played.2.2.notices.toList =
        d.session.notices.toList ++ [.stopped segment.id shown .missingReadingClient] := by
  intro d count played
  have hfailed : played.1 = .error (.failed .missingReadingClient) := by decide +kernel
  obtain ⟨-, hreported⟩ := d.tape.stop_reported Sample.coreVocabulary count 0 d.session
  obtain ⟨hafter, before, segment, behind, rows, row, stop, -, -, -, hends, -, hnotices, -⟩ :=
    hreported _ hfailed
  exact ⟨hfailed, hafter, segment, rows.flatten.length, stop, hends, hnotices⟩

/-- The byte item was shown, and it is reported that playing stopped after no items. -/
theorem Tape.stop_miscounted :
    let d := Sample.tapeState.run Sample.stoppedSteps
    let count : Visitor Tallies Nat := fun _ _ seen => (.ok (), seen + 1)
    let played := d.tape.forEach Sample.coreVocabulary count 0 d.session
    played.1 = .error (.failed .missingReadingClient) ∧ played.2.1 = 1 ∧
      played.2.2.notices.toList =
        d.session.notices.toList ++ [.stopped ⟨1⟩ 0 .missingReadingClient] := by
  decide +kernel

end CommandTape
