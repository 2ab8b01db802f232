import CommandTape.Proofs.Steps

/-!
# Every item is destroyed once

An item that is moved into a tape is destroyed in the course of that, unless its record is on the
tape then and holds it; then it is destroyed when the tape is cleared for the first time after that,
or goes, which clears it too. No step destroys anything else, but for what the reading client puts
into the slot while the tape is played.
-/

namespace CommandTape

variable {σ : Type} {d : TapeState σ} {given : List Segment} {records : List Recorded}

/-! ## Single steps -/

/-- What is destroyed while an item is recorded: the item, unless it lies in its record then. -/
def Tape.lost (tape : Tape σ) (item : Item) (s : Session σ) : List Item :=
  match (tape.tryAppend item s).1 with
  | .ok () => if item.kind.isInline then [] else item.remains
  | .error _ => item.remains

namespace Step

/-- What a step destroys of a tape with the given records. -/
def Destroys (d : TapeState σ) (records : List Recorded) (gone : List Item) : Step σ → Prop
  | tryAppend item => gone = d.tape.lost item d.session
  | append item => gone = d.tape.lost item d.session
  | forEach _ _ _ => DecodedBy d.tape.reader gone
  | replay _ _ => DecodedBy d.tape.reader gone
  | clear => gone = records.flatMap Recorded.owed
  | _ => gone = []

/-- What a step destroys of the items that were moved into the tape. -/
def own (step : Step σ) (gone : List Item) : List Item :=
  match step with
  | forEach _ _ _ => []
  | replay _ _ => []
  | _ => gone

end Step

theorem TapeState.Holds.destroyed_tryAppend (h : d.Holds given records) (item : Item) :
    (TapeState.ofResult (d.tape.tryAppend item d.session)).session.destroyed.toList =
      d.session.destroyed.toList ++ d.tape.lost item d.session := by
  obtain ⟨c, hhas, -, -⟩ := h
  have happended := hhas.tryAppend item
  unfold Tape.lost
  generalize d.tape.tryAppend item d.session = result at happended
  cases happended with
  | refused h' s' hkept hgone => exact hgone
  | readOnly next s' segment hreadOnly hkept hsame hnext hgone => exact hgone
  | dropped s' hinline hrecord hkept hgone =>
    rw [hinline, if_neg Bool.false_ne_true]
    exact hgone
  | stored r next s' c' chapter hrecord hkept hsame hturn hc hnext hgone => exact hgone

/-- Every step destroys what it is said to, and enters it into the ledger. -/
theorem Step.destroys_perform (h : d.Holds given records) (step : Step σ) :
    ∃ gone, step.Destroys d records gone ∧
      (step.perform d).session.destroyed.toList = d.session.destroyed.toList ++ gone := by
  cases step with
  | tryAppend item => exact ⟨_, rfl, h.destroyed_tryAppend item⟩
  | append item =>
    refine ⟨_, rfl, ?_⟩
    rw [perform, Tape.ofResult_append]
    exact h.destroyed_tryAppend item
  | setWriter client => exact ⟨[], rfl, (List.append_nil _).symm⟩
  | setReader client => exact ⟨[], rfl, (List.append_nil _).symm⟩
  | createSegment minimum =>
    refine ⟨[], rfl, ?_⟩
    rw [List.append_nil, perform, (d.tape.keptIn_createSegment minimum d.session).destroyed_eq]
  | forEach v f start =>
    obtain ⟨-, gone, hgone, hdecoded⟩ := d.tape.forEach_destroys v f start d.session
    exact ⟨gone, hdecoded, hgone⟩
  | replay v context =>
    obtain ⟨-, gone, hgone, hdecoded⟩ :=
      d.tape.forEach_destroys v (Tape.applyUnlessFailed v) (none, context) d.session
    refine ⟨gone, hdecoded, ?_⟩
    rw [perform, d.tape.session_replay]
    exact hgone
  | handOff sender =>
    refine ⟨[], rfl, ?_⟩
    rw [List.append_nil, perform, d.tape.destroyed_handOff]
  | clear =>
    obtain ⟨c, hhas, -, rfl⟩ := h
    obtain ⟨next, s', heq, -, hgone, -, -⟩ := hhas.clear
    refine ⟨_, rfl, ?_⟩
    rw [perform, heq]
    exact hgone

/-- An item that is moved into a tape is destroyed at once, or its record owes that, but not
both. -/
theorem Tape.lost_append_owed (tape : Tape σ) (item : Item) (s : Session σ) :
    tape.lost item s ++ (tape.recorded item s).flatMap Recorded.owed = item.remains := by
  unfold lost recorded
  cases (tape.tryAppend item s).1 with
  | error h => exact List.append_nil _
  | ok u =>
    by_cases hinline : item.kind.isInline = true
    · simp [recordOf, hinline, Recorded.owed]
    · have howed : ∀ r ∈ (tape.recordOf item s).toList, r.owed = [] := by
        intro r hr
        have hrecord : tape.recordOf item s = some r := Option.mem_toList.1 hr
        cases r with
        | inline other hother =>
          simp only [recordOf, hinline, Bool.false_eq_true, ↓reduceDIte] at hrecord
          split at hrecord
          · exact absurd hrecord (by simp)
          · split at hrecord
            · split at hrecord <;> exact absurd hrecord (by simp)
            · exact absurd hrecord (by simp)
        | encoded other blob hother hlen => rfl
      rw [if_neg hinline, List.flatMap_eq_nil_iff.2 howed, List.append_nil]

/-- A step destroys what was moved into the tape, or leaves it to be destroyed. -/
theorem Step.Destroys.perm {step : Step σ} {gone : List Item}
    (h : step.Destroys d records gone) :
    (step.own gone ++ (step.log d records).flatMap Recorded.owed).Perm
      (records.flatMap Recorded.owed ++ step.handed.flatMap Item.remains) := by
  have hrecording {item : Item} :
      (d.tape.lost item d.session ++
        (records ++ d.tape.recorded item d.session).flatMap Recorded.owed).Perm
        (records.flatMap Recorded.owed ++ item.remains) := by
    rw [List.flatMap_append, ← d.tape.lost_append_owed item d.session, ← List.append_assoc,
      ← List.append_assoc]
    exact List.perm_append_comm.append_right _
  cases step with
  | tryAppend item =>
    obtain rfl : gone = d.tape.lost item d.session := h
    rw [handed, List.flatMap_singleton]
    exact hrecording
  | append item =>
    obtain rfl : gone = d.tape.lost item d.session := h
    rw [handed, List.flatMap_singleton]
    exact hrecording
  | clear =>
    obtain rfl : gone = records.flatMap Recorded.owed := h
    exact .refl _
  | forEach v f start => simp [own, log, handed]
  | replay v context => simp [own, log, handed]
  | _ =>
    obtain rfl : gone = [] := h
    simp [own, log, handed]

/-! ## Runs -/

namespace TapeState

/-- What steps destroy one after the other. -/
inductive Ledger : TapeState σ → List Recorded → List (Step σ) → List (List Item) → Prop
  | nil (d : TapeState σ) (records : List Recorded) : Ledger d records [] []
  | cons {d : TapeState σ} {records : List Recorded} {step : Step σ} {rest : List (Step σ)}
      {gone : List Item} {later : List (List Item)} (hgone : step.Destroys d records gone)
      (hlater : Ledger (step.perform d) (step.log d records) rest later) :
      Ledger d records (step :: rest) (gone :: later)

/-- Steps enter into the ledger what they destroy, and nothing else. -/
theorem ledger_run (h : d.Holds given records) (steps : List (Step σ)) :
    ∃ gones, d.Ledger records steps gones ∧
      (d.run steps).session.destroyed.toList = d.session.destroyed.toList ++ gones.flatten := by
  induction steps generalizing d given records with
  | nil => exact ⟨[], .nil d records, (List.append_nil _).symm⟩
  | cons step rest ih =>
    obtain ⟨gone, hgone, hdestroyed⟩ := step.destroys_perform h
    obtain ⟨later, hlater, hrest⟩ := ih (step.holds_perform h)
    refine ⟨gone :: later, .cons hgone hlater, ?_⟩
    rw [run, hrest, hdestroyed, List.flatten_cons, List.append_assoc]

/-- The ledger balances: what steps destroyed, and what is left to destroy after them, is what was
left before them and what was moved into the tape. -/
theorem Ledger.perm {steps : List (Step σ)} {gones : List (List Item)}
    (h : d.Ledger records steps gones) :
    ((List.zipWith Step.own steps gones).flatten ++
      (d.log records steps).flatMap Recorded.owed).Perm
      (records.flatMap Recorded.owed ++ (steps.flatMap Step.handed).flatMap Item.remains) := by
  induction h with
  | nil d records => simp [log]
  | @cons d records step rest gone later hgone hlater ih =>
    have hstep := hgone.perm.append_right ((rest.flatMap Step.handed).flatMap Item.remains)
    have hrest := ih.append_left (step.own gone)
    rw [List.append_assoc, List.append_assoc] at hstep
    rw [List.zipWith_cons_cons, List.flatten_cons, List.append_assoc, log, List.flatMap_cons,
      List.flatMap_append]
    exact hrest.trans hstep

/-- Whatever is done with a tape: each step destroys what it is said to and nothing else; when the
tape goes, what its records owe is destroyed in the order of recording; and by then each item that
was moved into the tape and asks for it was destroyed once. -/
theorem destroyed_once {d : TapeState σ} {segments : List Segment}
    (hfresh : d.tape.Fresh d.session.store segments) (steps : List (Step σ)) :
    let last := d.run steps
    let owed := (d.log [] steps).flatMap Recorded.owed
    ∃ gones next s', d.Ledger [] steps gones ∧
      last.session.destroyed.toList = d.session.destroyed.toList ++ gones.flatten ∧
      last.tape.clear last.session = (.ok (), next, s') ∧
      s'.destroyed.toList = last.session.destroyed.toList ++ owed ∧
      ((List.zipWith Step.own steps gones).flatten ++ owed).Perm
        ((steps.flatMap Step.handed).flatMap Item.remains) := by
  intro last owed
  have hholds : d.Holds segments [] := hfresh.holds
  obtain ⟨gones, hledger, hdestroyed⟩ := ledger_run hholds steps
  obtain ⟨c, hhas, -, hrecords⟩ := holds_run hholds steps
  obtain ⟨next, s', hclear, -, hgone, -, -⟩ := hhas.clear
  rw [hrecords] at hgone
  exact ⟨gones, next, s', hledger, hdestroyed, hclear, hgone, hledger.perm⟩

/-- An encoded item is destroyed when it is recorded, and an inline one when the tape goes. -/
theorem destroyed_once_sample :
    let last := Sample.tapeState.run Sample.steps
    ∃ next s', last.tape.clear last.session = (.ok (), next, s') ∧
      s'.destroyed.toList = [Sample.blob [1, 2, 3], Sample.uniform Sample.trackedKind 7] := by
  have hmade : Tape.withCapacity 12 = .ok Sample.tapeState.tape := rfl
  have hbefore : (Sample.tapeState.run Sample.steps).session.destroyed.toList =
      [Sample.blob [1, 2, 3]] := rfl
  have howed : (Sample.tapeState.log [] Sample.steps).flatMap Recorded.owed =
      [Sample.uniform Sample.trackedKind 7] := rfl
  obtain ⟨gones, next, s', -, -, hclear, hgone, -⟩ :=
    destroyed_once (d := Sample.tapeState) (.withCapacity hmade) Sample.steps
  refine ⟨next, s', hclear, ?_⟩
  rw [hgone, hbefore, howed]
  rfl

end TapeState

end CommandTape
