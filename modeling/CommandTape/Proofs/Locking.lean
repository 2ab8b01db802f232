import CommandTape.Proofs.Spots

/-!
# Segments that are only read

Nothing that a tape does depends on whether the segments that were handed off to it may be written
to: locked, so that asking to write to them would be a fault, they make for the same steps, the same
outcomes and the same memory (`TapeState.Extends.run_lock`, `Tape.Has.clear_lock`).
-/

namespace CommandTape

variable {σ γ C : Type}

namespace Segment

/-- The segment, mapped for reading only. -/
def lock (segment : Segment) : Segment :=
  { segment with
    mapping := { segment.mapping with writable := false }
    capacity_le := segment.capacity_le }

/-- The segments, the first of which are mapped for reading only. -/
def lockFirst (count : Nat) (segments : List Segment) : List Segment :=
  (segments.take count).map lock ++ segments.drop count

variable {count : Nat} {segments : List Segment}

@[simp] theorem length_lockFirst (count : Nat) (segments : List Segment) :
    (lockFirst count segments).length = segments.length := by
  rw [lockFirst, List.length_append, List.length_map, ← List.length_append,
    List.take_append_drop]

theorem lockFirst_concat (h : count ≤ segments.length) (segment : Segment) :
    lockFirst count (segments ++ [segment]) = lockFirst count segments ++ [segment] := by
  rw [lockFirst, lockFirst, List.take_append_of_le_length h, List.drop_append_of_le_length h,
    List.append_assoc]

theorem lockFirst_length (segments : List Segment) :
    lockFirst segments.length segments = segments.map lock := by
  rw [lockFirst, List.take_length, List.drop_length, List.append_nil]

/-- Behind the segments that are locked nothing changes. -/
theorem getElem?_lockFirst (h : count ≤ segments.length) {i : Nat} (hi : count ≤ i) :
    (lockFirst count segments)[i]? = segments[i]? := by
  have hlength : ((segments.take count).map lock).length = count := by
    rw [List.length_map, List.length_take, Nat.min_eq_left h]
  rw [lockFirst, List.getElem?_append_right (by rwa [hlength]), hlength, List.getElem?_drop,
    Nat.add_sub_cancel' hi]

/-- What does not look at whether segments may be written to is the same for locked ones. -/
theorem map_lockFirst {α : Type} {f : Segment → α} (hf : ∀ segment, f segment.lock = f segment)
    (count : Nat) (segments : List Segment) :
    (lockFirst count segments).map f = segments.map f := by
  have hmap : (segments.take count).map (f ∘ lock) = (segments.take count).map f :=
    List.map_congr_left fun segment _ => hf segment
  rw [lockFirst, List.map_append, List.map_map, hmap, ← List.map_append, List.take_append_drop]

theorem total_lockFirst (count : Nat) (segments : List Segment) :
    total (lockFirst count segments) = total segments := by
  have htotal : ∀ l : List Segment, total (l.map lock) = total l := by
    intro l
    induction l with
    | nil => rfl
    | cons segment rest ih =>
      rw [List.map_cons, total, total, ih]
      rfl
  rw [lockFirst, total_append, htotal, ← total_append, List.take_append_drop]

end Segment

namespace Tape

/-- The tape, the first of whose segments are mapped for reading only. -/
def lock (count : Nat) (tape : Tape σ) : Tape σ :=
  { tape with frozen := Segment.lockFirst count tape.frozen }

/-- What an operation on a tape comes to, with the first segments mapped for reading only. -/
def lockIn {α : Type} (count : Nat) (result : α × Tape σ × Session σ) : α × Tape σ × Session σ :=
  (result.1, result.2.1.lock count, result.2.2)

variable {count : Nat} {tape : Tape σ}

theorem lock_ofSegments (segments : List Segment) :
    (ofSegments segments : Tape σ).lock segments.length =
      ofSegments (segments.map Segment.lock) := by
  rw [lock, ofSegments, Segment.lockFirst_length]
  rfl

theorem views_lock (count : Nat) (tape : Tape σ) (store : Store) :
    (tape.lock count).views store = tape.views store := by
  rw [views, views]
  congr 1
  exact Segment.map_lockFirst (fun _ => rfl) count tape.frozen

theorem size_lock (count : Nat) (tape : Tape σ) : (tape.lock count).size = tape.size := by
  rw [size, size]
  congr 1
  exact Segment.total_lockFirst count tape.frozen

/-! ## Recording -/

theorem install_lock (h : count ≤ tape.frozen.length) (segment : Segment) (s : Session σ) :
    (tape.lock count).install segment s = lockIn count (tape.install segment s) := by
  have hwritable : (tape.lock count).writable = tape.writable := rfl
  unfold install
  rw [hwritable]
  cases tape.writable with
  | none => rfl
  | some previous =>
    by_cases hzero : tape.written = 0
    · simp only [lock, hzero, ↓reduceIte, lockIn]
    · simp only [lock, hzero, ↓reduceIte, lockIn]
      cases previous.truncate tape.written with
      | error f => rfl
      | ok cut => simp only [Segment.lockFirst_concat h]

theorem makeRoom_lock (h : count ≤ tape.frozen.length) (size : Nat) (s : Session σ) :
    (tape.lock count).makeRoom size s = lockIn count (tape.makeRoom size s) := by
  have hroom : (tape.lock count).hasRoom size = tape.hasRoom size := rfl
  have hcreate : (tape.lock count).createSegment size s = tape.createSegment size s := rfl
  unfold makeRoom
  rw [hroom, hcreate]
  cases tape.hasRoom size with
  | error f => rfl
  | ok fits =>
    cases fits with
    | true => rfl
    | false =>
      rcases tape.createSegment size s with ⟨h' | segment, s'⟩
      · rfl
      · simp only [install_lock h]
        rfl

theorem reserve_lock (h : count ≤ tape.frozen.length) (size : Nat) (s : Session σ) :
    (tape.lock count).reserve size s = lockIn count (tape.reserve size s) := by
  unfold reserve
  rw [makeRoom_lock h]
  rcases tape.makeRoom size s with ⟨h' | u, next, s'⟩ <;> rfl

theorem storeInline_lock (h : count ≤ tape.frozen.length) (item : Item) (s : Session σ) :
    (tape.lock count).storeInline item s = lockIn count (tape.storeInline item s) := by
  unfold storeInline
  rw [reserve_lock h]
  rcases tape.reserve item.kind.recordSize s with ⟨h' | p, next, s'⟩
  · rfl
  · simp only [lockIn]
    by_cases haligned : p.isAligned = true
    · simp only [haligned, ↓reduceIte, lock, Segment.length_lockFirst]
    · simp only [haligned, Bool.false_eq_true, ↓reduceIte]

theorem storeBlob_lock (h : count ≤ tape.frozen.length) (tag : Tag) (blob : Bytes)
    (s : Session σ) :
    (tape.lock count).storeBlob tag blob s = lockIn count (tape.storeBlob tag blob s) := by
  unfold storeBlob
  by_cases hlen : blob.length < Layout.blobLimit
  · rw [if_pos hlen, if_pos hlen]
    cases Word.encodedSize blob.length with
    | error f => rfl
    | ok size =>
      dsimp only
      rw [reserve_lock h]
      rcases tape.reserve size s with ⟨h' | p, next, s'⟩ <;> rfl
  · rw [if_neg hlen, if_neg hlen]
    rfl

/-- Recording an item comes to the same if the first segments are locked. -/
theorem tryAppend_lock (h : count ≤ tape.frozen.length) (item : Item) (s : Session σ) :
    (tape.lock count).tryAppend item s = lockIn count (tape.tryAppend item s) := by
  have hwriter : (tape.lock count).writer = tape.writer := rfl
  unfold tryAppend
  by_cases hfits : item.kind.fits = true
  · rw [if_pos hfits, if_pos hfits]
    by_cases hinline : item.kind.isInline = true
    · rw [if_pos hinline, if_pos hinline, storeInline_lock h]
      rcases tape.storeInline item s with ⟨h' | u, next, s'⟩ <;> rfl
    · rw [if_neg hinline, if_neg hinline, hwriter]
      cases tape.writer with
      | none => rfl
      | some client =>
        dsimp only
        unfold storeEncoded
        rcases encode client item s with ⟨f | _ | blob, s'⟩
        · rfl
        · rfl
        · exact storeBlob_lock h item.kind.tag blob s'
  · rw [if_neg hfits, if_neg hfits]
    rfl

/-! ## Playing, handing off and clearing -/

theorem forEach_lock (count : Nat) (tape : Tape σ) (v : Vocabulary C) (f : Visitor σ γ) (start : γ)
    (s : Session σ) : (tape.lock count).forEach v f start s = tape.forEach v f start s := by
  unfold forEach
  rw [views_lock]
  rfl

theorem handOff_lock (count : Nat) (tape : Tape σ) (sender : UInt64) (s : Session σ) :
    (tape.lock count).handOff sender s = tape.handOff sender s := by
  unfold handOff
  rw [views_lock, size_lock]

/-- Items are remembered by the place of the segment that their records lie in. -/
theorem segmentIndex_of_mem_remember {id : SegmentId} {index offset : Nat}
    {records : List Recorded} {p : Pending}
    (hmem : p ∈ Recorded.remember id index offset records) : p.segmentIndex = index := by
  induction records generalizing offset with
  | nil => exact absurd hmem List.not_mem_nil
  | cons r rest ih =>
    rcases List.mem_append.1 hmem with hfirst | hrest
    · cases r with
      | inline item hinline =>
        rw [Recorded.pending] at hfirst
        split at hfirst
        · rw [List.mem_singleton.1 hfirst]
        · exact absurd hfirst List.not_mem_nil
      | encoded item blob hinline hlen => exact absurd hfirst List.not_mem_nil
    · exact ih hrest

theorem le_segmentIndex_of_mem_remember {index : Nat} {chapters : List Chapter} {p : Pending}
    (hmem : p ∈ Chapter.remember index chapters) : index ≤ p.segmentIndex := by
  induction chapters generalizing index with
  | nil => exact absurd hmem List.not_mem_nil
  | cons chapter rest ih =>
    rcases List.mem_append.1 hmem with hfirst | hrest
    · exact Nat.le_of_eq (segmentIndex_of_mem_remember hfirst).symm
    · exact Nat.le_of_succ_le (ih hrest)

theorem holder?_lock (h : count ≤ tape.frozen.length) {p : Pending} (hp : count ≤ p.segmentIndex) :
    (tape.lock count).holder? p = tape.holder? p := by
  unfold holder? lock
  simp only [Segment.length_lockFirst, Segment.getElem?_lockFirst h hp]

theorem destroyAll_lock (h : count ≤ tape.frozen.length) {pending : List Pending}
    (hpending : ∀ p ∈ pending, count ≤ p.segmentIndex) (s : Session σ) :
    (tape.lock count).destroyAll pending s = tape.destroyAll pending s := by
  induction pending generalizing s with
  | nil => rfl
  | cons p rest ih =>
    have hfirst : (tape.lock count).destroyPending p s = tape.destroyPending p s := by
      unfold destroyPending
      rw [holder?_lock h (hpending p List.mem_cons_self)]
    unfold destroyAll
    rw [hfirst]
    rcases tape.destroyPending p s with ⟨f | u, s'⟩
    · rfl
    · exact ih (fun other hmem => hpending other (List.mem_cons_of_mem _ hmem)) s'

/-- Clearing comes to the same if the segments that were handed off are locked. -/
theorem Has.clear_lock {s : Session σ} {c : Contents} (h : tape.Has s.store c) :
    (tape.lock c.given.length).clear s = tape.clear s := by
  have hpending : ∀ p ∈ tape.pending.toList, c.given.length ≤ p.segmentIndex := by
    intro p hmem
    rw [h.pending] at hmem
    exact le_segmentIndex_of_mem_remember hmem
  have hlocked : ∀ s : Session σ, (tape.lock c.given.length).destroyAll tape.pending.toList s =
      tape.destroyAll tape.pending.toList s := destroyAll_lock h.length_given_le hpending
  obtain ⟨next, s', heq, -⟩ := h.clear
  have hfields : (tape.lock c.given.length).pending = tape.pending := rfl
  simp only [Tape.clear, hfields, hlocked] at heq ⊢
  generalize (if tape.pending.isEmpty = true then s else
    s.note (.destroying tape.pending.length)) = before at heq ⊢
  rcases hdestroyed : tape.destroyAll tape.pending.toList before with ⟨f | u, after⟩
  · rw [hdestroyed] at heq
    exact absurd (congrArg Prod.fst heq) (by simp)
  · rfl

end Tape

/-! ## In the course of steps -/

/-- The state, with the first of the tape's segments mapped for reading only. -/
def TapeState.lock (count : Nat) (d : TapeState σ) : TapeState σ := ⟨d.tape.lock count, d.session⟩

/-- Every step but clearing comes to the same if the first segments are locked. -/
theorem Step.perform_lock {d : TapeState σ} {count : Nat} (h : count ≤ d.tape.frozen.length)
    {step : Step σ} (hclear : step ≠ .clear) :
    step.perform (d.lock count) = (step.perform d).lock count := by
  have happend : ∀ item, TapeState.ofResult ((d.tape.lock count).tryAppend item d.session) =
      (TapeState.ofResult (d.tape.tryAppend item d.session)).lock count := by
    intro item
    rw [Tape.tryAppend_lock h]
    rfl
  cases step with
  | tryAppend item => exact happend item
  | append item =>
    rw [perform, perform, Tape.ofResult_append, Tape.ofResult_append]
    exact happend item
  | setWriter client => rfl
  | setReader client => rfl
  | createSegment minimum => rfl
  | forEach v f start =>
    have hplayed := d.tape.forEach_lock count v f start d.session
    simp only [perform, TapeState.lock, hplayed]
  | replay v context =>
    have hplayed : (d.tape.lock count).replay v context d.session =
        d.tape.replay v context d.session := by
      unfold Tape.replay
      rw [Tape.forEach_lock]
    simp only [perform, TapeState.lock, hplayed]
  | handOff sender =>
    have hhanded := d.tape.handOff_lock count sender d.session
    simp only [perform, TapeState.lock, hhanded]
  | clear => exact absurd rfl hclear

namespace TapeState.Extends

variable {d : TapeState σ} {store : Store} {given : List Segment} {records : List Recorded}
  {spots : List Spot} {c : Contents}

theorem length_given_le (h : d.Extends store given records spots c) :
    given.length ≤ d.tape.frozen.length :=
  h.given_eq ▸ h.has.length_given_le

/-- Any steps without clearing come to the same if the segments that were handed off are locked. -/
theorem run_lock (h : d.Extends store given records spots c) {steps : List (Step σ)}
    (hclear : Step.clear ∉ steps) :
    (d.lock given.length).run steps = (d.run steps).lock given.length := by
  induction steps generalizing d records spots c with
  | nil => rfl
  | cons step rest ih =>
    have hstep : step ≠ .clear := fun heq => hclear (heq ▸ List.mem_cons_self)
    obtain ⟨c', h'⟩ := Step.extends_perform h hstep
    rw [run, run, Step.perform_lock h.length_given_le hstep]
    exact ih h' fun hmem => hclear (List.mem_cons_of_mem _ hmem)

/-- So does recording one more item. -/
theorem lock_tryAppend (h : d.Extends store given records spots c) (item : Item) :
    ((d.lock given.length).tape.tryAppend item d.session).1 =
      (d.tape.tryAppend item d.session).1 := by
  rw [TapeState.lock, Tape.tryAppend_lock h.length_given_le]
  rfl

/-- And so does clearing. -/
theorem lock_clear (h : d.Extends store given records spots c) :
    (d.lock given.length).tape.clear d.session = d.tape.clear d.session := by
  rw [← h.given_eq]
  exact h.has.clear_lock

end TapeState.Extends

end CommandTape
