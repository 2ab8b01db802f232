import CommandTape.Proofs.Steps

/-!
# Where the memory of segments comes from

Every segment of a tape is the front of a mapping that it was handed off with, or that the tape
obtained, from its client or of its own (`Tape.DrawsOn`). So what holds of those mappings holds of
all (`TapeState.mappings_run`). A mapping that is obtained is shared under a name of its own memory,
if it is shared at all (`Tape.Obtains.sharesItself`).
-/

namespace CommandTape

variable {σ : Type}

/-- A descriptor of the mapping that stands for memory stands for the mapped block. -/
def Mapping.SharesItself (m : Mapping) : Prop :=
  ∀ block, m.descriptor = some (.memory block) → block = m.block

/-- What a client's segment is the front of. -/
theorem Session.mapping_adopt (s : Session σ) (offer : Offer) :
    (s.adopt offer).1.mapping.block = s.store.next ∧
      (s.adopt offer).1.mapping.length = offer.block.size ∧
      (s.adopt offer).1.mapping.address = offer.address ∧
      (s.adopt offer).1.mapping.writable = offer.writable ∧
      (s.adopt offer).1.mapping.descriptor = (match offer.sharing with
        | .kept => none
        | .shared => some (.memory s.store.next)
        | .broken => some .closed) := by
  unfold adopt
  cases offer.id <;> exact ⟨rfl, rfl, rfl, rfl, rfl⟩

namespace Tape

/-- The mappings that the tape's segments are the fronts of. -/
def mappings (tape : Tape σ) : List Mapping :=
  (tape.frozen ++ tape.writable.toList).map Segment.mapping

/-- The tape can obtain a segment that is the front of the mapping. -/
def Obtains (tape : Tape σ) (m : Mapping) : Prop :=
  ∃ minimum s segment s', tape.createSegment minimum s = (.ok segment, s') ∧ segment.mapping = m

/-- Every mapping is one that there was before, or one that can be obtained. -/
def DrawsOn (tape next : Tape σ) : Prop :=
  ∀ m ∈ next.mappings, m ∈ tape.mappings ∨ tape.Obtains m

variable {tape next : Tape σ} {s s' : Session σ} {segment : Segment} {m : Mapping}

theorem mem_mappings_of_frozen (h : segment ∈ tape.frozen) : segment.mapping ∈ tape.mappings :=
  List.mem_map_of_mem (List.mem_append_left _ h)

theorem mem_mappings_of_writable (h : tape.writable = some segment) :
    segment.mapping ∈ tape.mappings := by
  refine List.mem_map_of_mem (List.mem_append_right _ ?_)
  rw [h]
  exact List.mem_singleton_self segment

/-- Every chapter lies in one of the tape's mappings. -/
theorem Has.mem_mappings {store : Store} {c : Contents} (h : tape.Has store c) {chapter : Chapter}
    (hmem : chapter ∈ c.chapters) : chapter.segment.mapping ∈ tape.mappings := by
  rcases List.mem_append.1 hmem with hfull | hcurrent
  · refine mem_mappings_of_frozen ?_
    rw [h.frozen]
    exact List.mem_append_right _ (List.mem_map_of_mem hfull)
  · refine mem_mappings_of_writable ?_
    rw [h.writable, Option.mem_toList.1 hcurrent, Option.map_some]

theorem Fresh.mappings_eq {store : Store} {segments : List Segment}
    (h : tape.Fresh store segments) : tape.mappings = segments.map Segment.mapping := by
  rw [mappings, h.frozen_eq, h.writable_eq, Option.toList_none, List.append_nil]

/-! ## What is obtained -/

/-- A segment from a client is what the client offered. -/
theorem supplied_eq_ok {client : WritingClient σ} {size : Nat}
    (h : supplied client size s = (.ok segment, s')) :
    ∃ supply clients offer, client.supply size s.nextId s.clients = (.ok supply, clients) ∧
      supply.offer = some offer ∧
      segment = ((s.asked supply clients).adopt offer).1 := by
  unfold supplied at h
  split at h
  · cases h
  · rename_i supply clients hsupply
    dsimp only at h
    split at h
    · cases h
    · rename_i offer hoffer
      refine ⟨supply, clients, offer, hsupply, hoffer, ?_⟩
      split at h
      · cases h
      · split at h
        · exact (Except.ok.inj (Prod.mk.inj h).1).symm
        · cases h

/-- A tape's own memory is not shared, and not larger than what may be had. -/
theorem allocated_eq_ok {capacity : Nat} (h : allocated capacity s = (.ok segment, s')) :
    segment.mapping.descriptor = none ∧ segment.capacity < s.store.machine.heapLimit := by
  unfold allocated Session.allocate at h
  split at h
  · cases h
  · rename_i own t hown
    obtain rfl : own = segment := Except.ok.inj (Prod.mk.inj h).1
    split at hown
    · cases hown
    · split at hown
      · rename_i hlt
        rw [← Except.ok.inj (Prod.mk.inj hown).1]
        exact ⟨rfl, hlt.2⟩
      · cases hown

/-- A segment is one that the writing client offered, or lies in the tape's own memory. -/
theorem createSegment_eq_ok {minimum : Nat}
    (h : tape.createSegment minimum s = (.ok segment, s')) :
    (∃ client size supply clients offer, tape.writer = some client ∧
      client.supply size s.nextId s.clients = (.ok supply, clients) ∧ supply.offer = some offer ∧
      segment = ((s.asked supply clients).adopt offer).1) ∨
    tape.writer = none ∧ segment.mapping.descriptor = none := by
  unfold createSegment at h
  split at h
  · cases h
  · rename_i size halign
    cases hwriter : tape.writer with
    | none =>
      rw [hwriter] at h
      exact Or.inr ⟨rfl, (allocated_eq_ok h).1⟩
    | some client =>
      rw [hwriter] at h
      obtain ⟨supply, clients, offer, hsupply, hoffer, hsegment⟩ := supplied_eq_ok h
      exact Or.inl ⟨client, size, supply, clients, offer, rfl, hsupply, hoffer, hsegment⟩

theorem Obtains.sharesItself (h : tape.Obtains m) : m.SharesItself := by
  obtain ⟨minimum, s, segment, s', hcreate, rfl⟩ := h
  intro block hdescriptor
  rcases createSegment_eq_ok hcreate with
    ⟨client, size, supply, clients, offer, -, -, -, rfl⟩ | ⟨-, hnone⟩
  · obtain ⟨hblock, -, -, -, hshared⟩ :=
      Session.mapping_adopt (s.asked supply clients) offer
    rw [hdescriptor] at hshared
    rw [hblock]
    cases hsharing : offer.sharing with
    | shared =>
      rw [hsharing] at hshared
      exact Descriptor.memory.inj (Option.some.inj hshared)
    | kept =>
      rw [hsharing] at hshared
      cases hshared
    | broken =>
      rw [hsharing] at hshared
      cases hshared
  · rw [hdescriptor] at hnone
    cases hnone

/-! ## Where mappings come from -/

/-- Nothing was drawn on if the segments are the same. -/
theorem drawsOn_of_eq (hfrozen : next.frozen = tape.frozen)
    (hwritable : next.writable = tape.writable) : tape.DrawsOn next := by
  intro m hmem
  rw [mappings, hfrozen, hwritable] at hmem
  exact Or.inl hmem

theorem DrawsOn.of_eq {last : Tape σ} (h : tape.DrawsOn next) (hfrozen : last.frozen = next.frozen)
    (hwritable : last.writable = next.writable) : tape.DrawsOn last := by
  intro m hmem
  refine h m ?_
  rw [mappings, hfrozen, hwritable] at hmem
  exact hmem

/-- The segment that is installed comes behind those that are only read, and behind the one before
it, which is cut to what was written, if that is anything. A fault in cutting leaves what is only
read. -/
theorem segments_install (tape : Tape σ) (segment : Segment) (s : Session σ) :
    let next := (tape.install segment s).2.1
    next.frozen ++ next.writable.toList = tape.frozen ++ [segment] ∨
    (∃ previous, tape.writable = some previous ∧
      next.frozen ++ next.writable.toList =
        tape.frozen ++ [previous.cut tape.written, segment]) ∨
    next.frozen ++ next.writable.toList = tape.frozen := by
  unfold install
  cases hprevious : tape.writable with
  | none => exact Or.inl rfl
  | some previous =>
    dsimp only
    by_cases hzero : tape.written = 0
    · rw [if_pos hzero]
      exact Or.inl rfl
    · rw [if_neg hzero]
      by_cases hle : tape.written ≤ previous.capacity
      · rw [Segment.truncate_eq_cut hle]
        exact Or.inr (Or.inl ⟨previous, rfl, List.append_assoc _ _ _⟩)
      · rw [Segment.truncate, dif_neg hle]
        exact Or.inr (Or.inr (List.append_nil _))

/-- The segment that is installed is obtained; the one before it is only cut. -/
theorem drawsOn_install (h : tape.Obtains segment.mapping) (s : Session σ) :
    tape.DrawsOn (tape.install segment s).2.1 := by
  intro m hmem
  obtain ⟨other, hother, rfl⟩ := List.mem_map.1 hmem
  rcases tape.segments_install segment s with heq | ⟨previous, hprevious, heq⟩ | heq
  · rw [heq] at hother
    rcases List.mem_append.1 hother with hfrozen | hnew
    · exact Or.inl (mem_mappings_of_frozen hfrozen)
    · rw [List.mem_singleton.1 hnew]
      exact Or.inr h
  · rw [heq] at hother
    rcases List.mem_append.1 hother with hfrozen | hlast
    · exact Or.inl (mem_mappings_of_frozen hfrozen)
    · rcases List.mem_cons.1 hlast with rfl | hnew
      · exact Or.inl (@mem_mappings_of_writable _ tape previous hprevious)
      · rw [List.mem_singleton.1 hnew]
        exact Or.inr h
  · rw [heq] at hother
    exact Or.inl (mem_mappings_of_frozen hother)

theorem drawsOn_makeRoom (tape : Tape σ) (size : Nat) (s : Session σ) :
    tape.DrawsOn (tape.makeRoom size s).2.1 := by
  unfold makeRoom
  cases tape.hasRoom size with
  | error f => exact drawsOn_of_eq rfl rfl
  | ok fits =>
    cases fits with
    | true => exact drawsOn_of_eq rfl rfl
    | false =>
      dsimp only
      rcases hcreate : tape.createSegment size s with ⟨h | segment, s'⟩
      · exact drawsOn_of_eq rfl rfl
      · exact drawsOn_install ⟨size, s, segment, s', hcreate, rfl⟩ s'

theorem drawsOn_reserve (tape : Tape σ) (size : Nat) (s : Session σ) :
    tape.DrawsOn (tape.reserve size s).2.1 := by
  have hroom := tape.drawsOn_makeRoom size s
  unfold reserve
  generalize tape.makeRoom size s = made at hroom ⊢
  rcases made with ⟨h | u, next, s'⟩
  · exact hroom
  · exact hroom

theorem drawsOn_storeInline (tape : Tape σ) (item : Item) (s : Session σ) :
    tape.DrawsOn (tape.storeInline item s).2.1 := by
  have hreserve := tape.drawsOn_reserve item.kind.recordSize s
  unfold storeInline
  generalize tape.reserve item.kind.recordSize s = reserved at hreserve ⊢
  rcases reserved with ⟨h | p, next, s'⟩
  · exact hreserve
  · dsimp only
    by_cases haligned : p.isAligned = true
    · rw [if_pos haligned]
      exact hreserve.of_eq rfl rfl
    · rw [if_neg haligned]
      exact hreserve

theorem drawsOn_storeBlob (tape : Tape σ) (tag : Tag) (blob : Bytes) (s : Session σ) :
    tape.DrawsOn (tape.storeBlob tag blob s).2.1 := by
  unfold storeBlob
  by_cases hlen : blob.length < Layout.blobLimit
  · rw [if_pos hlen, Word.encodedSize_of_lt hlen]
    have hreserve := tape.drawsOn_reserve (Layout.encodedSize blob.length) s
    dsimp only
    generalize tape.reserve (Layout.encodedSize blob.length) s = reserved at hreserve ⊢
    rcases reserved with ⟨h | p, next, s'⟩
    · exact hreserve
    · exact hreserve.of_eq rfl rfl
  · rw [if_neg hlen]
    exact drawsOn_of_eq rfl rfl

/-- Recording an item draws on what the tape obtains. -/
theorem drawsOn_tryAppend (tape : Tape σ) (item : Item) (s : Session σ) :
    tape.DrawsOn (tape.tryAppend item s).2.1 := by
  unfold tryAppend
  by_cases hfits : item.kind.fits = true
  · rw [if_pos hfits]
    by_cases hinline : item.kind.isInline = true
    · have hstored := tape.drawsOn_storeInline item s
      rw [if_pos hinline]
      generalize tape.storeInline item s = stored at hstored ⊢
      rcases stored with ⟨h | u, next, s'⟩
      · exact hstored
      · exact hstored
    · rw [if_neg hinline]
      cases tape.writer with
      | none => exact drawsOn_of_eq rfl rfl
      | some client =>
        dsimp only [storeEncoded]
        rcases encode client item s with ⟨f | _ | blob, s'⟩
        · exact drawsOn_of_eq rfl rfl
        · exact drawsOn_of_eq rfl rfl
        · exact tape.drawsOn_storeBlob item.kind.tag blob s'
  · rw [if_neg hfits]
    exact drawsOn_of_eq rfl rfl

/-- Clearing lets go of segments, and of none if it comes to a fault. -/
theorem drawsOn_clear (tape : Tape σ) (s : Session σ) :
    tape.DrawsOn (tape.clear s).2.1 := by
  unfold clear
  dsimp only
  rcases tape.destroyAll tape.pending.toList
    (if tape.pending.isEmpty then s else s.note (.destroying tape.pending.length)) with ⟨f | u, s'⟩
  · exact drawsOn_of_eq rfl rfl
  · intro m hmem
    exact absurd hmem List.not_mem_nil

end Tape

/-- Every step draws on what the tape obtains. -/
theorem Step.drawsOn_perform (d : TapeState σ) (step : Step σ) :
    d.tape.DrawsOn (step.perform d).tape := by
  cases step with
  | tryAppend item => exact d.tape.drawsOn_tryAppend item d.session
  | append item =>
    rw [perform, Tape.ofResult_append]
    exact d.tape.drawsOn_tryAppend item d.session
  | clear => exact d.tape.drawsOn_clear d.session
  | _ => exact Tape.drawsOn_of_eq rfl rfl

/-- What holds of all mappings that there are and of all that are obtained holds of all that there
are after any steps. -/
theorem TapeState.mappings_run {P : Mapping → Prop} {d : TapeState σ}
    (hstart : ∀ m ∈ d.tape.mappings, P m)
    (hobtains : ∀ (tape : Tape σ) m, tape.Obtains m → P m) (steps : List (Step σ)) :
    ∀ m ∈ (d.run steps).tape.mappings, P m := by
  induction steps generalizing d with
  | nil => exact hstart
  | cons step rest ih =>
    refine ih fun m hmem => ?_
    rcases step.drawsOn_perform d m hmem with hbefore | hnew
    · exact hstart m hbefore
    · exact hobtains d.tape m hnew

end CommandTape
