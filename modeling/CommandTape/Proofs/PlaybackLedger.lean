import CommandTape.Proofs.Slots
import CommandTape.Proofs.Memory
import CommandTape.Tape.Playback

/-!
# What playing leaves behind

Whatever is played, whoever visits it and however playing ends, memory stays as it is, and the items
that are destroyed are those that the reading client put into the slot, each once, unless it puts
the slot away with them (`Tape.forEach_destroys`).
-/

namespace CommandTape

variable {σ γ C : Type}

namespace Decoding

/-- The decoding is an answer of the client. -/
def ComesFrom (d : Decoding) (reader? : Option (ReadingClient σ)) : Prop :=
  ∃ client, reader? = some client ∧
    ∃ blob tag location state, d = (client.decode blob tag location state).1

/-- An answer of a client that keeps the slot does so. -/
theorem ComesFrom.keepsSlot {d : Decoding} {reader? : Option (ReadingClient σ)}
    (h : d.ComesFrom reader?) (hkeeps : ∀ client ∈ reader?, client.KeepsSlot) : d.KeepsSlot := by
  obtain ⟨client, hclient, blob, tag, location, state, rfl⟩ := h
  exact hkeeps client hclient blob tag location state

/-- The items that the decoding puts into the slot. -/
def taken (d : Decoding) : List Item := Slot.taken d.steps

/-- What is to be destroyed of the items that the decoding puts into the empty slot. What goes with
a slot that the client puts away is left to the client. -/
def remains (d : Decoding) : List Item := (Slot.owedBy none d.steps).flatMap Item.remains

/-- If the client keeps the slot, all that is put in is destroyed. -/
theorem KeepsSlot.remains_eq {d : Decoding} (h : d.KeepsSlot) :
    d.remains = d.taken.flatMap Item.remains := by
  rw [remains, Slot.owedBy_of_keepsSlot none h, Option.toList_none, List.nil_append, taken]

theorem runOn_perm (d : Decoding) (slot : Slot) (h : slot.held = []) :
    ((d.runOn slot).2.2 ++ (d.runOn slot).2.1.held).Perm d.remains := by
  have hrun := Slot.run_perm none h d.steps
  rcases heq : slot.run d.steps with ⟨f | _, next, gone⟩
  · rw [heq] at hrun
    simp only [runOn, heq]
    exact hrun
  · rw [heq] at hrun
    simp only [runOn, heq]
    exact hrun

end Decoding

/-- Items that were destroyed are those that answers of the reading client put into the slot, and
left there. -/
def DecodedBy (reader? : Option (ReadingClient σ)) (gone : List Item) : Prop :=
  ∃ decodings : List Decoding, (∀ d ∈ decodings, d.ComesFrom reader?) ∧
    gone.Perm (decodings.flatMap Decoding.remains)

namespace Playback

/-- What part of a playback leaves behind: memory as it was, and in the ledger and the slot together
what was in the slot and what was put into it. -/
structure Leaves (reader? : Option (ReadingClient σ)) (before after : Playback σ γ) : Prop where
  store_eq : after.session.store = before.session.store
  ledger : ∃ (gone : List Item) (decodings : List Decoding),
    after.session.destroyed.toList = before.session.destroyed.toList ++ gone ∧
    (∀ d ∈ decodings, d.ComesFrom reader?) ∧
    (gone ++ after.slot.held).Perm (before.slot.held ++ decodings.flatMap Decoding.remains)

variable {reader? : Option (ReadingClient σ)} {v : Vocabulary C} {f : Visitor σ γ}

namespace Leaves

variable {p p' p'' : Playback σ γ}

/-- A part that touches neither the session nor the slot leaves them behind. -/
theorem of_eq (hstore : p'.session.store = p.session.store)
    (hdestroyed : p'.session.destroyed = p.session.destroyed) (hslot : p'.slot = p.slot) :
    p.Leaves reader? p' := by
  refine ⟨hstore, [], [], ?_, by simp, ?_⟩
  · rw [hdestroyed, List.append_nil]
  · rw [hslot, List.flatMap_nil, List.append_nil, List.nil_append]

theorem refl (p : Playback σ γ) : p.Leaves reader? p := of_eq rfl rfl rfl

theorem trans (h : p.Leaves reader? p') (h' : p'.Leaves reader? p'') : p.Leaves reader? p'' := by
  obtain ⟨hstore, gone, decodings, hgone, hfrom, hperm⟩ := h
  obtain ⟨hstore', gone', decodings', hgone', hfrom', hperm'⟩ := h'
  refine ⟨hstore'.trans hstore, gone ++ gone', decodings ++ decodings', ?_, ?_, ?_⟩
  · rw [hgone', hgone, List.append_assoc]
  · intro d hmem
    rcases List.mem_append.1 hmem with hmem | hmem
    · exact hfrom d hmem
    · exact hfrom' d hmem
  · have hfirst := hperm.append_right (decodings'.flatMap Decoding.remains)
    have hsecond := hperm'.append_left gone
    rw [List.flatMap_append, List.append_assoc]
    rw [List.append_assoc, List.append_assoc] at hfirst
    exact hsecond.trans hfirst

end Leaves

theorem resetSlot_leaves (p : Playback σ γ) : p.Leaves reader? p.resetSlot := by
  refine ⟨rfl, p.slot.held, [], Session.toList_destroyed_destroy _ _, by simp, ?_⟩
  exact List.Perm.refl _

theorem visit_leaves (f : Visitor σ γ) (view : View) (p : Playback σ γ) :
    p.Leaves reader? (p.visit f view).2 := .of_eq rfl rfl rfl

theorem decode_leaves (client : ReadingClient σ) (tag : Tag) (blob : Bytes) (location : Location)
    (p : Playback σ γ) :
    p.Leaves (some client) (p.decode client tag blob location).2 := by
  refine p.resetSlot_leaves.trans ?_
  have hperm := (client.decode blob tag location p.resetSlot.session.clients).1.runOn_perm
    { p.resetSlot.slot with location := location } rfl
  refine ⟨rfl, _, [(client.decode blob tag location p.resetSlot.session.clients).1],
    Session.toList_destroyed_destroy _ _, ?_, ?_⟩
  · intro d hmem
    rw [List.mem_singleton.1 hmem]
    exact ⟨client, rfl, blob, tag, location, _, rfl⟩
  · rw [List.flatMap_singleton]
    exact hperm

theorem visitSlot_leaves (f : Visitor σ γ) (tag : Tag) (p : Playback σ γ) :
    p.Leaves reader? (p.visitSlot f tag).2 := by
  unfold visitSlot
  cases p.slot.view? with
  | none => exact .refl p
  | some view =>
    dsimp only
    by_cases htag : view.tag = tag
    · rw [if_pos htag]
      have hvisit : p.Leaves reader? (p.visit f view).2 := visit_leaves f view p
      rcases heq : p.visit f view with ⟨e | _, p'⟩
      · rw [heq] at hvisit
        exact hvisit
      · rw [heq] at hvisit
        exact hvisit.trans p'.resetSlot_leaves
    · rw [if_neg htag]
      exact p.resetSlot_leaves

theorem playFrame_leaves (reader? : Option (ReadingClient σ)) (f : Visitor σ γ) (frame : Frame)
    (p : Playback σ γ) : p.Leaves reader? (p.playFrame reader? f frame).2 := by
  obtain ⟨location, body⟩ := frame
  cases body with
  | inline view => exact visit_leaves f view p
  | encoded tag blob =>
    cases reader? with
    | none => exact .refl p
    | some client =>
      have hdecode := p.decode_leaves client tag blob location
      rcases heq : p.decode client tag blob location with ⟨h | _, p'⟩
      · rw [heq] at hdecode
        simp only [playFrame, heq]
        exact hdecode
      · rw [heq] at hdecode
        simp only [playFrame, heq]
        exact hdecode.trans (p'.visitSlot_leaves f tag)

theorem playRecords_leaves (v : Vocabulary C) (reader? : Option (ReadingClient σ))
    (f : Visitor σ γ) (segment : SegmentId) (offset count : Nat) (rest : Extent)
    (p : Playback σ γ) :
    p.Leaves reader? (p.playRecords v reader? f segment offset count rest).2 := by
  fun_induction playRecords v reader? f segment offset count rest p with
  | case1 offset count rest p hrest => exact .refl p
  | case2 offset count rest p hrest h hread => exact .refl p
  | case3 offset count rest p hrest frame hread h q hplay =>
    have hframe := p.playFrame_leaves reader? f frame
    rwa [hplay] at hframe
  | case4 offset count rest p hrest frame hread q hplay e hadd =>
    have hframe := p.playFrame_leaves reader? f frame
    rwa [hplay] at hframe
  | case5 offset count rest p hrest frame hread q hplay next hadd ih =>
    have hframe := p.playFrame_leaves reader? f frame
    rw [hplay] at hframe
    exact hframe.trans ih

theorem playViews_leaves (v : Vocabulary C) (reader? : Option (ReadingClient σ)) (f : Visitor σ γ)
    (views : List SegmentView) (count : Nat) (p : Playback σ γ) :
    p.Leaves reader? (p.playViews v reader? f views count).2 := by
  induction views generalizing count p with
  | nil => exact .refl p
  | cons view rest ih =>
    have hsegment := p.playRecords_leaves v reader? f view.id 0 0 view.data
    rw [playViews, playSegment]
    rcases heq : p.playRecords v reader? f view.id 0 0 view.data with ⟨(reason | e) | n, q⟩
    · rw [heq] at hsegment
      exact hsegment.trans (.of_eq rfl rfl rfl)
    · rw [heq] at hsegment
      exact hsegment
    · rw [heq] at hsegment
      exact hsegment.trans (ih (count + n) q)

end Playback

namespace Tape

/-- Visiting the items of a tape leaves memory as it is, and destroys what the reading client put
into the slot. -/
theorem forEach_destroys (tape : Tape σ) (v : Vocabulary C) (f : Visitor σ γ) (visited : γ)
    (s : Session σ) :
    (tape.forEach v f visited s).2.2.store = s.store ∧
    ∃ gone, (tape.forEach v f visited s).2.2.destroyed.toList = s.destroyed.toList ++ gone ∧
      DecodedBy tape.reader gone := by
  have hplayed := Playback.playViews_leaves v tape.reader f (tape.views s.store) 0
    ⟨s, .empty, visited⟩
  obtain ⟨hstore, gone, decodings, hgone, hfrom, hperm⟩ :=
    hplayed.trans (Playback.resetSlot_leaves _)
  refine ⟨hstore, gone, hgone, decodings, hfrom, ?_⟩
  rw [Slot.held_empty, List.nil_append] at hperm
  exact (List.append_nil gone).symm ▸ hperm

/-- Applying the items of a tape leaves behind what visiting them does. -/
theorem session_replay (tape : Tape σ) (v : Vocabulary C) (context : C) (s : Session σ) :
    (tape.replay v context s).2.2 =
      (tape.forEach v (applyUnlessFailed v) (none, context) s).2.2 := by
  unfold replay
  rcases tape.forEach v (applyUnlessFailed v) (none, context) s with ⟨_ | _, ⟨_ | _, _⟩, _⟩ <;> rfl

end Tape

end CommandTape
