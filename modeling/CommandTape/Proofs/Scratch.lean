import CommandTape.Proofs.Grammar
import CommandTape.Samples.Items
import Mathlib.Data.List.Induction

/-!
# Slots over whole runs

Whatever is put into a slot and taken out of it, the slot holds just the item that was put in last,
and shows just the record of that item: what lay in the memory before, and how large that was, does
not matter (`Slot.HoldsJust`). A step destroys what it takes out and nothing else, so every item is
destroyed once, and in the order in which the items came (`Slot.holds_last_item`). A fault ends the
step that it strikes, and not the run.
-/

namespace CommandTape

/-- The step puts in an item that records cannot hold, which is a fault. -/
def SlotStep.isMisfit : SlotStep → Bool
  | emplace item => !item.kind.fits
  | reset => false
  | swap _ => false

/-- The item that the step offers to the slot. -/
def SlotStep.offered? : SlotStep → Option Item
  | emplace item => some item
  | reset => none
  | swap spare => spare.held?

/-- The item that the step puts into the slot. -/
def SlotStep.put? : SlotStep → Option Item
  | emplace item => if item.kind.fits then some item else none
  | reset => none
  | swap spare => spare.held?

namespace Slot

/-! ## Runs -/

/-- What steps leave, if each fault is caught. -/
def after (slot : Slot) : List SlotStep → Slot
  | [] => slot
  | step :: rest => (slot.step step).2.1.after rest

/-- How each step ends, and the items that it destroys. -/
def trace (slot : Slot) : List SlotStep → List (Except Fault Unit × List Item)
  | [] => []
  | step :: rest =>
    let (outcome, next, gone) := slot.step step
    (outcome, gone) :: next.trace rest

/-- The items that are destroyed by steps that do not end in a fault. -/
def released (slot : Slot) (steps : List SlotStep) : List Item :=
  ((slot.trace steps).filter fun entry => entry.1.isOk).flatMap Prod.snd

/-- All items that are destroyed. -/
def destroyed (slot : Slot) (steps : List SlotStep) : List Item :=
  (slot.trace steps).flatMap Prod.snd

/-- The item was put in, and afterwards nothing was put in or taken out. -/
def LastIn (item : Item) (steps : List SlotStep) : Prop :=
  ∃ before since, steps = before ++ .emplace item :: since ∧ item.kind.fits = true ∧
    ∀ step ∈ since, step.isMisfit = true

/-! ## What is held -/

variable {slot : Slot} {held? : Option Item}

namespace HoldsJust

/-- What a step comes to. An item that is put in and a reset destroy what was there; an item that
does not fit is destroyed itself, by a fault, and the slot stays as it is. -/
theorem step_eq (h : slot.HoldsJust held?) {step : SlotStep} (hkeeps : step.keepsSlot = true) :
    (step.isMisfit = false ∧ (slot.step step).1 = .ok () ∧
      (slot.step step).2.2 = held?.toList.flatMap Item.remains) ∨
    ∃ item, step = .emplace item ∧ item.kind.fits = false ∧ slot.step step =
      (.error (.overAligned item.kind.name item.kind.align), slot, item.remains) := by
  cases step with
  | emplace item =>
    cases hfits : item.kind.fits with
    | true =>
      obtain ⟨next, hemplace, -, -⟩ := slot.emplace_of_fits hfits
      refine Or.inl ⟨by simp [SlotStep.isMisfit, hfits], ?_, ?_⟩
      · rw [Slot.step, hemplace]
      · rw [Slot.step, hemplace, ← h.held_eq]
    | false =>
      exact Or.inr ⟨item, rfl, hfits, slot.emplace_of_not_fits (by simp [hfits])⟩
  | reset => exact Or.inl ⟨rfl, rfl, h.held_eq⟩
  | swap spare => exact absurd hkeeps (by simp [SlotStep.keepsSlot])

/-- What steps leave, and where that is shown. -/
theorem after (h : slot.HoldsJust held?) (steps : List SlotStep) :
    (slot.after steps).HoldsJust (steps.foldl heldAfter held?) ∧
      (slot.after steps).location = steps.foldl SlotStep.shownAt slot.location := by
  induction steps generalizing slot held? with
  | nil => exact ⟨h, rfl⟩
  | cons step rest ih =>
    obtain ⟨hnext, hlocation⟩ := h.step step
    obtain ⟨hlast, hrest⟩ := ih hnext
    refine ⟨hlast, hrest.trans ?_⟩
    rw [hlocation, List.foldl_cons]

end HoldsJust

/-! ## The item that was put in last -/

theorem lastIn_concat (item : Item) (steps : List SlotStep) (step : SlotStep) :
    LastIn item (steps ++ [step]) ↔
      (step = .emplace item ∧ item.kind.fits = true) ∨
        step.isMisfit = true ∧ LastIn item steps := by
  constructor
  · rintro ⟨before, since, hsteps, hfits, hmisfits⟩
    rcases List.eq_nil_or_concat since with rfl | ⟨since, last, rfl⟩
    · obtain ⟨-, hstep⟩ := List.append_inj' hsteps rfl
      exact Or.inl ⟨List.singleton_inj.1 hstep, hfits⟩
    · have hsplit : steps ++ [step] = (before ++ .emplace item :: since) ++ [last] := by
        rw [hsteps]
        simp
      obtain ⟨hfront, hstep⟩ := List.append_inj' hsplit rfl
      obtain rfl := List.singleton_inj.1 hstep
      exact Or.inr ⟨hmisfits _ (by simp), before, since, hfront, hfits,
        fun other hother => hmisfits other (by simp [hother])⟩
  · rintro (⟨rfl, hfits⟩ | ⟨hmisfit, before, since, rfl, hfits, hmisfits⟩)
    · exact ⟨steps, [], rfl, hfits, by simp⟩
    · refine ⟨before, since ++ [step], by simp, hfits, ?_⟩
      intro other hother
      rcases List.mem_append.1 hother with hother | hother
      · exact hmisfits other hother
      · rwa [List.mem_singleton.1 hother]

/-- What is held in the end is the item that was put in last. -/
theorem foldl_heldAfter_eq_some_iff {steps : List SlotStep}
    (hkeeps : ∀ step ∈ steps, step.keepsSlot = true) (item : Item) :
    steps.foldl heldAfter none = some item ↔ LastIn item steps := by
  induction steps using List.reverseRecOn with
  | nil => exact iff_of_false (by simp) (by rintro ⟨before, since, hsteps, -⟩; simp at hsteps)
  | append_singleton steps step ih =>
    obtain ⟨hbefore, hstep⟩ := List.forall_mem_append.1 hkeeps
    rw [List.foldl_append, List.foldl_cons, List.foldl_nil, lastIn_concat, ← ih hbefore]
    cases step with
    | emplace other =>
      by_cases hfits : other.kind.fits = true
      · simp only [heldAfter, hfits, ↓reduceIte, SlotStep.isMisfit, Option.some.injEq,
          SlotStep.emplace.injEq]
        grind
      · simp only [heldAfter, hfits, SlotStep.isMisfit, SlotStep.emplace.injEq]
        grind
    | reset => simp [heldAfter, SlotStep.isMisfit]
    | swap spare => exact absurd (List.forall_mem_singleton.1 hstep) (by simp [SlotStep.keepsSlot])

/-! ## What is destroyed -/

/-- What steps that end well destroy, and what is left to destroy behind them, are the items that
were put in, in their order. -/
theorem released_append_held {slot : Slot} {held? : Option Item} (h : slot.HoldsJust held?)
    {steps : List SlotStep} (hkeeps : ∀ step ∈ steps, step.keepsSlot = true) :
    slot.released steps ++ (slot.after steps).held =
      (held?.toList ++ steps.filterMap SlotStep.put?).flatMap Item.remains := by
  induction steps generalizing slot held? with
  | nil => simp [released, trace, after, h.held_eq]
  | cons step rest ih =>
    obtain ⟨hstays, hmore⟩ := List.forall_mem_cons.1 hkeeps
    have hrest := ih (h.step step).1 hmore
    rcases h.step_eq hstays with ⟨hfitting, hok, hgone⟩ | ⟨item, rfl, hfits, hstep⟩
    · have hreleased : slot.released (step :: rest) =
          held?.toList.flatMap Item.remains ++ (slot.step step).2.1.released rest := by
        simp [released, trace, hok, hgone, Except.isOk, Except.toBool]
      have hput : (heldAfter held? step).toList = step.put?.toList := by
        cases step with
        | emplace item =>
          have hfits : item.kind.fits = true := by simpa [SlotStep.isMisfit] using hfitting
          simp [heldAfter, SlotStep.put?, hfits]
        | reset | swap => rfl
      rw [hreleased, after, List.append_assoc, hrest, hput]
      cases hstep : step.put? <;> simp [hstep]
    · have hput : (SlotStep.emplace item).put? = none := by simp [SlotStep.put?, hfits]
      have hheld : heldAfter held? (.emplace item) = held? := by simp [heldAfter, hfits]
      rw [hstep, hheld] at hrest
      have hreleased : slot.released (.emplace item :: rest) = slot.released rest := by
        simp [released, trace, hstep, Except.isOk, Except.toBool]
      rw [hreleased, after, hstep, List.filterMap_cons_none hput]
      exact hrest

/-- All that is destroyed, and left to destroy, is all that was offered, each item once. -/
theorem destroyed_append_held_perm {slot : Slot} {held? : Option Item} (h : slot.HoldsJust held?)
    {steps : List SlotStep} (hkeeps : ∀ step ∈ steps, step.keepsSlot = true) :
    (slot.destroyed steps ++ (slot.after steps).held).Perm
      ((held?.toList ++ steps.filterMap SlotStep.offered?).flatMap Item.remains) := by
  induction steps generalizing slot held? with
  | nil => simp [destroyed, trace, after, h.held_eq]
  | cons step rest ih =>
    obtain ⟨hstays, hmore⟩ := List.forall_mem_cons.1 hkeeps
    have hrest := ih (h.step step).1 hmore
    have hdestroyed : slot.destroyed (step :: rest) =
        (slot.step step).2.2 ++ (slot.step step).2.1.destroyed rest := rfl
    rw [hdestroyed, after, List.append_assoc]
    rcases h.step_eq hstays with ⟨hfitting, -, hgone⟩ | ⟨item, rfl, hfits, hstep⟩
    · have hoffered : (heldAfter held? step).toList = step.offered?.toList := by
        cases step with
        | emplace item =>
          have hfits : item.kind.fits = true := by simpa [SlotStep.isMisfit] using hfitting
          simp [heldAfter, SlotStep.offered?, hfits]
        | reset | swap => rfl
      rw [hoffered] at hrest
      rw [hgone]
      refine (hrest.append_left _).trans (List.Perm.of_eq ?_)
      cases hstep : step.offered? <;> simp [hstep]
    · have hheld : heldAfter held? (.emplace item) = held? := by simp [heldAfter, hfits]
      rw [hstep, hheld] at hrest
      rw [hstep]
      refine (hrest.append_left item.remains).trans ?_
      simp only [List.filterMap_cons, SlotStep.offered?, List.flatMap_append, List.flatMap_cons]
      exact List.perm_append_comm_assoc _ _ _

/-- Whatever is put into a new slot and taken out of it, over-aligned items included, the slot holds
just the item that was put in last, and is empty if it was taken out since or none was put in. Its
view shows just the record of that item, at the slot's location. An item that is put in, a reset and
the end of the slot destroy what is held; an item that does not fit is a fault, which destroys that
item and leaves the slot as it is. So the items that were put in are destroyed in their order, each
once, and all items that were offered are destroyed once. This is about one slot: no other is put in
its place. -/
theorem holds_last_item (location : Location) (steps : List SlotStep)
    (hkeeps : ∀ step ∈ steps, step.keepsSlot = true) :
    let slot := (fresh location).after steps
    (∀ item, LastIn item steps → slot.isEmpty = false ∧ slot.held = item.remains ∧
      ∃ view, slot.view? = some view ∧ view.Shows item ∧ view.location = location ∧
        view.owned = item.owned ∧
        view.record = item.kind.tag :: List.replicate 7 0 ++ item.image ++
          List.replicate (Layout.roundUp item.image.length - item.image.length) 0) ∧
    ((∀ item, ¬LastIn item steps) → slot.isEmpty = true ∧ slot.view? = none ∧ slot.held = []) ∧
    (∀ item, item.kind.fits = true →
      ∃ next, slot.emplace item = (.ok (), next, slot.held) ∧
        LastIn item (steps ++ [.emplace item])) ∧
    (∀ item, item.kind.fits = false → slot.emplace item =
      (.error (.overAligned item.kind.name item.kind.align), slot, item.remains)) ∧
    (fresh location).released steps ++ slot.held =
      (steps.filterMap SlotStep.put?).flatMap Item.remains ∧
    ((fresh location).destroyed steps ++ slot.held).Perm
      ((steps.filterMap SlotStep.offered?).flatMap Item.remains) := by
  intro slot
  have hfresh := holdsJust_fresh location
  obtain ⟨hholds, hlast⟩ := hfresh.after steps
  have hlocation : slot.location = location :=
    hlast.trans (SlotStep.foldl_shownAt hkeeps location)
  refine ⟨?_, ?_, ?_, ?_, released_append_held hfresh hkeeps,
    destroyed_append_held_perm hfresh hkeeps⟩
  · intro item hlast
    rw [(foldl_heldAfter_eq_some_iff hkeeps item).2 hlast] at hholds
    refine ⟨hholds.isEmpty_eq, ?_, View.ofItem item slot.location, hholds.view_eq,
      View.shows_ofItem _ _, hlocation, rfl, rfl⟩
    rw [hholds.held_eq, Option.toList_some, List.flatMap_singleton]
  · intro hnone
    have hempty : steps.foldl heldAfter none = none := by
      rw [Option.eq_none_iff_forall_ne_some]
      intro item hitem
      exact hnone item ((foldl_heldAfter_eq_some_iff hkeeps item).1 hitem)
    rw [hempty] at hholds
    exact ⟨hholds.isEmpty_eq, hholds.view_eq, hholds.held_eq⟩
  · intro item hfits
    obtain ⟨next, hemplace, -, -⟩ := slot.emplace_of_fits hfits
    exact ⟨next, hemplace, (lastIn_concat _ _ _).2 (Or.inl ⟨rfl, hfits⟩)⟩
  · intro item hfits
    exact slot.emplace_of_not_fits (by simp [hfits])

/-- A large item, a smaller one in its place, and one that does not fit: nothing of the first and of
the last is seen. -/
theorem holds_last_item_sample :
    let first := Sample.uniform Sample.trackedBytesKind 0xFF
    let second := Sample.uniform Sample.trackedKind 7
    let misfit := Sample.uniform Sample.overAlignedKind 1
    let steps : List SlotStep := [.emplace first, .emplace second, .emplace misfit]
    let slot := (fresh ⟨⟨1⟩, 8⟩).after steps
    slot.view?.map View.record = some [5, 0, 0, 0, 0, 0, 0, 0, 7, 7, 7, 7, 7, 7, 7, 7] ∧
      slot.held = [second] ∧ (fresh ⟨⟨1⟩, 8⟩).released steps ++ [second] = [first, second] ∧
      (slot.emplace first).2.2 = [second] ∧ (slot.emplace misfit).2.1 = slot := by
  intro first second misfit steps slot
  have hlast : LastIn second steps :=
    ⟨[.emplace first], [.emplace misfit], rfl, by decide, by decide⟩
  obtain ⟨hlasts, -, hfits, hmisfits, hreleased, -⟩ :=
    holds_last_item ⟨⟨1⟩, 8⟩ steps (by decide)
  obtain ⟨-, hheld, view, hview, -, -, -, hrecord⟩ := hlasts second hlast
  obtain ⟨next, hnext, -⟩ := hfits first (by decide)
  have hsecond : slot.held = [second] := hheld
  refine ⟨?_, hsecond, ?_, ?_, ?_⟩
  · rw [hview, Option.map_some, hrecord]
    decide
  · exact (congrArg (_ ++ ·) hsecond.symm).trans hreleased
  · rw [hnext]
    exact hsecond
  · rw [hmisfits misfit (by decide)]

end Slot

end CommandTape
