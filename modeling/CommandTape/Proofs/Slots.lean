import CommandTape.Client

/-!
# Items in views and slots

A view shows an item if it has the item's tag and is the item when it is seen as one of its kind;
the view of an item's record does (`View.shows_of_record`). What a slot destroys and what it still
holds in the end are together what it owes (`Slot.run_perm`): what it held and what was put into it,
each once, unless another slot was put in its place (`Slot.owedBy_of_keepsSlot`).
-/

namespace CommandTape

namespace Record

theorem drop_header (tag : Tag) (rest : Bytes) :
    (header tag ++ rest).drop Layout.headerSize = rest :=
  List.drop_left' (length_header tag)

theorem drop_inline (item : Item) :
    (inline item).drop Layout.headerSize = item.image ++ padding item.image.length := by
  rw [inline, List.append_assoc, drop_header]

end Record

namespace View

/-- The view has the item's tag, and is the item. -/
def Shows (view : View) (item : Item) : Prop :=
  view.tag = item.kind.tag ∧ view.get item.kind = .ok item

/-- A view of an item's record shows the item. -/
theorem shows_of_record {view : View} {item : Item} (hrecord : view.record = Record.inline item)
    (howned : view.owned = item.owned) : view.Shows item := by
  obtain ⟨record, owned, location, hheader⟩ := view
  obtain rfl : record = Record.inline item := hrecord
  obtain rfl : owned = item.owned := howned
  have hlen := Record.length_inline item
  refine ⟨rfl, ?_⟩
  have hkind : hasKind ⟨Record.inline item, item.owned, location, hheader⟩ item.kind = true :=
    decide_eq_true rfl
  have hsize : item.kind.recordSize ≤
      length ⟨Record.inline item, item.owned, location, hheader⟩ := Nat.le_of_eq hlen.symm
  rw [get, if_pos hkind, if_pos hsize, Record.drop_inline, Item.read_image]

/-- The view of an item at a location. -/
def ofItem (item : Item) (location : Location) : View where
  record := Record.inline item
  owned := item.owned
  location := location
  header_le := by
    rw [Record.length_inline]
    exact item.kind.headerSize_le_recordSize

theorem shows_ofItem (item : Item) (location : Location) : (ofItem item location).Shows item :=
  shows_of_record rfl rfl

end View

namespace Slot

/-- What is left to destroy in the slot. -/
def held (slot : Slot) : List Item := slot.reset.2

/-- The slot shows the item. -/
def Shows (slot : Slot) (item : Item) : Prop := ∃ view, slot.view? = some view ∧ view.Shows item

@[simp] theorem held_empty : empty.held = [] := rfl

theorem view?_of_isEmpty {slot : Slot} (h : slot.isEmpty = true) : slot.view? = none := by
  have hlength : slot.length = 0 := of_decide_eq_true h
  have hheader : ¬Layout.headerSize ≤ (slot.scratch.take slot.length).length := by
    rw [hlength, List.take_zero]
    decide
  exact dif_neg hheader

theorem isEmpty_of_view? {slot : Slot} {view : View} (h : slot.view? = some view) :
    slot.isEmpty = false := by
  rw [← Bool.not_eq_true]
  intro hempty
  rw [view?_of_isEmpty hempty] at h
  cases h

theorem location_emplace (slot : Slot) (item : Item) :
    (slot.emplace item).2.1.location = slot.location := by
  unfold emplace
  split <;> rfl

/-- An item that is put in takes the place of what was there, which is destroyed. -/
theorem emplace_of_fits (slot : Slot) {item : Item} (h : item.kind.fits = true) :
    ∃ next, slot.emplace item = (.ok (), next, slot.held) ∧ next.held = item.remains ∧
      next.view? = some (View.ofItem item slot.location) := by
  have hlen := Record.length_inline item
  have hsize := item.kind.headerSize_le_recordSize
  rw [emplace, if_pos h]
  refine ⟨_, rfl, ?_, ?_⟩
  · have hitem : Item.read item.kind
        ((Record.inline item ++ slot.scratch.drop (Record.inline item).length).drop
          Layout.headerSize) item.owned = item := by
      rw [List.drop_append_of_le_length (by omega), Record.drop_inline, List.append_assoc,
        Item.read_image]
    unfold Item.remains
    cases hdrop : item.kind.needsDrop with
    | true => exact congrArg (fun i => [i]) hitem
    | false => rfl
  · have hrecord : (Record.inline item ++
        slot.scratch.drop (Record.inline item).length).take (Record.inline item).length =
          Record.inline item := List.take_left
    have hheader : Layout.headerSize ≤ (Record.inline item).length := by omega
    simp only [view?, hrecord, hheader, ↓reduceDIte]
    rfl

theorem emplace_of_not_fits (slot : Slot) {item : Item} (h : ¬item.kind.fits = true) :
    slot.emplace item =
      (.error (.overAligned item.kind.name item.kind.align), slot, item.remains) := by
  rw [emplace, if_neg h]

/-- The slot holds the item, shows its record, and is to destroy it; or it is empty. -/
structure HoldsJust (slot : Slot) (held? : Option Item) : Prop where
  view_eq : slot.view? = held?.map fun item => View.ofItem item slot.location
  held_eq : slot.held = held?.toList.flatMap Item.remains
  isEmpty_eq : slot.isEmpty = held?.isNone

theorem holdsJust_fresh (location : Location) : (fresh location).HoldsJust none :=
  ⟨rfl, rfl, rfl⟩

theorem holdsJust_reset (slot : Slot) : slot.reset.1.HoldsJust none :=
  ⟨view?_of_isEmpty rfl, rfl, rfl⟩

/-- An item that is put in is all that the slot holds then. -/
theorem holdsJust_emplace (slot : Slot) {item : Item} (h : item.kind.fits = true) :
    (slot.emplace item).2.1.HoldsJust (some item) := by
  have hlocation := slot.location_emplace item
  obtain ⟨next, hemplace, hheld, hview⟩ := slot.emplace_of_fits h
  rw [hemplace] at hlocation ⊢
  refine ⟨?_, ?_, isEmpty_of_view? hview⟩
  · rw [hview, hlocation]
    rfl
  · rw [hheld, Option.toList_some, List.flatMap_singleton]

end Slot

namespace SpareSlot

@[simp] theorem location_slot (spare : SpareSlot) : spare.slot.location = spare.location := by
  unfold slot
  cases spare.held? with
  | none => rfl
  | some item => exact Slot.location_emplace _ item

/-- A spare slot holds its item. -/
theorem holdsJust_slot (spare : SpareSlot) : spare.slot.HoldsJust spare.held? := by
  obtain ⟨location, held?, hfits⟩ := spare
  cases held? with
  | none => exact Slot.holdsJust_fresh location
  | some item => exact (Slot.fresh location).holdsJust_emplace (hfits item rfl)

end SpareSlot

/-- A slot that stays in its place keeps its location. -/
theorem SlotStep.foldl_shownAt {steps : List SlotStep}
    (h : ∀ step ∈ steps, step.keepsSlot = true) (location : Location) :
    steps.foldl shownAt location = location := by
  induction steps with
  | nil => rfl
  | cons step rest ih =>
    obtain ⟨hstep, hrest⟩ := List.forall_mem_cons.1 h
    cases step with
    | emplace | reset => exact ih hrest
    | swap spare => exact absurd hstep (by simp [keepsSlot])

namespace Slot

/-- What is in the slot behind a step, given what was there before. -/
def heldAfter (held? : Option Item) : SlotStep → Option Item
  | .emplace item => if item.kind.fits then some item else held?
  | .reset => none
  | .swap spare => spare.held?

/-- What a step leaves, and where that is shown. -/
theorem HoldsJust.step {slot : Slot} {held? : Option Item} (h : slot.HoldsJust held?)
    (step : SlotStep) :
    (slot.step step).2.1.HoldsJust (heldAfter held? step) ∧
      (slot.step step).2.1.location = step.shownAt slot.location := by
  cases step with
  | emplace item =>
    refine ⟨?_, slot.location_emplace item⟩
    by_cases hfits : item.kind.fits = true
    · rw [heldAfter, if_pos hfits]
      exact slot.holdsJust_emplace hfits
    · rw [Slot.step, slot.emplace_of_not_fits hfits, heldAfter, if_neg hfits]
      exact h
  | reset => exact ⟨slot.holdsJust_reset, rfl⟩
  | swap spare => exact ⟨spare.holdsJust_slot, spare.location_slot⟩

/-- The items that are put into the slot in the course of steps: all up to the first that records
cannot hold, which ends them. -/
def taken : List SlotStep → List Item
  | [] => []
  | .emplace item :: rest => if item.kind.fits then item :: taken rest else [item]
  | .reset :: rest => taken rest
  | .swap _ :: rest => taken rest

/-- The items that the slot destroys in the course of steps, and holds after them, if it holds an
item before them. An item goes with the slot when that is put away. -/
def owedBy (held? : Option Item) : List SlotStep → List Item
  | [] => held?.toList
  | .emplace item :: rest =>
    held?.toList ++ if item.kind.fits then owedBy (some item) rest else [item]
  | .reset :: rest => held?.toList ++ owedBy none rest
  | .swap spare :: rest => owedBy spare.held? rest

/-- A slot that stays in its place owes what it held and all that was put into it. -/
theorem owedBy_of_keepsSlot (held? : Option Item) {steps : List SlotStep}
    (h : ∀ step ∈ steps, step.keepsSlot = true) :
    owedBy held? steps = held?.toList ++ taken steps := by
  induction steps generalizing held? with
  | nil => exact (List.append_nil _).symm
  | cons step rest ih =>
    obtain ⟨hstep, hrest⟩ := List.forall_mem_cons.1 h
    cases step with
    | emplace item =>
      by_cases hfits : item.kind.fits = true
      · simp only [owedBy, taken, hfits, ↓reduceIte, ih (some item) hrest, Option.toList_some,
          List.singleton_append]
      · simp only [owedBy, taken, hfits, Bool.false_eq_true, ↓reduceIte]
    | reset => simp only [owedBy, taken, ih none hrest, Option.toList_none, List.nil_append]
    | swap spare => exact absurd hstep (by simp [SlotStep.keepsSlot])

/-- What a slot destroys in the course of steps and holds after them is what it owes. -/
theorem run_perm {slot : Slot} (held? : Option Item)
    (h : slot.held = held?.toList.flatMap Item.remains) (steps : List SlotStep) :
    ((slot.run steps).2.2 ++ (slot.run steps).2.1.held).Perm
      ((owedBy held? steps).flatMap Item.remains) := by
  induction steps generalizing slot held? with
  | nil => simp [run, owedBy, h]
  | cons step rest ih =>
    cases step with
    | emplace item =>
      by_cases hfits : item.kind.fits = true
      · obtain ⟨next, hemplace, hheld, -⟩ := slot.emplace_of_fits hfits
        have hnext : next.held = (some item).toList.flatMap Item.remains := by
          rw [hheld, Option.toList_some, List.flatMap_singleton]
        simp only [run, Slot.step, hemplace, owedBy, hfits, ↓reduceIte, List.flatMap_append, ← h,
          List.append_assoc]
        exact (ih _ hnext).append_left _
      · rw [run, Slot.step, slot.emplace_of_not_fits hfits, owedBy, if_neg hfits,
          List.flatMap_append, List.flatMap_singleton, ← h]
        exact List.perm_append_comm
    | reset =>
      have hnext : slot.reset.1.held = (none : Option Item).toList.flatMap Item.remains := rfl
      simp only [run, Slot.step, owedBy, List.flatMap_append, ← h, List.append_assoc]
      exact (ih _ hnext).append_left _
    | swap spare =>
      simp only [run, Slot.step, owedBy, List.nil_append]
      exact ih _ spare.holdsJust_slot.held_eq

end Slot

namespace Decoding

/-- Rejecting a blob leaves the slot as it is. -/
theorem runOn_failed (reason : DecodeError) (slot : Slot) :
    (failed reason).runOn slot = (.error (.failed reason), slot, []) := rfl

/-- An item that is made of a blob takes the place of what was in the slot. -/
theorem runOn_ofItem {item : Item} (h : item.kind.fits = true) (slot : Slot) :
    ∃ next, (ofItem item).runOn slot = (.ok (), next, slot.held) ∧ next.held = item.remains ∧
      next.view? = some (View.ofItem item slot.location) := by
  obtain ⟨next, hemplace, hheld, hview⟩ := slot.emplace_of_fits h
  refine ⟨next, ?_, hheld, hview⟩
  simp only [ofItem, runOn, Slot.run, Slot.step, hemplace, List.append_nil]

end Decoding

end CommandTape
