import CommandTape.HandOff
import CommandTape.Proofs.Clearing
import CommandTape.Proofs.PlaybackLedger
import CommandTape.Samples.Clients

/-!
# Working with a tape

A program works with a tape step by step: it records items, sets clients, plays, hands off and
clears, in any order, and goes on after steps that failed. A `Step` is a call of one of the methods
of `ItemBuffer`, and a `TapeState` is a buffer together with what is shared with others. Every step
keeps the contents of the tape or changes them as it is told to (`Step.holds_perform`), so after any
steps the tape has the records of the items that were recorded since it was made or cleared
(`TapeState.holds_run`).
-/

namespace CommandTape

variable {σ : Type}

/-- A tape, and the session that it is used in. -/
structure TapeState (σ : Type) where
  tape : Tape σ
  session : Session σ

/-- What an operation on a tape leaves behind, however it comes out. -/
def TapeState.ofResult {α : Type} (result : α × Tape σ × Session σ) : TapeState σ :=
  ⟨result.2.1, result.2.2⟩

/-- What a program can do with a tape. -/
inductive Step (σ : Type) : Type 1 where
  | tryAppend (item : Item)
  | append (item : Item)
  | setWriter (client : Option (WritingClient σ))
  | setReader (client : Option (ReadingClient σ))
  /-- Obtains a segment for other uses. -/
  | createSegment (minimum : Nat)
  | forEach {γ C : Type} (v : Vocabulary C) (f : Visitor σ γ) (start : γ)
  | replay {C : Type} (v : Vocabulary C) (context : C)
  | handOff (sender : UInt64)
  | clear

namespace Step

/-- The items that the step moves into the tape. -/
def handed : Step σ → List Item
  | tryAppend item => [item]
  | append item => [item]
  | _ => []

/-- Does the step. -/
def perform (d : TapeState σ) : Step σ → TapeState σ
  | tryAppend item => .ofResult (d.tape.tryAppend item d.session)
  | append item => .ofResult (d.tape.append item d.session)
  | setWriter client => { d with tape := d.tape.setWriter client }
  | setReader client => { d with tape := d.tape.setReader client }
  | createSegment minimum => { d with session := (d.tape.createSegment minimum d.session).2 }
  | forEach v f start => { d with session := (d.tape.forEach v f start d.session).2.2 }
  | replay v context => { d with session := (d.tape.replay v context d.session).2.2 }
  | handOff sender => { d with session := (d.tape.handOff sender d.session).2 }
  | clear => .ofResult (d.tape.clear d.session)

/-- What the step makes of the records that are on the tape. -/
def log (d : TapeState σ) (records : List Recorded) : Step σ → List Recorded
  | tryAppend item => records ++ d.tape.recorded item d.session
  | append item => records ++ d.tape.recorded item d.session
  | clear => []
  | _ => records

/-- What the step makes of the items that are on the tape. -/
def items (d : TapeState σ) (items : List Item) : Step σ → List Item
  | tryAppend item => items ++ d.tape.kept item d.session
  | append item => items ++ d.tape.kept item d.session
  | clear => []
  | _ => items

/-- The writing client after the step. -/
def writer (before : Option (WritingClient σ)) : Step σ → Option (WritingClient σ)
  | setWriter client => client
  | _ => before

/-- What the step leaves of the segments that were handed off to the tape. -/
def given (segments : List Segment) : Step σ → List Segment
  | clear => []
  | _ => segments

end Step

namespace TapeState

/-- Does steps in order, whatever they come to. -/
def run (d : TapeState σ) : List (Step σ) → TapeState σ
  | [] => d
  | step :: rest => (step.perform d).run rest

/-- The records of what was recorded in the course of steps, and not cleared since, behind those
that there were before. -/
def log (d : TapeState σ) (records : List Recorded) : List (Step σ) → List Recorded
  | [] => records
  | step :: rest => (step.perform d).log (step.log d records) rest

/-- The items that were recorded in the course of steps, and not cleared since, behind those that
there were before. -/
def items (d : TapeState σ) (before : List Item) : List (Step σ) → List Item
  | [] => before
  | step :: rest => (step.perform d).items (step.items d before) rest

/-- What steps leave of the segments that were handed off. -/
def given (segments : List Segment) : List (Step σ) → List Segment
  | [] => segments
  | step :: rest => given (step.given segments) rest

/-- The tape has the given segments and records. -/
def Holds (d : TapeState σ) (given : List Segment) (records : List Recorded) : Prop :=
  ∃ c, d.tape.Has d.session.store c ∧ c.given = given ∧ c.records = records

end TapeState

/-- A tape as it is made: without items, or over segments that lie in memory. -/
inductive Tape.Fresh (store : Store) : Tape σ → List Segment → Prop
  | withCapacity {capacity : Nat} {tape : Tape σ} (h : Tape.withCapacity capacity = .ok tape) :
      Fresh store tape []
  | ofSegments {segments : List Segment} (h : ∀ segment ∈ segments, segment.LiesIn store) :
      Fresh store (.ofSegments segments) segments

namespace Tape

/-- A tape that was made with some capacity has nothing on it. -/
theorem eq_of_withCapacity {capacity : Nat} {tape : Tape σ}
    (h : Tape.withCapacity capacity = .ok tape) :
    ∃ segmentCapacity, tape = ⟨none, none, .empty, [], none, 0, segmentCapacity⟩ := by
  unfold Tape.withCapacity at h
  cases halign : Word.alignUp (max capacity Layout.headerSize) with
  | error f =>
    rw [halign] at h
    exact absurd h (by simp [bind, Except.bind])
  | ok rounded =>
    rw [halign] at h
    exact ⟨rounded, (Except.ok.inj h).symm⟩

theorem Fresh.writer_eq {store : Store} {tape : Tape σ} {segments : List Segment}
    (h : tape.Fresh store segments) : tape.writer = none := by
  cases h with
  | withCapacity h =>
    obtain ⟨segmentCapacity, rfl⟩ := eq_of_withCapacity h
    rfl
  | ofSegments h => rfl

theorem Fresh.writable_eq {store : Store} {tape : Tape σ} {segments : List Segment}
    (h : tape.Fresh store segments) : tape.writable = none := by
  cases h with
  | withCapacity h =>
    obtain ⟨segmentCapacity, rfl⟩ := eq_of_withCapacity h
    rfl
  | ofSegments h => rfl

theorem Fresh.frozen_eq {store : Store} {tape : Tape σ} {segments : List Segment}
    (h : tape.Fresh store segments) : tape.frozen = segments := by
  cases h with
  | withCapacity h =>
    obtain ⟨segmentCapacity, rfl⟩ := eq_of_withCapacity h
    rfl
  | ofSegments h => rfl

/-- A tape holds what it is made over. -/
theorem Fresh.holds {tape : Tape σ} {s : Session σ} {segments : List Segment}
    (h : tape.Fresh s.store segments) : TapeState.Holds ⟨tape, s⟩ segments [] := by
  cases h with
  | withCapacity h =>
    obtain ⟨segmentCapacity, rfl⟩ := eq_of_withCapacity h
    exact ⟨_, has_nothing rfl rfl rfl rfl _, rfl, rfl⟩
  | ofSegments h => exact ⟨_, has_ofSegments h, rfl, rfl⟩

/-- Recording an item where failing is a fault leaves the same behind as trying to record it. -/
theorem append_snd (tape : Tape σ) (item : Item) (s : Session σ) :
    (tape.append item s).2 = (tape.tryAppend item s).2 := by
  unfold append
  rcases tape.tryAppend item s with ⟨(reason | f) | _, next, s'⟩ <;> rfl

theorem ofResult_append (tape : Tape σ) (item : Item) (s : Session σ) :
    TapeState.ofResult (tape.append item s) = TapeState.ofResult (tape.tryAppend item s) := by
  rw [TapeState.ofResult, TapeState.ofResult, append_snd]

theorem store_handOff (tape : Tape σ) (sender : UInt64) (s : Session σ) :
    (tape.handOff sender s).2.store = s.store := by
  unfold handOff
  cases Message.ofViews sender (tape.views s.store) <;> rfl

theorem destroyed_handOff (tape : Tape σ) (sender : UInt64) (s : Session σ) :
    (tape.handOff sender s).2.destroyed = s.destroyed := by
  unfold handOff
  cases Message.ofViews sender (tape.views s.store) <;> rfl

theorem store_replay {C : Type} (tape : Tape σ) (v : Vocabulary C) (context : C) (s : Session σ) :
    (tape.replay v context s).2.2.store = s.store := by
  rw [session_replay]
  exact (tape.forEach_destroys v _ _ s).1

end Tape

namespace TapeState.Holds

variable {d : TapeState σ} {given : List Segment} {records : List Recorded}

/-- What is held is still there when blocks were added to memory. -/
theorem of_keptIn (h : d.Holds given records) {s : Session σ}
    (hkept : d.session.store.KeptIn s.store) :
    TapeState.Holds ⟨d.tape, s⟩ given records := by
  obtain ⟨c, hhas, hgiven, hrecords⟩ := h
  exact ⟨c, hhas.mono hkept, hgiven, hrecords⟩

theorem of_store_eq (h : d.Holds given records) {s : Session σ}
    (hstore : s.store = d.session.store) : TapeState.Holds ⟨d.tape, s⟩ given records := by
  refine h.of_keptIn ?_
  rw [hstore]
  exact .refl _

/-- What is held does not depend on the clients. -/
theorem of_tape (h : d.Holds given records) {next : Tape σ} (hfrozen : next.frozen = d.tape.frozen)
    (hwritable : next.writable = d.tape.writable) (hwritten : next.written = d.tape.written)
    (hpending : next.pending = d.tape.pending) :
    TapeState.Holds ⟨next, d.session⟩ given records := by
  obtain ⟨c, hhas, hgiven, hrecords⟩ := h
  exact ⟨c, hhas.of_eq hfrozen hwritable hwritten hpending, hgiven, hrecords⟩

/-- Recording an item adds the record that the outcome tells of. -/
theorem tryAppend (h : d.Holds given records) (item : Item) :
    (TapeState.ofResult (d.tape.tryAppend item d.session)).Holds given
      (records ++ d.tape.recorded item d.session) := by
  obtain ⟨c, hhas, hgiven, rfl⟩ := h
  have hturned : ∀ c', (c' = c ∨ ∃ segment, c' = c.turn segment) →
      c'.given = given ∧ c'.records = c.records := by
    rintro c' (rfl | ⟨segment, rfl⟩)
    · exact ⟨hgiven, rfl⟩
    · exact ⟨hgiven, c.records_turn segment⟩
  have happended := hhas.tryAppend item
  unfold Tape.recorded
  generalize d.tape.tryAppend item d.session = result at happended
  cases happended with
  | refused h' s' hkept hgone =>
    exact ⟨c, hhas.mono hkept, hgiven, (List.append_nil _).symm⟩
  | readOnly next s' segment hreadOnly hkept hsame hnext hgone =>
    refine ⟨_, hnext, hgiven, ?_⟩
    rw [c.records_turn segment]
    exact (List.append_nil _).symm
  | dropped s' hinline hrecord hkept hgone =>
    refine ⟨c, hhas.mono hkept, hgiven, ?_⟩
    rw [hrecord]
    exact (List.append_nil _).symm
  | stored r next s' c' chapter hrecord hkept hsame hturn hc hnext hgone =>
    obtain ⟨hgiven', hrecords'⟩ := hturned c' hturn
    refine ⟨_, hnext, hgiven', ?_⟩
    rw [c'.records_write hc, hrecords', hrecord]
    rfl

theorem clear (h : d.Holds given records) :
    (TapeState.ofResult (d.tape.clear d.session)).Holds [] [] := by
  obtain ⟨c, hhas, -, -⟩ := h
  obtain ⟨next, s', heq, -, -, hnext, -⟩ := hhas.clear
  rw [heq]
  exact ⟨_, hnext, rfl, rfl⟩

end TapeState.Holds

/-- Every step keeps what is on the tape, or changes it as it is told to. -/
theorem Step.holds_perform {d : TapeState σ} {given : List Segment} {records : List Recorded}
    (h : d.Holds given records) (step : Step σ) :
    (step.perform d).Holds (step.given given) (step.log d records) := by
  cases step with
  | tryAppend item => exact h.tryAppend item
  | append item =>
    rw [perform, Tape.ofResult_append]
    exact h.tryAppend item
  | setWriter client => exact h.of_tape rfl rfl rfl rfl
  | setReader client => exact h.of_tape rfl rfl rfl rfl
  | createSegment minimum => exact h.of_keptIn (d.tape.keptIn_createSegment minimum d.session).kept
  | forEach v f start => exact h.of_store_eq (d.tape.forEach_destroys v f start d.session).1
  | replay v context => exact h.of_store_eq (d.tape.store_replay v context d.session)
  | handOff sender => exact h.of_store_eq (d.tape.store_handOff sender d.session)
  | clear => exact h.clear

/-- Only setting the writing client changes it. -/
theorem Step.writer_perform {d : TapeState σ} {given : List Segment} {records : List Recorded}
    (h : d.Holds given records) (step : Step σ) :
    (step.perform d).tape.writer = step.writer d.tape.writer := by
  obtain ⟨c, hhas, -, -⟩ := h
  cases step with
  | tryAppend item => exact (hhas.sameSetup_tryAppend item).writer_eq
  | append item =>
    rw [perform, Tape.ofResult_append]
    exact (hhas.sameSetup_tryAppend item).writer_eq
  | clear =>
    obtain ⟨next, s', heq, -, -, -, hsame⟩ := hhas.clear
    rw [perform, heq]
    exact hsame.writer_eq
  | _ => rfl

/-- Recording an item stays on the machine that there is. -/
theorem Tape.Has.machine_tryAppend {tape : Tape σ} {s : Session σ} {c : Contents}
    (h : tape.Has s.store c) (item : Item) :
    (tape.tryAppend item s).2.2.store.machine = s.store.machine := by
  have happended := h.tryAppend item
  generalize tape.tryAppend item s = result at happended
  cases happended with
  | refused h' s' hkept hgone => exact hkept.machine_eq
  | readOnly next s' segment hreadOnly hkept hsame hnext hgone => exact hkept.machine_eq
  | dropped s' hinline hrecord hkept hgone => exact hkept.machine_eq
  | stored r next s' c' chapter hrecord hkept hsame hturn hc hnext hgone => exact hkept.machine_eq

/-- And so does every step. -/
theorem Step.machine_perform {d : TapeState σ} {given : List Segment} {records : List Recorded}
    (h : d.Holds given records) (step : Step σ) :
    (step.perform d).session.store.machine = d.session.store.machine := by
  obtain ⟨c, hhas, -, -⟩ := h
  cases step with
  | tryAppend item => exact hhas.machine_tryAppend item
  | append item =>
    rw [perform, Tape.ofResult_append]
    exact hhas.machine_tryAppend item
  | createSegment minimum => exact (d.tape.keptIn_createSegment minimum d.session).kept.machine_eq
  | forEach v f start =>
    exact congrArg Store.machine (d.tape.forEach_destroys v f start d.session).1
  | replay v context => exact congrArg Store.machine (d.tape.store_replay v context d.session)
  | handOff sender => exact congrArg Store.machine (d.tape.store_handOff sender d.session)
  | clear =>
    obtain ⟨next, s', heq, hstore, -, -, -⟩ := hhas.clear
    rw [perform, heq]
    exact congrArg Store.machine hstore
  | _ => rfl

theorem Step.map_item_log (d : TapeState σ) (records : List Recorded) (step : Step σ) :
    (step.log d records).map Recorded.item = step.items d (records.map Recorded.item) := by
  cases step with
  | tryAppend item => rw [log, items, List.map_append, Tape.map_item_recorded]
  | append item => rw [log, items, List.map_append, Tape.map_item_recorded]
  | _ => rfl

namespace TapeState

theorem run_append (d : TapeState σ) (steps more : List (Step σ)) :
    d.run (steps ++ more) = (d.run steps).run more := by
  induction steps generalizing d with
  | nil => rfl
  | cons step rest ih => exact ih (step.perform d)

/-- The records are those of the items that were recorded. -/
theorem map_item_log (d : TapeState σ) (records : List Recorded) (steps : List (Step σ)) :
    (d.log records steps).map Recorded.item = d.items (records.map Recorded.item) steps := by
  induction steps generalizing d records with
  | nil => rfl
  | cons step rest ih => rw [log, items, ih, step.map_item_log]

theorem item_mem_items {d : TapeState σ} {steps : List (Step σ)} {r : Recorded}
    (h : r ∈ d.log [] steps) : r.item ∈ d.items [] steps := by
  have hmem := List.mem_map_of_mem (f := Recorded.item) h
  rwa [map_item_log] at hmem

/-- After any steps the tape has the records of what was recorded and not cleared since. -/
theorem holds_run {d : TapeState σ} {segments : List Segment} {records : List Recorded}
    (h : d.Holds segments records) (steps : List (Step σ)) :
    (d.run steps).Holds (given segments steps) (d.log records steps) := by
  induction steps generalizing d segments records with
  | nil => exact h
  | cons step rest ih => exact ih (step.holds_perform h)

theorem given_nil (steps : List (Step σ)) : given [] steps = [] := by
  induction steps with
  | nil => rfl
  | cons step rest ih => cases step <;> exact ih

/-- Clearing lets go of what was handed off. -/
theorem given_eq_nil {segments : List Segment} {steps : List (Step σ)}
    (h : segments = [] ∨ Step.clear ∈ steps) : given segments steps = [] := by
  rcases h with rfl | hmem
  · exact given_nil steps
  · induction steps generalizing segments with
    | nil => exact absurd hmem List.not_mem_nil
    | cons step rest ih =>
      rcases List.mem_cons.1 hmem with rfl | hmem
      · exact given_nil rest
      · exact ih hmem

end TapeState

/-! ## A small tape -/

namespace Sample

/-- A tape without items, whose own segments have room for sixteen bytes. -/
def tapeState : TapeState Tallies := ⟨⟨none, none, .empty, [], none, 0, 16⟩, .start machine []⟩

/-- A client whose memory is full of a byte other than zero. -/
def dirtyClient : WritingClient Tallies := Supplier.client ⟨64, 0, 0xaa, none, none, .own 0⟩ .core 0

/-- A client whose memory is mapped for reading only. -/
def readOnlyClient : WritingClient Tallies :=
  Supplier.client ⟨64, 0, 0, none, none, .readOnly⟩ .core 0

/-- Undoes what the client does to items. -/
def reader : ReadingClient Tallies := .ofFunction Decoding.core

theorem keepsSlot_reader : reader.KeepsSlot := fun blob tag _ _ => Decoding.keepsSlot_core blob tag

/-- Records an item that is left to destroy in the tape's own memory, and two items in a
client's. -/
def steps : List (Step Tallies) :=
  [.tryAppend (uniform trackedKind 7), .setWriter (some dirtyClient), .tryAppend (blob [1, 2, 3]),
   .append (uniform byteKind 9)]

/-- A session in whose memory another program recorded an item. -/
def sharing : Session Tallies :=
  { Session.start machine [] with
    store := (Store.empty machine).add
      (.ofBytes [7, 0, 0, 0, 0, 0, 0, 0, 9, 0, 0, 0, 0, 0, 0, 0] (by decide)) }

theorem sixteen_lt : 16 < Layout.memoryLimit := by
  decide

/-- What the other program recorded, under the identifier that the next segment gets. -/
def handed : Segment :=
  ⟨⟨1⟩, ⟨0, 16, 0, some (.memory 0), false, sixteen_lt⟩, 16, .client, Nat.le_refl _⟩

/-- What was handed off lies in memory, however often it is. -/
theorem handed_liesIn {segments : List Segment} (h : ∀ segment ∈ segments, segment = handed) :
    ∀ segment ∈ segments, segment.LiesIn sharing.store := by
  intro segment hmem
  obtain rfl := h segment hmem
  exact ⟨by decide, rfl⟩

end Sample

end CommandTape
