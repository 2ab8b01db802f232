import CommandTape.HandOff
import CommandTape.Tape.Playback

/-!
# What copies play

Two tapes that show the same bytes under the same identifiers play in the same way, wherever the
bytes lie: the same items are visited, and playing comes to the same (`Tape.forEach_of_shown`). Of a
session only the state of the clients counts for that, unless the visitor looks at more of it.
-/

namespace CommandTape

variable {σ γ C : Type}

/-- What a reader can tell of a view: the identifier of the segment, and the bytes. -/
def SegmentView.shown (view : SegmentView) : SegmentId × Bytes := (view.id, view.data.toList)

/-- A visitor that looks at items only. -/
def Visitor.ofView (g : View → γ → Except Fault Unit × γ) : Visitor σ γ :=
  fun view _ state => g view state

/-! ## Reading -/

namespace Frame

variable {rest rest' : Extent}

theorem readInline_of_toList (h : rest'.toList = rest.toList) (location : Location) (size : Nat) :
    readInline location size rest' = readInline location size rest := by
  simp only [readInline, ← Extent.length_toList, Extent.slice_eq, h]

theorem readBlob_of_toList (h : rest'.toList = rest.toList) : readBlob rest' = readBlob rest := by
  simp only [readBlob, ← Extent.length_toList, Extent.slice_eq, Extent.number_eq, h]

/-- What is read depends on the bytes. -/
theorem read_of_toList (h : rest'.toList = rest.toList) (v : Vocabulary C) (hasClient : Bool)
    (location : Location) : read v hasClient location rest' = read v hasClient location rest := by
  have hlength : rest'.length = rest.length := by
    rw [← Extent.length_toList, h, Extent.length_toList]
  simp only [read, readBody, hlength, Extent.read_eq, h, readInline_of_toList h,
    readBlob_of_toList h]

end Frame

/-! ## Playing -/

namespace Playback

/-- The playbacks differ at most in what they do not depend on. -/
structure Alike (p p' : Playback σ γ) : Prop where
  slot_eq : p'.slot = p.slot
  visited_eq : p'.visited = p.visited
  clients_eq : p'.session.clients = p.session.clients

/-- Both come to the same, and leave playbacks that are alike. -/
structure SameResult {α : Type} (r r' : α × Playback σ γ) : Prop where
  outcome_eq : r'.1 = r.1
  alike : r.2.Alike r'.2

variable {p p' : Playback σ γ}

theorem SameResult.cases {ε α : Type} {r r' : Except ε α × Playback σ γ} (h : SameResult r r') :
    (∃ e q q', r = (.error e, q) ∧ r' = (.error e, q') ∧ q.Alike q') ∨
      ∃ a q q', r = (.ok a, q) ∧ r' = (.ok a, q') ∧ q.Alike q' := by
  obtain ⟨outcome, q⟩ := r
  obtain ⟨outcome', q'⟩ := r'
  obtain ⟨houtcome, halike⟩ := h
  obtain rfl : outcome' = outcome := houtcome
  cases outcome' with
  | error e => exact Or.inl ⟨e, q, q', rfl, rfl, halike⟩
  | ok a => exact Or.inr ⟨a, q, q', rfl, rfl, halike⟩

namespace Alike

theorem resetSlot (h : p.Alike p') : p.resetSlot.Alike p'.resetSlot := by
  refine ⟨?_, h.visited_eq, h.clients_eq⟩
  simp only [Playback.resetSlot, h.slot_eq]

theorem visit (h : p.Alike p') (g : View → γ → Except Fault Unit × γ) (view : View) :
    SameResult (p.visit (.ofView g) view) (p'.visit (.ofView g) view) := by
  have hvisited : g view p'.visited = g view p.visited := by rw [h.visited_eq]
  refine ⟨?_, h.slot_eq, ?_, h.clients_eq⟩
  · show (g view p'.visited).1 = (g view p.visited).1
    rw [hvisited]
  · show (g view p'.visited).2 = (g view p.visited).2
    rw [hvisited]

theorem decode (h : p.Alike p') (client : ReadingClient σ) (tag : Tag) (blob : Bytes)
    (location : Location) :
    SameResult (p.decode client tag blob location) (p'.decode client tag blob location) := by
  have hreset := h.resetSlot
  have hdecode : client.decode blob tag location p'.resetSlot.session.clients =
      client.decode blob tag location p.resetSlot.session.clients := by rw [hreset.clients_eq]
  refine ⟨?_, ?_, ?_, ?_⟩
  · simp only [Playback.decode, hdecode, hreset.slot_eq]
  · simp only [Playback.decode, hdecode, hreset.slot_eq]
  · exact hreset.visited_eq
  · exact congrArg Prod.snd hdecode

theorem visitSlot (h : p.Alike p') (g : View → γ → Except Fault Unit × γ) (tag : Tag) :
    SameResult (p.visitSlot (.ofView g) tag) (p'.visitSlot (.ofView g) tag) := by
  unfold Playback.visitSlot
  rw [h.slot_eq]
  cases p.slot.view? with
  | none => exact ⟨rfl, h⟩
  | some view =>
    dsimp only
    by_cases htag : view.tag = tag
    · rw [if_pos htag, if_pos htag]
      rcases (h.visit g view).cases with ⟨e, q, q', hq, hq', halike⟩ | ⟨u, q, q', hq, hq', halike⟩
      · rw [hq, hq']
        exact ⟨rfl, halike⟩
      · rw [hq, hq']
        exact ⟨rfl, halike.resetSlot⟩
    · rw [if_neg htag, if_neg htag]
      exact ⟨rfl, h.resetSlot⟩

theorem playFrame (h : p.Alike p') (client? : Option (ReadingClient σ))
    (g : View → γ → Except Fault Unit × γ) (frame : Frame) :
    SameResult (p.playFrame client? (.ofView g) frame)
      (p'.playFrame client? (.ofView g) frame) := by
  unfold Playback.playFrame
  cases frame.body with
  | inline view =>
    have hvisit := h.visit g view
    exact ⟨congrArg Outcome.ofFaulty hvisit.outcome_eq, hvisit.alike⟩
  | encoded tag blob =>
    cases client? with
    | none => exact ⟨rfl, h⟩
    | some client =>
      dsimp only
      rcases (h.decode client tag blob frame.location).cases with
        ⟨e, q, q', hq, hq', halike⟩ | ⟨u, q, q', hq, hq', halike⟩
      · rw [hq, hq']
        exact ⟨rfl, halike⟩
      · rw [hq, hq']
        exact halike.visitSlot g tag

/-- The same bytes are played in the same way. -/
theorem playRecords (h : p.Alike p') (v : Vocabulary C) (client? : Option (ReadingClient σ))
    (g : View → γ → Except Fault Unit × γ) (segment : SegmentId) (offset count : Nat)
    {rest rest' : Extent} (hrest : rest'.toList = rest.toList) :
    SameResult (p.playRecords v client? (.ofView g) segment offset count rest)
      (p'.playRecords v client? (.ofView g) segment offset count rest') := by
  induction hsize : rest.length using Nat.strongRecOn generalizing offset count rest rest' p p' with
  | ind size ih =>
    have hlength : rest'.length = rest.length := by
      rw [← Extent.length_toList, hrest, Extent.length_toList]
    rw [Playback.playRecords, Playback.playRecords, hlength, Frame.read_of_toList hrest]
    by_cases hempty : rest.length = 0
    · rw [if_pos hempty, if_pos hempty]
      exact ⟨rfl, h⟩
    · rw [if_neg hempty, if_neg hempty]
      cases Frame.read v client?.isSome ⟨segment, offset⟩ rest with
      | error halt => exact ⟨rfl, h⟩
      | ok frame =>
        dsimp only
        rcases (h.playFrame client? g frame).cases with
          ⟨e, q, q', hq, hq', halike⟩ | ⟨u, q, q', hq, hq', halike⟩
        · rw [hq, hq']
          exact ⟨rfl, halike⟩
        · rw [hq, hq']
          dsimp only
          cases Word.add offset frame.size with
          | error f => exact ⟨rfl, halike⟩
          | ok next =>
            have hpos := frame.size_pos
            have hnext : (rest'.drop frame.size).toList = (rest.drop frame.size).toList := by
              rw [Extent.toList_drop, Extent.toList_drop, hrest]
            have hlt : (rest.drop frame.size).length < size := by
              rw [Extent.length_drop]
              omega
            exact ih _ hlt halike next (count + 1) hnext rfl

/-- Views that show the same are played in the same way. -/
theorem playViews (h : p.Alike p') (v : Vocabulary C) (client? : Option (ReadingClient σ))
    (g : View → γ → Except Fault Unit × γ) {views views' : List SegmentView}
    (hshown : views'.map SegmentView.shown = views.map SegmentView.shown) (count : Nat) :
    SameResult (p.playViews v client? (.ofView g) views count)
      (p'.playViews v client? (.ofView g) views' count) := by
  induction views generalizing views' count p p' with
  | nil =>
    obtain rfl : views' = [] := List.map_eq_nil_iff.1 hshown
    exact ⟨rfl, h⟩
  | cons view rest ih =>
    obtain ⟨view', rest', rfl, hview, hrest⟩ := List.map_eq_cons_iff.1 hshown
    obtain ⟨hid, hdata⟩ := Prod.mk.inj hview
    have hsegment := h.playRecords v client? g view.id 0 0 hdata
    rw [Playback.playViews, Playback.playViews, hid]
    rcases hsegment.cases with ⟨e, q, q', hq, hq', halike⟩ | ⟨n, q, q', hq, hq', halike⟩
    · rw [playSegment, playSegment, hq, hq']
      cases e with
      | fault f => exact ⟨rfl, halike⟩
      | failed reason => exact ⟨rfl, halike.slot_eq, halike.visited_eq, halike.clients_eq⟩
    · rw [playSegment, playSegment, hq, hq']
      exact ih halike hrest (count + n)

end Alike

end Playback

/-- Tapes that show the same play in the same way to a visitor that looks at items only. -/
theorem Tape.forEach_of_shown {tape tape' : Tape σ} {t t' : Session σ}
    (hreader : tape'.reader = tape.reader) (hclients : t'.clients = t.clients)
    (hshown : (tape'.views t'.store).map SegmentView.shown =
      (tape.views t.store).map SegmentView.shown)
    (v : Vocabulary C) (g : View → γ → Except Fault Unit × γ) (start : γ) :
    (tape'.forEach v (.ofView g) start t').1 = (tape.forEach v (.ofView g) start t).1 ∧
      (tape'.forEach v (.ofView g) start t').2.1 = (tape.forEach v (.ofView g) start t).2.1 := by
  have halike : (⟨t, .empty, start⟩ : Playback σ γ).Alike ⟨t', .empty, start⟩ :=
    ⟨rfl, rfl, hclients⟩
  have hplayed := halike.playViews v tape.reader g hshown 0
  rw [Tape.forEach, Tape.forEach, hreader]
  exact ⟨hplayed.outcome_eq, hplayed.alike.visited_eq⟩

end CommandTape
