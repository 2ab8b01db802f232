import CommandTape.Proofs.Copies
import CommandTape.Proofs.Reading

/-!
# What comes before damage

Bytes that agree up to a point are read alike up to it: the records that end there or before are the
same, whatever follows (`Reads.agree`). So are segments that agree up to a point of one of them
(`ReadsAll.agree`). A visitor that looks at items only is shown the same items for these records,
however playing ends (`Tape.shown_before_damage`).
-/

namespace CommandTape

variable {σ γ C : Type}

/-! ## Records up to a point -/

/-- Of records one behind the other, just the first `k` end within the first `n` bytes. -/
def EndWithin (n : Nat) (records : List Bytes) (k : Nat) : Prop :=
  ∀ i, i < k ↔ i < records.length ∧ (records.take (i + 1)).flatten.length ≤ n

namespace EndWithin

variable {n k k' : Nat} {records records' : List Bytes}

/-- There always is such a count. -/
theorem exists_count (n : Nat) (records : List Bytes) : ∃ k, EndWithin n records k := by
  induction records generalizing n with
  | nil => exact ⟨0, fun i => by simp⟩
  | cons record rest ih =>
    by_cases hfits : record.length ≤ n
    · obtain ⟨k, hk⟩ := ih (n - record.length)
      refine ⟨k + 1, fun i => ?_⟩
      cases i with
      | zero => simp [hfits]
      | succ i =>
        have hi := hk i
        simp only [List.length_cons, List.take_succ_cons, List.flatten_cons, List.length_append]
        omega
    · refine ⟨0, fun i => ?_⟩
      simp only [List.take_succ_cons, List.flatten_cons, List.length_append]
      omega

theorem le_length (h : EndWithin n records k) : k ≤ records.length := by
  refine Nat.le_of_not_lt fun hlt => ?_
  exact Nat.lt_irrefl _ ((h records.length).1 hlt).1

theorem length_take (h : EndWithin n records k) : (records.take k).length = k := by
  rw [List.length_take, Nat.min_eq_left h.le_length]

theorem length_flatten_le (h : EndWithin n records k) : (records.take k).flatten.length ≤ n := by
  cases k with
  | zero => exact Nat.zero_le _
  | succ k => exact ((h k).1 (Nat.lt_succ_self k)).2

/-- If the first of the records stand in front elsewhere, at least as many end there. -/
theorem le_of_prefix (h : EndWithin n records k) (h' : EndWithin n records' k')
    (hfront : records.take k <+: records') : k ≤ k' := by
  refine Nat.le_of_not_lt fun hlt => ?_
  obtain ⟨rest, rfl⟩ := hfront
  obtain ⟨-, hends⟩ := (h k').1 hlt
  have hlength : k' + 1 ≤ (records.take k).length := by
    rw [h.length_take]
    exact hlt
  have htake : (records.take k ++ rest).take (k' + 1) = records.take (k' + 1) := by
    rw [List.take_append_of_le_length hlength, List.take_take, Nat.min_eq_left hlt]
  refine Nat.lt_irrefl k' ((h' k').2 ⟨?_, ?_⟩)
  · rw [List.length_append]
    omega
  · rw [htake]
    exact hends

end EndWithin

theorem Sentence.take {v : Vocabulary C} {decode? : Option (Bytes → Tag → Decoding)}
    {segment : SegmentId} {offset : Nat} {records : List Bytes} {views : List View}
    (h : Sentence v decode? segment offset records views) (k : Nat) :
    Sentence v decode? segment offset (records.take k) (views.take k) := by
  induction h generalizing k with
  | nil offset => simpa using .nil offset
  | cons h hrest ih =>
    cases k with
    | zero => exact .nil _
    | succ k => exact .cons h (ih k)

section Reads

variable {v : Vocabulary C} {decode? : Option (Bytes → Tag → Decoding)} {segment : SegmentId}
  {offset n k : Nat} {bs bs' : Bytes} {records records' : List Bytes} {views views' : List View}
  {halt? halt?' : Option (Halt DecodeError)}

/-- The records at the front that end up to a point are read wherever the bytes up to it are the
same. -/
theorem Reads.prefix_of_agree (h : Reads v decode? segment offset bs records views halt?)
    (h' : Reads v decode? segment offset bs' records' views' halt?')
    (hsame : bs.take n = bs'.take n)
    (hends : (records.take k).flatten.length ≤ n) :
    records.take k <+: records' ∧ views.take k <+: views' := by
  obtain ⟨hsentence, left, hbs, -⟩ := h
  have hfront : (records.take k).flatten <+: bs := by
    refine ⟨(records.drop k).flatten ++ left, ?_⟩
    rw [← List.append_assoc, ← List.flatten_append, List.take_append_drop, hbs]
  have hwithin : (records.take k).flatten <+: bs.take n := List.prefix_take_iff.2 ⟨hfront, hends⟩
  rw [hsame] at hwithin
  exact h'.prefix_of_sentence (hsentence.take k) (hwithin.trans (List.take_prefix n bs'))

/-- Bytes that agree up to a point are read as the same records up to it, shown by the same views.
-/
theorem Reads.agree (h : Reads v decode? segment offset bs records views halt?)
    (h' : Reads v decode? segment offset bs' records' views' halt?')
    (hsame : bs.take n = bs'.take n)
    (hk : EndWithin n records k) :
    EndWithin n records' k ∧ records'.take k = records.take k ∧ views'.take k = views.take k := by
  obtain ⟨k', hk'⟩ := EndWithin.exists_count n records'
  obtain ⟨hrecords, hviews⟩ := h.prefix_of_agree h' hsame hk.length_flatten_le
  obtain ⟨hrecords', -⟩ := h'.prefix_of_agree h hsame.symm hk'.length_flatten_le
  obtain rfl : k = k' := Nat.le_antisymm (hk.le_of_prefix hk' hrecords)
    (hk'.le_of_prefix hk hrecords')
  have hlength : (views.take k).length = k := by
    rw [List.length_take, h.sentence.length_eq, Nat.min_eq_left hk.le_length]
  refine ⟨hk', ?_, ?_⟩
  · have heq := List.prefix_iff_eq_take.1 hrecords
    rw [hk.length_take] at heq
    exact heq.symm
  · have heq := List.prefix_iff_eq_take.1 hviews
    rw [hlength] at heq
    exact heq.symm

end Reads

/-! ## Segments up to a point -/

/-- Of what segments are read as, the views show the records that end within the first `n` bytes of
the segment with the given index, and those of the segments before it. -/
inductive ShownBefore (v : Vocabulary C) (decode? : Option (Bytes → Tag → Decoding)) (n : Nat) :
    List SegmentView → (index : Nat) → List View → Prop
  /-- The segment is reached. -/
  | reached {segment : SegmentView} {rest : List SegmentView} {records : List Bytes}
      {views : List View} {halt? : Option (Halt DecodeError)} {k : Nat}
      (h : Reads v decode? segment.id 0 segment.data.toList records views halt?)
      (hk : EndWithin n records k) : ShownBefore v decode? n (segment :: rest) 0 (views.take k)
  /-- A segment before it is read to its end. -/
  | behind {segment : SegmentView} {rest : List SegmentView} {records : List Bytes}
      {views shown : List View} {index : Nat}
      (h : Reads v decode? segment.id 0 segment.data.toList records views none)
      (hrest : ShownBefore v decode? n rest index shown) :
      ShownBefore v decode? n (segment :: rest) (index + 1) (views ++ shown)
  /-- Something in a segment before it halts the reading. -/
  | halted {segment : SegmentView} {rest : List SegmentView} {records : List Bytes}
      {views : List View} {halt : Halt DecodeError} {index : Nat}
      (h : Reads v decode? segment.id 0 segment.data.toList records views (some halt)) :
      ShownBefore v decode? n (segment :: rest) (index + 1) views

namespace ReadsAll

variable {v : Vocabulary C} {decode? : Option (Bytes → Tag → Decoding)}
  {halt? halt?' : Option (Halt DecodeError)}

/-- What segments are read as begins with what the first of them is read as. -/
theorem exists_head {segment : SegmentView} {rest : List SegmentView} {shown : List View}
    (h : ReadsAll v decode? (segment :: rest) shown halt?) :
    ∃ records views ended? later,
      Reads v decode? segment.id 0 segment.data.toList records views ended? ∧
      shown = views ++ later := by
  cases h with
  | cons h hrest => exact ⟨_, _, _, _, h, rfl⟩
  | halted h => exact ⟨_, _, _, [], h, (List.append_nil _).symm⟩

/-- Segments that agree up to a point of one of them are read as the same up to it. -/
theorem agree {front front' : List SegmentView} {segment segment' : SegmentView}
    {rest rest' : List SegmentView} {n : Nat} {all all' : List View}
    (h : ReadsAll v decode? (front ++ segment :: rest) all halt?)
    (h' : ReadsAll v decode? (front' ++ segment' :: rest') all' halt?')
    (hfront : front.map SegmentView.shown = front'.map SegmentView.shown)
    (hid : segment.id = segment'.id)
    (hsame : segment.data.toList.take n = segment'.data.toList.take n) :
    ∃ shown later later', all = shown ++ later ∧ all' = shown ++ later' ∧
      ShownBefore v decode? n (front ++ segment :: rest) front.length shown ∧
      ShownBefore v decode? n (front' ++ segment' :: rest') front.length shown := by
  induction front generalizing front' all all' with
  | nil =>
    obtain rfl : front' = [] := List.map_eq_nil_iff.1 hfront.symm
    obtain ⟨records, views, ended?, later, hreads, rfl⟩ := h.exists_head
    obtain ⟨records', views', ended?', later', hreads', rfl⟩ := h'.exists_head
    obtain ⟨k, hk⟩ := EndWithin.exists_count n records
    rw [← hid] at hreads'
    obtain ⟨hk', -, hviews⟩ := hreads.agree hreads' hsame hk
    refine ⟨views.take k, views.drop k ++ later, views'.drop k ++ later', ?_, ?_,
      .reached hreads hk, ?_⟩
    · rw [← List.append_assoc, List.take_append_drop]
    · rw [← hviews, ← List.append_assoc, List.take_append_drop]
    · rw [← hviews]
      exact .reached (hid ▸ hreads') hk'
  | cons first front ih =>
    cases front' with
    | nil => exact absurd hfront (by simp)
    | cons first' front' =>
      obtain ⟨hfirst, hfront⟩ := List.cons.inj hfront
      have hfirstid : first.id = first'.id := congrArg Prod.fst hfirst
      have hfirstdata : first.data.toList = first'.data.toList := congrArg Prod.snd hfirst
      cases h with
      | cons hreads hrest =>
        cases h' with
        | cons hreads' hrest' =>
          obtain ⟨-, rfl, -⟩ := hreads.unique (hfirstid ▸ hfirstdata ▸ hreads')
          obtain ⟨shown, later, later', rfl, rfl, hshown, hshown'⟩ := ih hrest hrest' hfront
          exact ⟨_, later, later', (List.append_assoc _ _ _).symm, (List.append_assoc _ _ _).symm,
            .behind hreads hshown, .behind hreads' hshown'⟩
        | halted hreads' =>
          exact absurd (hreads.unique (hfirstid ▸ hfirstdata ▸ hreads')).2.2 (by simp)
      | halted hreads =>
        cases h' with
        | cons hreads' hrest' =>
          exact absurd (hreads.unique (hfirstid ▸ hfirstdata ▸ hreads')).2.2 (by simp)
        | halted hreads' =>
          obtain ⟨-, rfl, -⟩ := hreads.unique (hfirstid ▸ hfirstdata ▸ hreads')
          exact ⟨_, [], [], (List.append_nil _).symm, (List.append_nil _).symm, .halted hreads,
            .halted hreads'⟩

end ReadsAll

/-! ## Playing up to a point -/

namespace Visitor

/-- What it comes to that a visitor that looks at nothing else is shown views one after the other:
it takes all of them, or gives up at one and is shown no more. -/
def showViews (g : View → γ → Except Fault Unit × γ) : List View → γ → Except Fault Unit × γ
  | [], state => (.ok (), state)
  | view :: rest, state =>
    match g view state with
    | (.error e, state) => (.error e, state)
    | (.ok (), state) => showViews g rest state

theorem showAll_ofView (g : View → γ → Except Fault Unit × γ) (visits : List (View × Session σ))
    (state : γ) : (ofView g).showAll visits state = showViews g (visits.map Prod.fst) state := by
  induction visits generalizing state with
  | nil => rfl
  | cons visit rest ih =>
    obtain ⟨view, s⟩ := visit
    have hstate : (ofView g view s state).2 = (g view state).2 := rfl
    rw [List.map_cons, showViews]
    rcases hview : g view state with ⟨e | u, next⟩
    · have hgiven : (ofView g view s state).1 = .error e := congrArg Prod.fst hview
      rw [showAll_cons_of_error hgiven, hstate, hview]
    · have htaken : (ofView g view s state).1 = .ok () := congrArg Prod.fst hview
      rw [showAll_cons_of_ok htaken, hstate, hview]
      exact ih next

end Visitor

section Playing

variable (v : Vocabulary C) (decode? : Option (Bytes → Tag → Decoding))
  (g : View → γ → Except Fault Unit × γ)

/-- A visitor that looks at items only is shown just what the bytes of a segment are read as. -/
theorem Playback.playSegment_showViews (segment : SegmentId) (data : Extent) (p : Playback σ γ) :
    let played := p.playSegment v (ReadingClient.ofFunction? decode?) (.ofView g) segment data
    ∃ records views halt?, Reads v decode? segment 0 data.toList records views halt? ∧
      played.2.visited = (Visitor.showViews g views p.visited).2 := by
  intro played
  obtain ⟨records, views, halt?, visits, p', hreads, hplayed, rfl, hvisited⟩ :=
    playSegment_shows v decode? (.ofView g) segment data p
  rw [Visitor.showAll_ofView] at hvisited
  refine ⟨records, _, halt?, hreads, ?_⟩
  rw [← hvisited]
  exact congrArg (fun result => result.2.visited) hplayed

/-- A visitor that looks at items only is shown just what the segments of a tape are read as. -/
theorem Tape.forEach_showViews (tape : Tape σ) (start : γ) (s : Session σ) :
    let played := (tape.setReader (ReadingClient.ofFunction? decode?)).forEach v (.ofView g) start s
    ∃ shown halt?, ReadsAll v decode? (tape.views s.store) shown halt? ∧
      played.2.1 = (Visitor.showViews g shown start).2 := by
  intro played
  obtain ⟨shown, halt?, visits, hreads, -, rfl, hvisited⟩ :=
    tape.forEach_shows v decode? (.ofView g) start s
  rw [Visitor.showAll_ofView] at hvisited
  exact ⟨_, halt?, hreads, hvisited⟩

/-- What is behind a point changes nothing before it. If two segments agree on their first bytes,
the visitor is shown the same items of the records that end within these, in the same order, before
it is shown any other; and if the segments of two tapes agree up to a point of one of them, the same
items of the records that end before it. It does not matter what follows, nor how playing ends. -/
theorem Tape.shown_before_damage :
    (∀ (segment : SegmentId) (data data' : Extent) (n : Nat) (p p' : Playback σ γ),
      data.toList.take n = data'.toList.take n → p'.visited = p.visited →
      let reader? := ReadingClient.ofFunction? decode?
      let played := p.playSegment v reader? (.ofView g) segment data
      let played' := p'.playSegment v reader? (.ofView g) segment data'
      ∃ records records' views views' halt? halt?' k,
        Reads v decode? segment 0 data.toList records views halt? ∧
        Reads v decode? segment 0 data'.toList records' views' halt?' ∧
        EndWithin n records k ∧ EndWithin n records' k ∧
        records'.take k = records.take k ∧ views'.take k = views.take k ∧
        played.2.visited = (Visitor.showViews g views p.visited).2 ∧
        played'.2.visited = (Visitor.showViews g views' p.visited).2) ∧
    ∀ (tape tape' : Tape σ) (s s' : Session σ) (front front' rest rest' : List SegmentView)
      (segment segment' : SegmentView) (n : Nat) (start : γ),
      tape.views s.store = front ++ segment :: rest →
      tape'.views s'.store = front' ++ segment' :: rest' →
      front.map SegmentView.shown = front'.map SegmentView.shown → segment.id = segment'.id →
      segment.data.toList.take n = segment'.data.toList.take n →
      let reader? := ReadingClient.ofFunction? decode?
      let played := (tape.setReader reader?).forEach v (.ofView g) start s
      let played' := (tape'.setReader reader?).forEach v (.ofView g) start s'
      ∃ shown later later' halt? halt?',
        ReadsAll v decode? (tape.views s.store) (shown ++ later) halt? ∧
        ReadsAll v decode? (tape'.views s'.store) (shown ++ later') halt?' ∧
        ShownBefore v decode? n (tape.views s.store) front.length shown ∧
        ShownBefore v decode? n (tape'.views s'.store) front.length shown ∧
        played.2.1 = (Visitor.showViews g (shown ++ later) start).2 ∧
        played'.2.1 = (Visitor.showViews g (shown ++ later') start).2 := by
  refine ⟨fun segment data data' n p p' hsame hvisited => ?_,
    fun tape tape' s s' front front' rest rest' segment segment' n start hviews hviews' hfront hid
      hsame => ?_⟩
  · obtain ⟨records, views, halt?, hreads, hplayed⟩ :=
      p.playSegment_showViews v decode? g segment data
    obtain ⟨records', views', halt?', hreads', hplayed'⟩ :=
      p'.playSegment_showViews v decode? g segment data'
    rw [hvisited] at hplayed'
    obtain ⟨k, hk⟩ := EndWithin.exists_count n records
    obtain ⟨hk', hrecords, hshown⟩ := hreads.agree hreads' hsame hk
    exact ⟨records, records', views, views', halt?, halt?', k, hreads, hreads', hk, hk', hrecords,
      hshown, hplayed, hplayed'⟩
  · obtain ⟨all, halt?, hreads, hplayed⟩ := tape.forEach_showViews v decode? g start s
    obtain ⟨all', halt?', hreads', hplayed'⟩ := tape'.forEach_showViews v decode? g start s'
    rw [hviews] at hreads ⊢
    rw [hviews'] at hreads' ⊢
    obtain ⟨shown, later, later', rfl, rfl, hshown, hshown'⟩ :=
      hreads.agree hreads' hfront hid hsame
    exact ⟨shown, later, later', halt?, halt?', hreads, hreads', hshown, hshown', hplayed, hplayed'⟩

end Playing

namespace Sample

theorem thirtyTwo_lt : 32 < Layout.memoryLimit := by
  decide

/-- Two byte items in a row, where another tag may stand in the place of the second one's. -/
def twoRecords (tag : Tag) : Bytes :=
  [7, 0, 0, 0, 0, 0, 0, 0, 9, 0, 0, 0, 0, 0, 0, 0, tag, 0, 0, 0, 0, 0, 0, 0, 4, 0, 0, 0, 0, 0, 0, 0]

/-- A session in whose memory they lie. -/
def twoRecorded (tag : Tag) : Session Tallies :=
  { Session.start machine [] with
    store := (Store.empty machine).add (.ofBytes (twoRecords tag) thirtyTwo_lt) }

/-- The segment of the two items. -/
def pairSegment : Segment :=
  ⟨⟨1⟩, ⟨0, 32, 0, none, false, thirtyTwo_lt⟩, 32, .client, Nat.le_refl _⟩

end Sample

/-- The tag of the second of two items is overwritten: the first is visited all the same. -/
theorem Tape.shown_before_damage_sample :
    let tape : Tape Tallies := .ofSegments [Sample.pairSegment]
    let g : View → List Bytes → Except Fault Unit × List Bytes :=
      fun view seen => (.ok (), seen ++ [view.record])
    let reader? := ReadingClient.ofFunction? (some Decoding.core)
    let intact := (tape.setReader reader?).forEach Sample.coreVocabulary (.ofView g) []
      (Sample.twoRecorded 7)
    let damaged := (tape.setReader reader?).forEach Sample.coreVocabulary (.ofView g) []
      (Sample.twoRecorded 200)
    intact.1 = .ok 2 ∧ damaged.1 = .error (.failed (.unknownTag 200)) ∧
    ∃ shown later later',
      ShownBefore Sample.coreVocabulary (some Decoding.core) 16
        (tape.views (Sample.twoRecorded 200).store) 0 shown ∧
      intact.2.1 = (Visitor.showViews g (shown ++ later) []).2 ∧
      damaged.2.1 = (Visitor.showViews g (shown ++ later') []).2 := by
  intro tape g reader? intact damaged
  obtain ⟨-, htapes⟩ :=
    shown_before_damage (σ := Tallies) Sample.coreVocabulary (some Decoding.core) g
  obtain ⟨shown, later, later', -, -, -, -, -, hbefore, hintact, hdamaged⟩ :=
    htapes tape tape (Sample.twoRecorded 7) (Sample.twoRecorded 200) [] [] [] []
      (Sample.pairSegment.view (Sample.twoRecorded 7).store)
      (Sample.pairSegment.view (Sample.twoRecorded 200).store) 16 [] rfl rfl rfl rfl
      (by decide +kernel)
  exact ⟨by decide +kernel, by decide +kernel, shown, later, later', hbefore, hintact, hdamaged⟩

end CommandTape
