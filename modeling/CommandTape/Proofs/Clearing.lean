import CommandTape.Proofs.Recording

/-!
# What clearing comes to

A tape finds every item that it remembers where its record was written (`Tape.Has.holder_eq`,
`Tape.read_item`), so clearing destroys each recorded item that is left to destroy, in the order of
recording, and leaves nothing on the tape (`Tape.Has.clear`).
-/

namespace CommandTape

namespace Session

variable {σ : Type}

@[simp] theorem destroy_destroy (s : Session σ) (a b : List Item) :
    (s.destroy a).destroy b = s.destroy (a ++ b) := by
  simp [destroy, Journal.addAll]

end Session

namespace Tape

variable {σ : Type} {tape : Tape σ} {s : Session σ} {c : Contents}

/-- An item's image stands behind the header of its record. -/
theorem image_of_text (before : List Recorded) (item : Item) (rest : Bytes) :
    ((Recorded.text before ++ (Record.inline item ++ rest)).drop
      ((Recorded.text before).length + Layout.headerSize)).take item.kind.size = item.image := by
  have hheader : Layout.headerSize ≤ (Record.inline item).length := by
    rw [Record.length_inline]
    exact item.kind.headerSize_le_recordSize
  rw [← List.drop_drop, List.drop_left, List.drop_append_of_le_length hheader, Record.drop_inline,
    List.append_assoc, ← item.length_image, List.take_left]

/-- An inline item is what is read from the place of its record. -/
theorem read_item {chapter : Chapter} (hlies : chapter.LiesIn s.store)
    {before after : List Recorded} {item : Item} (hinline : item.kind.isInline = true)
    (hrecords : chapter.records = before ++ .inline item hinline :: after) :
    Item.read item.kind (s.store.read chapter.segment.mapping.block
      ((Recorded.text before).length + Layout.headerSize) item.kind.size) [] = item := by
  have htext : chapter.text =
      Recorded.text before ++ (Record.inline item ++ Recorded.text after) := by
    rw [Chapter.text, hrecords, Recorded.text_append, Recorded.text_cons, Recorded.bytes]
  have hsize := item.kind.size_le_recordSize
  have hfits : (Recorded.text before).length + Layout.headerSize + item.kind.size ≤
      chapter.text.length := by
    rw [htext, List.length_append, List.length_append, Record.length_inline]
    omega
  have hread := hlies.read_eq
  rw [Store.read] at hread ⊢
  rw [Block.read_drop_take hfits, hread, htext, image_of_text,
    ← item.owned_eq_nil hinline, ← List.append_nil item.image, Item.read_image]

theorem destroyAll_append {a b : List Pending} {s' : Session σ}
    (h : tape.destroyAll a s = (.ok (), s')) :
    tape.destroyAll (a ++ b) s = tape.destroyAll b s' := by
  induction a generalizing s with
  | nil =>
    simp only [destroyAll, Prod.mk.injEq, true_and] at h
    rw [List.nil_append, h]
  | cons p rest ih =>
    rw [List.cons_append, destroyAll]
    rw [destroyAll] at h
    rcases hp : tape.destroyPending p s with ⟨f | _, next⟩
    · rw [hp] at h
      exact absurd (congrArg Prod.fst h) (by simp)
    · rw [hp] at h
      exact ih h

/-- Destroying what is remembered of the last records of a chapter destroys what is left of
them. -/
theorem destroyAll_records {chapter : Chapter} {index : Nat} (hlies : chapter.LiesIn s.store)
    (hholder : ∀ location kind, tape.holder? ⟨location, index, kind⟩ = some chapter.segment)
    (before after : List Recorded) (hrecords : chapter.records = before ++ after) :
    tape.destroyAll (Recorded.remember chapter.segment.id index (Recorded.text before).length after)
      s = (.ok (), s.destroy (after.flatMap Recorded.owed)) := by
  induction after generalizing before s with
  | nil => rfl
  | cons r after ih =>
    have hnext : chapter.records = (before ++ [r]) ++ after := by
      rw [hrecords, List.append_assoc, List.singleton_append]
    have hoffset : (Recorded.text (before ++ [r])).length =
        (Recorded.text before).length + r.bytes.length := by
      rw [Recorded.text_concat, List.length_append]
    rw [Recorded.remember, List.flatMap_cons, ← hoffset]
    cases r with
    | inline item hinline =>
      have hwritable := hlies.writable (by rw [hrecords]; simp)
      have hitem := read_item hlies hinline hrecords
      by_cases hdrop : item.kind.needsDrop = true
      · have hafter : chapter.LiesIn (s.destroy [item]).store := hlies
        simp only [Recorded.pending, Recorded.owed, Item.remains, hdrop, ↓reduceIte,
          List.singleton_append, destroyAll, destroyPending, hholder, hwritable, hitem]
        rw [ih hafter _ hnext, Session.destroy_destroy, List.singleton_append]
      · simp only [Recorded.pending, Recorded.owed, Item.remains, hdrop, Bool.false_eq_true,
          ↓reduceIte, List.nil_append]
        exact ih hlies _ hnext
    | encoded item blob hinline hlen =>
      rw [Recorded.pending, Recorded.owed, List.nil_append, List.nil_append]
      exact ih hlies _ hnext

/-- Destroying what is remembered of chapters destroys what is left of their records. -/
theorem destroyAll_chapters {index : Nat} {chapters : List Chapter}
    (h : ∀ i chapter, chapters[i]? = some chapter → chapter.LiesIn s.store ∧
      ∀ location kind, tape.holder? ⟨location, index + i, kind⟩ = some chapter.segment) :
    tape.destroyAll (Chapter.remember index chapters) s =
      (.ok (), s.destroy ((chapters.flatMap Chapter.records).flatMap Recorded.owed)) := by
  induction chapters generalizing index s with
  | nil => rfl
  | cons chapter rest ih =>
    obtain ⟨hlies, hholder⟩ := h 0 chapter rfl
    have hfirst : tape.destroyAll (Recorded.remember chapter.segment.id index 0 chapter.records) s =
        (.ok (), s.destroy (chapter.records.flatMap Recorded.owed)) :=
      destroyAll_records hlies hholder [] chapter.records rfl
    have hrest : ∀ i other, rest[i]? = some other →
        other.LiesIn (s.destroy (chapter.records.flatMap Recorded.owed)).store ∧
        ∀ location kind, tape.holder? ⟨location, index + 1 + i, kind⟩ = some other.segment := by
      intro i other hget
      rw [Nat.add_assoc, Nat.add_comm 1 i]
      exact h (i + 1) other hget
    rw [Chapter.remember, destroyAll_append hfirst, ih hrest, Session.destroy_destroy,
      List.flatMap_cons, List.flatMap_append]

/-- What is remembered of a chapter leads to its segment. -/
theorem Has.holder_eq {store : Store} (h : tape.Has store c) {i : Nat} {chapter : Chapter}
    (hget : c.chapters[i]? = some chapter) (location : Location) (kind : Kind) :
    tape.holder? ⟨location, c.given.length + i, kind⟩ = some chapter.segment := by
  have hcount : tape.frozen.length = c.given.length + c.full.length := by
    rw [h.frozen, List.length_append, List.length_map]
  rw [Contents.chapters] at hget
  rcases Nat.lt_or_ge i c.full.length with hlt | hge
  · have hfrozen : tape.frozen[c.given.length + i]? = some chapter.segment := by
      rw [List.getElem?_append_left hlt] at hget
      rw [h.frozen, List.getElem?_append_right (Nat.le_add_right _ _), Nat.add_sub_cancel_left,
        List.getElem?_map, hget, Option.map_some]
    rw [holder?, if_pos (show c.given.length + i < tape.frozen.length by omega), hfrozen]
  · rw [List.getElem?_append_right hge] at hget
    cases hc : c.current with
    | none =>
      rw [hc] at hget
      exact absurd hget (by simp)
    | some last =>
      rw [hc, Option.toList_some] at hget
      obtain ⟨hi, hlast⟩ := List.getElem?_eq_some_iff.1 hget
      rw [List.length_singleton] at hi
      have hplace : i = c.full.length := by omega
      have hsegment : last = chapter := by simpa [hplace] using hlast
      rw [holder?, if_neg (show ¬c.given.length + i < tape.frozen.length by omega),
        if_pos (show c.given.length + i = tape.frozen.length by omega), h.writable, hc, hsegment,
        Option.map_some]

/-- Clearing destroys what is left of the recorded items, in the order of recording, and leaves
nothing on the tape. -/
theorem Has.clear (h : tape.Has s.store c) :
    ∃ next s', tape.clear s = (.ok (), next, s') ∧ s'.store = s.store ∧
      s'.destroyed.toList = s.destroyed.toList ++ c.records.flatMap Recorded.owed ∧
      next.Has s'.store ⟨[], [], none⟩ ∧ tape.SameSetup next := by
  have hstart : ∃ s₁ : Session σ, s₁.store = s.store ∧ s₁.destroyed = s.destroyed ∧
      (if tape.pending.isEmpty then s else s.note (.destroying tape.pending.length)) = s₁ := by
    by_cases hempty : tape.pending.isEmpty = true
    · exact ⟨s, rfl, rfl, if_pos hempty⟩
    · exact ⟨s.note (.destroying tape.pending.length), rfl, rfl, if_neg hempty⟩
  obtain ⟨s₁, hstore, hdestroyed, hs₁⟩ := hstart
  have hdestroy : tape.destroyAll tape.pending.toList s₁ =
      (.ok (), s₁.destroy (c.records.flatMap Recorded.owed)) := by
    rw [h.pending, Contents.pending, Contents.records]
    refine destroyAll_chapters ?_
    intro i chapter hget
    refine ⟨?_, h.holder_eq hget⟩
    rw [hstore]
    exact h.chapters chapter (List.mem_of_getElem? hget)
  simp only [Tape.clear, hs₁, hdestroy]
  refine ⟨_, _, rfl, hstore, ?_, has_nothing rfl rfl rfl rfl _, rfl, rfl, rfl⟩
  rw [Session.toList_destroyed_destroy, hdestroyed]

end Tape

end CommandTape
