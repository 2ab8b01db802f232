import CommandTape.Session

/-!
# What stays in memory

Blocks are only ever added to memory, and writing to one block leaves the others as they are. A
segment lies in memory if its mapping is one of a block that is there; what such a segment shows
does not change while its block is kept.
-/

namespace CommandTape

namespace Block

/-- After a write, the front of a block up to the end of what was written is the front up to its
place, and what was written. -/
theorem read_write_front {b : Block} {offset : Nat} {bs : Bytes}
    (h : offset + bs.length ≤ b.size) :
    (b.write offset bs).read 0 (offset + bs.length) = b.read 0 offset ++ bs := by
  have hfront : (b.toList.take offset).length = offset := by
    rw [List.length_take, length_toList]
    omega
  have hlen : (b.toList.take offset ++ bs).length = offset + bs.length := by
    rw [List.length_append, hfront]
  rw [read_eq, read_eq, toList_write b offset bs h, List.drop_zero, List.drop_zero,
    Bytes.overwrite, ← hlen, List.take_left]

/-- A write leaves what stands before its place. -/
theorem read_write_before {b : Block} {offset n : Nat} (bs : Bytes) (h : n ≤ offset) :
    (b.write offset bs).read 0 n = b.read 0 n := by
  by_cases hfits : offset + bs.length ≤ b.size
  · have hle : n ≤ (b.toList.take offset).length := by
      rw [List.length_take, length_toList]
      omega
    rw [read_eq, read_eq, toList_write b offset bs hfits, List.drop_zero, List.drop_zero,
      Bytes.overwrite, List.append_assoc, List.take_append_of_le_length hle, List.take_take,
      Nat.min_eq_left h]
  · rw [write, dif_neg hfits]

theorem read_drop_take {b : Block} {start count m : Nat} (h : start + count ≤ m) :
    b.read start count = ((b.read 0 m).drop start).take count := by
  rw [read_eq, read_eq, List.drop_zero, List.drop_take, List.take_take,
    Nat.min_eq_left (by omega)]

end Block

namespace Store

/-- Every block of one store is in another as it is, on the same machine. -/
structure KeptIn (before after : Store) : Prop where
  next_le : before.next ≤ after.next
  get?_eq : ∀ n < before.next, after.get? n = before.get? n
  machine_eq : after.machine = before.machine

namespace KeptIn

variable {s s' s'' : Store}

theorem refl (s : Store) : s.KeptIn s := ⟨Nat.le_refl _, fun _ _ => rfl, rfl⟩

theorem trans (h : s.KeptIn s') (h' : s'.KeptIn s'') : s.KeptIn s'' := by
  refine ⟨Nat.le_trans h.next_le h'.next_le, ?_, h'.machine_eq.trans h.machine_eq⟩
  intro n hn
  rw [h'.get?_eq n (Nat.lt_of_lt_of_le hn h.next_le), h.get?_eq n hn]

theorem block_eq (h : s.KeptIn s') {n : Nat} (hn : n < s.next) : s'.block n = s.block n := by
  rw [block, block, h.get?_eq n hn]

theorem size_eq (h : s.KeptIn s') {n : Nat} (hn : n < s.next) : s'.size n = s.size n := by
  rw [size, size, h.block_eq hn]

end KeptIn

@[simp] theorem next_add (s : Store) (b : Block) : (s.add b).next = s.next + 1 := by
  simp [next, add]

theorem keptIn_add (s : Store) (b : Block) : s.KeptIn (s.add b) := by
  refine ⟨by simp, ?_, rfl⟩
  intro n hn
  exact get?_add_of_lt s b hn

theorem block_add_next (s : Store) (b : Block) : (s.add b).block s.next = b := by
  rw [block, get?_add_next, Option.getD_some]

theorem size_add_next (s : Store) (b : Block) : (s.add b).size s.next = b.size := by
  rw [size, block_add_next]

@[simp] theorem next_write (s : Store) (n offset : Nat) (bs : Bytes) :
    (s.write n offset bs).next = s.next := by
  simp [next, write]

theorem block_write_of_ne (s : Store) {n m : Nat} (offset : Nat) (bs : Bytes) (h : n ≠ m) :
    (s.write n offset bs).block m = s.block m := by
  rw [block, block, get?_write_of_ne s offset bs h]

theorem block_write_self (s : Store) {n : Nat} (offset : Nat) (bs : Bytes) (h : n < s.next) :
    (s.write n offset bs).block n = (s.block n).write offset bs := by
  have hlt : n < s.blocks.size := h
  have hget : s.get? n = some s.blocks[n] := Array.getElem?_eq_getElem hlt
  rw [block, block, get?_write_self, hget]
  rfl

end Store

namespace Segment

/-- The segment's mapping is one of a block that is in the store. -/
structure LiesIn (segment : Segment) (store : Store) : Prop where
  block_lt : segment.mapping.block < store.next
  length_eq : segment.mapping.length = store.size segment.mapping.block

variable {segment : Segment} {s s' : Store}

theorem LiesIn.mono (h : segment.LiesIn s) (hkept : s.KeptIn s') : segment.LiesIn s' := by
  refine ⟨Nat.lt_of_lt_of_le h.block_lt hkept.next_le, ?_⟩
  rw [hkept.size_eq h.block_lt]
  exact h.length_eq

theorem LiesIn.write (h : segment.LiesIn s) (n offset : Nat) (bs : Bytes) :
    segment.LiesIn (s.write n offset bs) := by
  refine ⟨by rw [Store.next_write]; exact h.block_lt, ?_⟩
  rw [Store.size_write]
  exact h.length_eq

/-- A segment shows the same while its block is kept. -/
theorem LiesIn.data_eq (h : segment.LiesIn s) (hkept : s.KeptIn s') :
    segment.data s' = segment.data s := by
  rw [data, data, hkept.block_eq h.block_lt]

/-- The front of what a segment shows is the front of its block. -/
theorem toList_take_data (segment : Segment) (s : Store) {n : Nat} (h : n ≤ segment.capacity) :
    ((segment.data s).take n).toList = s.read segment.mapping.block 0 n := by
  rw [Extent.toList_take, data, Extent.toList_ofBlock, List.take_take, Nat.min_eq_left h,
    Store.read, Block.read_eq, List.drop_zero]

/-- What a segment shows is the front of its block. -/
theorem toList_data (segment : Segment) (s : Store) :
    (segment.data s).toList = s.read segment.mapping.block 0 segment.capacity := by
  rw [data, Extent.toList_ofBlock, Store.read, Block.read_eq, List.drop_zero]

/-- The segment of the first bytes of another. -/
def cut (segment : Segment) (length : Nat) : Segment :=
  { segment with
    capacity := min length segment.capacity
    capacity_le := Nat.le_trans (Nat.min_le_right _ _) segment.capacity_le }

theorem truncate_eq_cut {length : Nat} (h : length ≤ segment.capacity) :
    segment.truncate length = .ok (segment.cut length) := by
  simp only [truncate, h, ↓reduceDIte, cut, Nat.min_eq_left h]

theorem LiesIn.cut (h : segment.LiesIn s) (length : Nat) : (segment.cut length).LiesIn s :=
  ⟨h.block_lt, h.length_eq⟩

theorem take_data_cut (segment : Segment) (s : Store) (length : Nat) :
    ((segment.cut length).data s).take length = (segment.data s).take length := by
  simp only [Segment.cut, data, Extent.ofBlock, Extent.take, Extent.mk.injEq, true_and]
  omega

end Segment

/-! ## Sessions -/

namespace Session

variable {σ : Type}

@[simp] theorem toList_destroyed_destroy (s : Session σ) (items : List Item) :
    (s.destroy items).destroyed.toList = s.destroyed.toList ++ items := by
  simp [destroy]

/-- What happened between two sessions kept all blocks and destroyed nothing. -/
structure Keeps (before after : Session σ) : Prop where
  kept : before.store.KeptIn after.store
  destroyed_eq : after.destroyed = before.destroyed

namespace Keeps

variable {s s' s'' : Session σ}

theorem refl (s : Session σ) : s.Keeps s := ⟨.refl _, rfl⟩

theorem trans (h : s.Keeps s') (h' : s'.Keeps s'') : s.Keeps s'' :=
  ⟨h.kept.trans h'.kept, h'.destroyed_eq.trans h.destroyed_eq⟩

theorem note (h : s.Keeps s') (n : Notice) : s.Keeps (s'.note n) := ⟨h.kept, h.destroyed_eq⟩

/-- A client that is asked for memory makes its segment in a new block. -/
theorem asked (s : Session σ) (supply : Supply) (clients : σ) :
    s.Keeps (s.asked supply clients) := ⟨.refl _, rfl⟩

theorem answered (h : s.Keeps s') (supply : Supply) : s.Keeps (s'.answered supply) :=
  ⟨h.kept, h.destroyed_eq⟩

end Keeps

/-- A segment in a block that the one session has and the other has not, all of whose bytes may be
used. -/
structure Adds (before after : Session σ) (segment : Segment) : Prop where
  keeps : before.Keeps after
  block_eq : segment.mapping.block = before.store.next
  capacity_eq : segment.capacity = segment.mapping.length
  lies : segment.LiesIn after.store

theorem Adds.note {s s' : Session σ} {segment : Segment} (h : s.Adds s' segment) (n : Notice) :
    s.Adds (s'.note n) segment :=
  ⟨h.keeps.note n, h.block_eq, h.capacity_eq, h.lies⟩

/-- A segment that a client offers lies in a new block. -/
theorem adds_adopt (s : Session σ) (offer : Offer) :
    s.Adds (s.adopt offer).2 (s.adopt offer).1 := by
  have hkept := s.store.keptIn_add offer.block
  have hlt : s.store.next < (s.store.add offer.block).next := by simp
  have hsize := (s.store.size_add_next offer.block).symm
  unfold adopt
  cases offer.id with
  | none => exact ⟨⟨hkept, rfl⟩, rfl, rfl, ⟨hlt, hsize⟩⟩
  | some id => exact ⟨⟨hkept, rfl⟩, rfl, rfl, ⟨hlt, hsize⟩⟩

/-- What allocating in a tape's own memory comes to: nothing, or a segment in a new block that may
be written to. -/
theorem allocate_cases (s : Session σ) (capacity : Nat) :
    (∃ h, s.allocate capacity = (.error h, s)) ∨
    ∃ segment s', s.allocate capacity = (.ok segment, s') ∧ s.Adds s' segment ∧
      segment.capacity = capacity ∧ segment.isAligned = true ∧
      segment.mapping.writable = true := by
  unfold allocate
  split
  · exact Or.inl ⟨_, rfl⟩
  · split
    · rename_i heven hfits
      have hkept := s.store.keptIn_add (.uniform capacity 0 hfits.1)
      have hlt : s.store.next < (s.store.add (.uniform capacity 0 hfits.1)).next := by simp
      have hsize := (s.store.size_add_next (.uniform capacity 0 hfits.1)).symm
      exact Or.inr ⟨_, _, rfl, ⟨⟨hkept, rfl⟩, rfl, rfl, ⟨hlt, hsize⟩⟩, rfl, rfl, rfl⟩
    · exact Or.inl ⟨_, rfl⟩

end Session

end CommandTape
