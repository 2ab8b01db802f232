/-!
# Journals

A journal is a list that grows at its end. Its entries are kept latest first, so that one more
costs the same however many there are; `Journal.toList` has them in the order in which they came.
-/

namespace CommandTape

/-- Entries in the order in which they came. -/
structure Journal (α : Type) where
  /-- The entries, latest first. -/
  latestFirst : List α
deriving DecidableEq, Repr

namespace Journal

variable {α : Type}

/-- The journal without entries. -/
def empty : Journal α := ⟨[]⟩

/-- The entries, oldest first. -/
def toList (j : Journal α) : List α := j.latestFirst.reverse

/-- The count of entries. -/
def length (j : Journal α) : Nat := j.latestFirst.length

/-- Whether there are no entries. -/
def isEmpty (j : Journal α) : Bool := j.latestFirst.isEmpty

/-- Adds an entry. -/
def add (j : Journal α) (a : α) : Journal α := ⟨a :: j.latestFirst⟩

/-- Adds entries in order. -/
def addAll (j : Journal α) (entries : List α) : Journal α := ⟨entries.reverse ++ j.latestFirst⟩

@[simp] theorem toList_add (j : Journal α) (a : α) : (j.add a).toList = j.toList ++ [a] := by
  simp [toList, add]

@[simp] theorem toList_addAll (j : Journal α) (entries : List α) :
    (j.addAll entries).toList = j.toList ++ entries := by
  simp [toList, addAll]

/-- Journals with the same entries are the same. -/
theorem toList_inj {j k : Journal α} : j.toList = k.toList ↔ j = k := by
  obtain ⟨a⟩ := j
  obtain ⟨b⟩ := k
  simp [toList]

end Journal

end CommandTape
