import CommandTape.Record
import CommandTape.Word

/-!
# Views of records

A view models `ItemHandle`: it shows one record without owning its item. It knows the record's tag,
and shows the item as one of a given kind.
-/

namespace CommandTape

/-- A record where it lies. -/
structure View where
  record : Bytes
  /-- What the item in the record refers to. -/
  owned : Bytes
  location : Location
  header_le : Layout.headerSize ≤ record.length

namespace View

/-- The view of a record, which has to hold a header. -/
def ofRecord (record owned : Bytes) (location : Location) : Except Fault View :=
  if h : Layout.headerSize ≤ record.length then .ok ⟨record, owned, location, h⟩
  else .error .headerMissing

/-- The tag at the front of the record. -/
def tag (v : View) : Tag :=
  v.record.get ⟨0, Nat.lt_of_lt_of_le (by decide) v.header_le⟩

/-- The size of the record. -/
def length (v : View) : Nat := v.record.length

/-- Whether the record is tagged as records of kind `k` are. -/
def hasKind (v : View) (k : Kind) : Bool := v.tag = k.tag

/-- The item, seen as one of kind `k`. -/
def get (v : View) (k : Kind) : Except Fault Item :=
  if v.hasKind k then
    if k.recordSize ≤ v.length then
      .ok (Item.read k (v.record.drop Layout.headerSize) v.owned)
    else .error .viewTooShort
  else .error (.wrongTag v.location v.tag k.name k.tag)

/-- The view as a constructed value. -/
def summary (v : View) : String :=
  s!"ItemHandle \x7b item_type: {v.tag.toNat}, location: {v.location.summary}, " ++
    s!"len: {v.length} \x7d"

end View

end CommandTape
