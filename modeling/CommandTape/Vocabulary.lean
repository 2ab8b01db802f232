import CommandTape.View

/-!
# Vocabularies

A vocabulary models `ItemRegistry`, what a consumer knows about the kinds of items that it can apply
to a context: their sizes, and what each does. No tag stands for two kinds.
-/

namespace CommandTape

/-- A kind and what its items do to a context. -/
structure Entry (C : Type) where
  kind : Kind
  /-- What an item does. A fault leaves the context as it was when it struck. -/
  apply : Item → C → Except Fault Unit × C

/-- The kinds that a consumer knows. -/
structure Vocabulary (C : Type) where
  entries : List (Entry C)

namespace Vocabulary

variable {C : Type}

/-- The vocabulary without kinds. -/
def empty : Vocabulary C := ⟨[]⟩

/-- The entry for a tag. -/
def find? (v : Vocabulary C) (tag : Tag) : Option (Entry C) :=
  v.entries.find? fun entry => entry.kind.tag == tag

/-- Whether the tag stands for a kind. -/
def contains (v : Vocabulary C) (tag : Tag) : Bool := (v.find? tag).isSome

/-- The kind that the tag stands for. -/
def kind? (v : Vocabulary C) (tag : Tag) : Option Kind := (v.find? tag).map Entry.kind

/-- The size of inline records with this tag. -/
def recordSize? (v : Vocabulary C) (tag : Tag) : Option Nat := (v.kind? tag).map Kind.recordSize

/-- Whether items with this tag lie in segments as they are. -/
def isInline? (v : Vocabulary C) (tag : Tag) : Option Bool := (v.kind? tag).map Kind.isInline

/-- The name of the kind that the tag stands for. -/
def name? (v : Vocabulary C) (tag : Tag) : Option String := (v.kind? tag).map Kind.name

/-- The tags that stand for a kind, in ascending order. -/
def tags (v : Vocabulary C) : List Tag :=
  ((List.range 256).map UInt8.ofNat).filter v.contains

/-- Adds a kind, whose tag must not be taken and whose items records must be able to hold. -/
def register (v : Vocabulary C) (entry : Entry C) : Except Fault (Vocabulary C) :=
  if entry.kind.fits then
    match v.find? entry.kind.tag with
    | some owner => .error (.tagTaken entry.kind.tag owner.kind.name entry.kind.name)
    | none => .ok ⟨v.entries ++ [entry]⟩
  else .error (.overAligned entry.kind.name entry.kind.align)

/-- Applies the item of a record to a context. -/
def apply (v : Vocabulary C) (view : View) (context : C) : Outcome DecodeError Unit × C :=
  match v.find? view.tag with
  | none => (.error (.failed (.unknownTag view.tag)), context)
  | some entry =>
    match view.get entry.kind with
    | .error f => (.error (.fault f), context)
    | .ok item =>
      let (outcome, context) := entry.apply item context
      (.ofFaulty outcome, context)

end Vocabulary

end CommandTape
