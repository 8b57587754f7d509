import TypedJson.Types.Basic
/-!
# The table of types

`Interner` holds a slot for every handle.  `intern` hands out the handle of a form,
the same one every time; `reserve` hands out a fresh handle for a type with an
identity of its own, which `define` fills in.  An alias instance that has a handle
keeps it (`record`).  The members and index signatures of a type are computed once
and kept in its slot.
-/
namespace TypedJson

structure Slot where
  data : TypeData
  members : Option (List TypeMember)
  indexes : Option (List TypeIndex)

structure Interner where
  slots : Array Slot
  /-- The alias instances and records that have a handle, latest first. -/
  instances : List (Instance × TypeId)
  /-- The alias instances being expanded, innermost first. -/
  expanding : List Instance

namespace Interner

def empty : Interner := ⟨#[], [], []⟩

def data (s : Interner) (t : TypeId) : TypeData :=
  match s.slots[t.index]? with
  | some slot => slot.data
  | none => .reserved

/-- The slot stands for this form. -/
def Slot.hasForm (f : Form) (slot : Slot) : Bool :=
  match slot.data with
  | .form g => decide (g = f)
  | _ => false

def find? (s : Interner) (f : Form) : Option TypeId :=
  (s.slots.findIdx? (Slot.hasForm f)).map TypeId.mk

def push (s : Interner) (d : TypeData) : TypeId × Interner :=
  (⟨s.slots.size⟩, { s with slots := s.slots.push ⟨d, none, none⟩ })

/-- The handle of a form. -/
def intern (s : Interner) (f : Form) : TypeId × Interner :=
  match s.find? f with
  | some t => (t, s)
  | none => s.push (.form f)

/-- A fresh handle whose meaning is still open. -/
def reserve (s : Interner) : TypeId × Interner := s.push .reserved

def modifySlot (s : Interner) (t : TypeId) (f : Slot → Slot) : Interner :=
  { s with slots := s.slots.modify t.index f }

/-- Gives a reserved handle its meaning. -/
def define (s : Interner) (t : TypeId) (d : TypeData) : Interner :=
  s.modifySlot t fun slot => { slot with data := d }

def instance? (s : Interner) (i : Instance) : Option TypeId :=
  (s.instances.find? fun entry => decide (entry.1 = i)).map (·.2)

/-- Keeps the handle of an instance. -/
def record (s : Interner) (i : Instance) (t : TypeId) : Interner :=
  { s with instances := (i, t) :: s.instances }

def members? (s : Interner) (t : TypeId) : Option (List TypeMember) :=
  (s.slots[t.index]?).bind (·.members)

def setMembers (s : Interner) (t : TypeId) (ms : List TypeMember) : Interner :=
  s.modifySlot t fun slot => { slot with members := some ms }

def indexes? (s : Interner) (t : TypeId) : Option (List TypeIndex) :=
  (s.slots[t.index]?).bind (·.indexes)

def setIndexes (s : Interner) (t : TypeId) (is : List TypeIndex) : Interner :=
  s.modifySlot t fun slot => { slot with indexes := some is }

end Interner

/-- A computation on the table of types.  It has no result if it runs out of fuel,
which happens only to a type that would grow without end. -/
abbrev Session := StateT Interner Option

namespace Session

/-- The fuel is used up. -/
def outOfFuel : Session α := fun _ => none

def intern (f : Form) : Session TypeId := fun s => some (s.intern f)

def reserve : Session TypeId := fun s => some s.reserve

def update (f : Interner → Interner) : Session Unit := fun s => some ((), f s)

def query (f : Interner → α) : Session α := fun s => some (f s, s)

end Session
end TypedJson
