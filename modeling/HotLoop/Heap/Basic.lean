import HotLoop.Field.Declaration
import HotLoop.Version.Table

/-!
# The heap

Objects hold integer fields, named and declared by their class. Writing a field that is declared
quasi-immutable revokes its version before the value is stored. What fails changes nothing.
-/

namespace HotLoop

/-- A class declares only fields that it has. -/
structure ObjectClass where
  name : String
  fields : List String
  declared : Field.Declarations
  declared_fields : ∀ f ∈ declared.names, f ∈ fields

namespace ObjectClass

/-- The class with these fields and declarations. -/
def make (name : String) (fields specs : List String) : Except Error ObjectClass :=
  match Field.Declarations.parse specs with
  | .error e => .error e
  | .ok declared =>
    match h : declared.names.find? fun f => decide (f ∉ fields) with
    | some f => .error (.unknownField name f)
    | none => .ok
        { name := name
          fields := fields
          declared := declared
          declared_fields := fun f hf => by simpa using List.find?_eq_none.1 h f hf }

end ObjectClass

/-- An object; a field that is not in `values` is 0. -/
structure Object where
  cls : ObjectClass
  values : FinMap String Int

namespace Object

def get (o : Object) (field : String) : Except Error Int :=
  if field ∈ o.cls.fields then .ok (o.values.findD field 0)
  else .error (.unknownField o.cls.name field)

def set (o : Object) (field : String) (value : Int) : Except Error Object :=
  if field ∈ o.cls.fields then .ok { o with values := o.values.insert field value }
  else .error (.unknownField o.cls.name field)

def setAll (o : Object) : List (String × Int) → Except Error Object
  | [] => .ok o
  | (field, value) :: rest =>
    match o.set field value with
    | .ok o => o.setAll rest
    | .error e => .error e

end Object

/-- Objects, numbered by their position. -/
structure Heap where
  objects : List Object := []

namespace Heap

def object (h : Heap) (id : ObjectId) : Except Error Object :=
  match h.objects[id.number]? with
  | some o => .ok o
  | none => .error (.unknownObject id)

/-- Allocates an object; of two values for one field the later counts. -/
def alloc (h : Heap) (c : ObjectClass) (values : List (String × Int)) :
    Except Error (Heap × ObjectId) :=
  (Object.setAll ⟨c, ∅⟩ values).map fun o => (⟨h.objects ++ [o]⟩, ⟨h.objects.length⟩)

def get (h : Heap) (l : Location) : Except Error Int :=
  (h.object l.object).bind fun o => o.get l.field

/-- Whether the class of the object declares the field quasi-immutable. The field need not exist. -/
def isQuasi (h : Heap) (l : Location) : Except Error Bool :=
  (h.object l.object).map fun o => decide (o.cls.declared.IsQuasi l.field)

/-- What a write to `l` revokes: the version of a tracked location that is quasi-immutable. -/
def revoke (o : Object) (t : Versions) (l : Location) : Versions × Option Invalidation :=
  if o.cls.declared.IsQuasi l.field then
    match t.invalidate? l with
    | some (t, i) => (t, some i)
    | none => (t, none)
  else (t, none)

def set (h : Heap) (t : Versions) (l : Location) (value : Int) :
    Except Error (Heap × Versions × Option Invalidation) := do
  let o ← h.object l.object
  let written ← o.set l.field value
  let (t, i) := revoke o t l
  return (⟨h.objects.set l.object.number written⟩, t, i)

end Heap

end HotLoop
