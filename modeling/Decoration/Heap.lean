import Decoration.Object

/-! The heap: objects, shared descriptors and memo tables, each named by its place. -/

namespace Decoration

/-- A cached result belongs to the site that was decorated, the number of the receiver, and the text of
the arguments. -/
structure MemoKey where
  site : Nat
  receiver : Nat
  arguments : String
deriving DecidableEq, Repr

structure Memo where
  results : List (MemoKey × Value) := []
  nextSite : Nat := 0
deriving DecidableEq, Repr, Inhabited

structure Heap where
  objects : Array Object := #[]
  cells : Array Descriptor := #[]
  memos : Array Memo := #[]
deriving DecidableEq, Repr, Inhabited

namespace Heap

def object (h : Heap) (id : ObjectId) : Object := h.objects[id.index]?.getD .absent

def setObject (h : Heap) (id : ObjectId) (o : Object) : Heap :=
  { h with objects := h.objects.setIfInBounds id.index o }

def addObject (h : Heap) (o : Object) : ObjectId × Heap :=
  (⟨h.objects.size⟩, { h with objects := h.objects.push o })

def content (h : Heap) (handle : Handle) : Descriptor := h.cells[handle.index]?.getD default

def setContent (h : Heap) (handle : Handle) (d : Descriptor) : Heap :=
  { h with cells := h.cells.setIfInBounds handle.index d }

def addCell (h : Heap) (d : Descriptor) : Handle × Heap :=
  (⟨h.cells.size⟩, { h with cells := h.cells.push d })

def memo (h : Heap) (id : MemoId) : Memo := h.memos[id.index]?.getD {}

def setMemo (h : Heap) (id : MemoId) (m : Memo) : Heap :=
  { h with memos := h.memos.setIfInBounds id.index m }

def addMemo (h : Heap) : MemoId × Heap :=
  (⟨h.memos.size⟩, { h with memos := h.memos.push {} })

def capability? (h : Heap) : Value → Option Capability
  | .object id => (h.object id).capability?
  | _ => none

def isCallable (h : Heap) (v : Value) : Bool := (h.capability? v).isSome

def own? (h : Heap) (id : ObjectId) (key : String) : Option Descriptor :=
  (h.object id).properties.find? key

def ownKeys (h : Heap) (id : ObjectId) : List String := (h.object id).properties.keys

def findWithin (h : Heap) (key : String) : Nat → ObjectId → Option Descriptor
  | 0, _ => none
  | n + 1, id =>
    match h.own? id key with
    | some d => some d
    | none => (h.object id).prototype.bind (findWithin h key n)

/-- The first descriptor under the key, own or inherited. A chain without a cycle has at most as many
objects as the heap. -/
def find? (h : Heap) (id : ObjectId) (key : String) : Option Descriptor :=
  h.findWithin key h.objects.size id

def has (h : Heap) (id : ObjectId) (key : String) : Bool := (h.find? id key).isSome

def define (h : Heap) (id : ObjectId) (key : String) (d : Descriptor) : Except Fault Heap :=
  ((h.object id).define key d).map (h.setObject id)

def preventExtensions (h : Heap) (id : ObjectId) : Heap :=
  h.setObject id { h.object id with extensible := false }

theorem object_of_size_le {h : Heap} {id : ObjectId} (hid : h.objects.size ≤ id.index) :
    h.object id = .absent := by
  rw [object, Array.getElem?_eq_none hid, Option.getD_none]

theorem ne_addObject {h : Heap} {id : ObjectId} (hid : id.index < h.objects.size) (o : Object) :
    id ≠ (h.addObject o).1 := by
  rintro rfl
  exact absurd hid (Nat.lt_irrefl _)

@[simp] theorem size_setObject (h : Heap) (id : ObjectId) (o : Object) :
    (h.setObject id o).objects.size = h.objects.size := Array.size_setIfInBounds

theorem object_setObject {h : Heap} {id : ObjectId} (hid : id.index < h.objects.size)
    (o : Object) (other : ObjectId) :
    (h.setObject id o).object other = if other = id then o else h.object other := by
  by_cases he : other = id
  · simp [object, setObject, he, hid]
  · have hne : id.index ≠ other.index := fun e => he (by cases id; cases other; simp_all)
    simp [object, setObject, he, hne]

theorem object_setObject_or (h : Heap) (id : ObjectId) (o : Object) (other : ObjectId) :
    (h.setObject id o).object other = h.object other ∨
      other = id ∧ (h.setObject id o).object other = o := by
  by_cases hid : id.index < h.objects.size
  · rw [object_setObject hid]
    by_cases he : other = id
    · exact .inr ⟨he, if_pos he⟩
    · exact .inl (if_neg he)
  · left
    rw [object, setObject, Array.setIfInBounds_eq_of_size_le (Nat.le_of_not_lt hid), object]

theorem object_addObject (h : Heap) (o : Object) (other : ObjectId) :
    (h.addObject o).2.object other =
      if other = (h.addObject o).1 then o else h.object other := by
  by_cases he : other.index = h.objects.size
  · have : other = ⟨h.objects.size⟩ := by cases other; simp_all
    simp [object, addObject, this]
  · have hne : other ≠ ⟨h.objects.size⟩ := fun e => he (by simp [e])
    simp [object, addObject, hne, Array.getElem?_push, he]

theorem content_setContent {h : Heap} {handle : Handle} (hh : handle.index < h.cells.size)
    (d : Descriptor) (other : Handle) :
    (h.setContent handle d).content other = if other = handle then d else h.content other := by
  by_cases he : other = handle
  · simp [content, setContent, he, hh]
  · have hne : handle.index ≠ other.index := fun e => he (by cases handle; cases other; simp_all)
    simp [content, setContent, he, hne]

theorem content_addCell (h : Heap) (d : Descriptor) (other : Handle) :
    (h.addCell d).2.content other = if other = (h.addCell d).1 then d else h.content other := by
  by_cases he : other.index = h.cells.size
  · have : other = ⟨h.cells.size⟩ := by cases other; simp_all
    simp [content, addCell, this]
  · have hne : other ≠ ⟨h.cells.size⟩ := fun e => he (by simp [e])
    simp [content, addCell, hne, Array.getElem?_push, he]

end Heap
end Decoration
