import Decoration.Action
import Decoration.Proofs.Redefinition

/-! A heap with other properties in one object. -/

namespace Decoration

variable {σ : Type}

namespace Heap

def withProperties (h : Heap) (id : ObjectId) (p : Properties) : Heap :=
  h.setObject id { h.object id with properties := p }

variable {h : Heap} {id : ObjectId}

@[simp] theorem size_withProperties (h : Heap) (id : ObjectId) (p : Properties) :
    (h.withProperties id p).objects.size = h.objects.size := size_setObject h id _

theorem object_withProperties (hid : id.index < h.objects.size) (p : Properties) :
    (h.withProperties id p).object id = { h.object id with properties := p } := by
  rw [withProperties, object_setObject hid, if_pos rfl]

theorem object_withProperties_ne {other : ObjectId} (hid : id.index < h.objects.size)
    (hne : other ≠ id) (p : Properties) :
    (h.withProperties id p).object other = h.object other := by
  rw [withProperties, object_setObject hid, if_neg hne]

theorem withProperties_withProperties (hid : id.index < h.objects.size) (p q : Properties) :
    (h.withProperties id p).withProperties id q = h.withProperties id q := by
  rw [withProperties, object_withProperties hid]
  simp [withProperties, setObject]

theorem withProperties_comm {other : ObjectId} (hid : id.index < h.objects.size)
    (hother : other.index < h.objects.size) (hne : other ≠ id) (p q : Properties) :
    (h.withProperties id p).withProperties other q =
      (h.withProperties other q).withProperties id p := by
  have hindex : id.index ≠ other.index := fun heq => hne (by cases id; cases other; simp_all)
  rw [withProperties, object_withProperties_ne hid hne, withProperties, withProperties,
    object_withProperties_ne hother hne.symm]
  simp [withProperties, setObject, Array.setIfInBounds_comm _ _ hindex]

theorem withProperties_self (hid : id.index < h.objects.size) :
    h.withProperties id (h.object id).properties = h := by
  have hget : h.object id = h.objects[id.index] := by simp [object, hid]
  change h.setObject id (h.object id) = h
  rw [setObject, hget, Array.setIfInBounds_def, dif_pos hid, Array.set_getElem_self]

theorem addObject_withProperties (hid : id.index < h.objects.size) (p : Properties) (o : Object) :
    (h.withProperties id p).addObject o =
      ((h.addObject o).1, (h.addObject o).2.withProperties id p) := by
  rw [withProperties, withProperties, object_addObject, if_neg (ne_addObject hid o)]
  simp [addObject, setObject, Array.setIfInBounds_def, Array.set_push, hid, Nat.lt_succ_of_lt hid]

theorem capability?_withProperties (hid : id.index < h.objects.size) (p : Properties) (v : Value) :
    (h.withProperties id p).capability? v = h.capability? v := by
  cases v with
  | object other =>
    by_cases heq : other = id
    · rw [heq, capability?, object_withProperties hid]
      rfl
    · rw [capability?, object_withProperties_ne hid heq]
      rfl
  | _ => rfl

theorem isCallable_withProperties (hid : id.index < h.objects.size) (p : Properties) (v : Value) :
    (h.withProperties id p).isCallable v = h.isCallable v := by
  rw [isCallable, capability?_withProperties hid, isCallable]

end Heap

namespace World

def withProperties (w : World σ) (id : ObjectId) (p : Properties) : World σ :=
  { w with heap := w.heap.withProperties id p }

variable {w : World σ} {id : ObjectId} {key : String} {d : Descriptor}

theorem withProperties_withProperties (hid : id.index < w.heap.objects.size) (p q : Properties) :
    (w.withProperties id p).withProperties id q = w.withProperties id q :=
  congrArg (World.mk · w.host) (Heap.withProperties_withProperties hid p q)

theorem withProperties_self (hid : id.index < w.heap.objects.size) :
    w.withProperties id (w.heap.object id).properties = w :=
  congrArg (World.mk · w.host) (Heap.withProperties_self hid)

def insert (w : World σ) (id : ObjectId) (key : String) (d : Descriptor) : World σ :=
  w.withProperties id ((w.heap.object id).properties.insert key d)

theorem object_insert_self (hid : id.index < w.heap.objects.size) :
    (w.insert id key d).heap.object id = (w.heap.object id).insert key d :=
  Heap.object_withProperties hid _

theorem insert_withProperties {other : ObjectId} (hid : id.index < w.heap.objects.size)
    (hother : other.index < w.heap.objects.size) (hne : other ≠ id) (p : Properties) :
    (w.withProperties id p).insert other key d = (w.insert other key d).withProperties id p := by
  have hobject : (w.withProperties id p).heap.object other = w.heap.object other :=
    Heap.object_withProperties_ne hid hne p
  rw [insert, hobject, insert]
  exact congrArg (World.mk · w.host) (Heap.withProperties_comm hid hother hne p _)

theorem own?_insert_self (hid : id.index < w.heap.objects.size) :
    (w.insert id key d).heap.own? id key = some d := by
  rw [Heap.own?, object_insert_self hid, Object.find?_insert_self]

theorem own?_insert (hid : id.index < w.heap.objects.size) (key other : String) (d : Descriptor) :
    (w.insert id key d).heap.own? id other = if other = key then some d else w.heap.own? id other := by
  rw [Heap.own?, object_insert_self hid]
  exact Properties.find?_insert _ key other d

theorem ownKeys_insert (hid : id.index < w.heap.objects.size) (key : String) (d : Descriptor) :
    (w.insert id key d).heap.ownKeys id =
      w.heap.ownKeys id ++ if key ∈ w.heap.ownKeys id then [] else [key] := by
  rw [Heap.ownKeys, object_insert_self hid]
  exact Properties.keys_insert _ key d

theorem insert_insert (hid : id.index < w.heap.objects.size) (key : String) (d d' : Descriptor) :
    (w.insert id key d).insert id key d' = w.insert id key d' := by
  rw [insert, object_insert_self hid, insert, withProperties_withProperties hid]
  exact congrArg (w.withProperties id) (Properties.insert_insert _ key d d')

end World

end Decoration
