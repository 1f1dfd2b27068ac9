import Decoration.Capability.Response
import Decoration.Environment
import Decoration.Proofs.Redefinition

/-! Relocation: the same objects, descriptors and memo sites at other places. The decorators of the
library stay where they are, and everything after them moves by as much as was there before. -/

namespace Decoration

structure Relocation where
  objects : Nat
  cells : Nat
  sites : Nat
deriving DecidableEq, Repr

def libraryCount : Nat := (libraryDecorators ⟨0⟩).length

/-- A value that is the same wherever objects are: a primitive, or a decorator of the library. -/
def Value.Portable : Value → Prop
  | .object id => id.index < libraryCount
  | .descriptor _ => False
  | _ => True

def Value.Primitive : Value → Prop
  | .object _ | .descriptor _ => False
  | _ => True

theorem Value.Primitive.portable {v : Value} (h : v.Primitive) : v.Portable := by
  cases v <;> first | exact h.elim | trivial

theorem Literal.primitive_value (l : Literal) : l.value.Primitive := by cases l <;> trivial

namespace Relocation

variable (t : Relocation)

def object (id : ObjectId) : ObjectId :=
  if id.index < libraryCount then id else ⟨id.index + t.objects⟩

def handle (h : Handle) : Handle := ⟨h.index + t.cells⟩

def value : Value → Value
  | .object id => .object (t.object id)
  | .descriptor h => .descriptor (t.handle h)
  | v => v

def descriptor : Descriptor → Descriptor
  | .data v w e c => .data (t.value v) w e c
  | .accessor getter setter e c => .accessor (getter.map t.value) (setter.map t.value) e c

def capability : Capability → Capability
  | .native name code => .native name code
  | .constant name result => .constant name (t.value result)
  | .memoized key memo site wrapped => .memoized key memo (site + t.sites) (t.value wrapped)
  | .deprecated key message wrapped => .deprecated key message (t.value wrapped)
  | .edit e => .edit e
  | .mark m => .mark m

def kind : ObjectKind → ObjectKind
  | .function c => .function (t.capability c)
  | .ordinary => .ordinary
  | .classValue name => .classValue name

def properties (p : Properties) : Properties :=
  ⟨p.entries.map fun entry => (entry.1, t.descriptor entry.2)⟩

def moved (o : Object) : Object :=
  { kind := t.kind o.kind, prototype := o.prototype.map t.object, extensible := o.extensible,
    properties := t.properties o.properties }

variable {t}

theorem object_of_lt {id : ObjectId} (h : id.index < libraryCount) : t.object id = id := if_pos h

theorem object_of_le {id : ObjectId} (h : libraryCount ≤ id.index) :
    t.object id = ⟨id.index + t.objects⟩ :=
  if_neg (Nat.not_lt.mpr h)

theorem object_inj {a b : ObjectId} : t.object a = t.object b ↔ a = b := by
  refine ⟨fun h => ?_, congrArg t.object⟩
  by_cases ha : a.index < libraryCount <;> by_cases hb : b.index < libraryCount
  · rwa [object_of_lt ha, object_of_lt hb] at h
  · rw [object_of_lt ha, object_of_le (Nat.not_lt.mp hb)] at h
    rw [h] at ha
    exact absurd (Nat.lt_of_le_of_lt (Nat.le_add_right _ _) ha) hb
  · rw [object_of_le (Nat.not_lt.mp ha), object_of_lt hb] at h
    rw [← h] at hb
    exact absurd (Nat.lt_of_le_of_lt (Nat.le_add_right _ _) hb) ha
  · rw [object_of_le (Nat.not_lt.mp ha), object_of_le (Nat.not_lt.mp hb)] at h
    have hindex : a.index = b.index := Nat.add_right_cancel (congrArg ObjectId.index h)
    cases a
    cases b
    exact congrArg ObjectId.mk hindex

theorem handle_inj {a b : Handle} : t.handle a = t.handle b ↔ a = b := by
  refine ⟨fun h => ?_, congrArg t.handle⟩
  have hindex : a.index = b.index := Nat.add_right_cancel (congrArg Handle.index h)
  cases a
  cases b
  exact congrArg Handle.mk hindex

theorem value_injective : Function.Injective t.value := by
  intro a b h
  cases a <;> cases b <;> simp only [value, Value.object.injEq, Value.descriptor.injEq, reduceCtorEq,
    object_inj, handle_inj] at h ⊢ <;> exact h

theorem value_of_portable {v : Value} (h : v.Portable) : t.value v = v := by
  cases v with
  | object id => exact congrArg Value.object (object_of_lt h)
  | descriptor handle => exact h.elim
  | _ => rfl

@[simp] theorem isTruthy_value (v : Value) : (t.value v).isTruthy = v.isTruthy := by cases v <;> rfl

@[simp] theorem isUndefined_value (v : Value) : (t.value v).isUndefined = v.isUndefined := by
  cases v <;> rfl

@[simp] theorem string?_value (v : Value) : (t.value v).string? = v.string? := by cases v <;> rfl

@[simp] theorem configurable_descriptor (d : Descriptor) :
    (t.descriptor d).configurable = d.configurable := by cases d <;> rfl

@[simp] theorem enumerable_descriptor (d : Descriptor) :
    (t.descriptor d).enumerable = d.enumerable := by cases d <;> rfl

@[simp] theorem writable?_descriptor (d : Descriptor) :
    (t.descriptor d).writable? = d.writable? := by cases d <;> rfl

theorem descriptor_setWritable (flag : Bool) (d : Descriptor) :
    t.descriptor (d.setWritable flag) = (t.descriptor d).setWritable flag := by cases d <;> rfl

theorem descriptor_setEnumerable (flag : Bool) (d : Descriptor) :
    t.descriptor (d.setEnumerable flag) = (t.descriptor d).setEnumerable flag := by cases d <;> rfl

theorem descriptor_setConfigurable (flag : Bool) (d : Descriptor) :
    t.descriptor (d.setConfigurable flag) = (t.descriptor d).setConfigurable flag := by
  cases d <;> rfl

theorem descriptor_setValue (v : Value) (d : Descriptor) :
    t.descriptor (d.setValue v) = (t.descriptor d).setValue (t.value v) := by cases d <;> rfl

theorem redefinable_descriptor (current new : Descriptor) :
    (t.descriptor current).redefinable (t.descriptor new) = current.redefinable new := by
  have hvalue : ∀ a b : Value, (t.value a).same (t.value b) = a.same b := by
    intro a b
    rw [Value.same, Value.same, decide_eq_decide]
    exact value_injective.eq_iff
  have hhalf : ∀ a b : Option Value, (a.map t.value = b.map t.value) = (a = b) := by
    intro a b
    exact propext (Option.map_injective value_injective).eq_iff
  cases current <;> cases new <;>
    simp [Descriptor.redefinable, descriptor, hvalue, hhalf, Descriptor.configurable,
      Descriptor.enumerable]

theorem find?_properties (p : Properties) (key : String) :
    (t.properties p).find? key = (p.find? key).map t.descriptor := by
  obtain ⟨entries⟩ := p
  simp only [Properties.find?, properties]
  induction entries with
  | nil => rfl
  | cons entry rest ih =>
    rw [List.map_cons, List.lookup_cons, List.lookup_cons, ih]
    cases key == entry.1 <;> rfl

theorem properties_insert (p : Properties) (key : String) (d : Descriptor) :
    t.properties (p.insert key d) = (t.properties p).insert key (t.descriptor d) := by
  obtain ⟨entries⟩ := p
  refine congrArg Properties.mk ?_
  change (Properties.place key d entries).map _ = Properties.place key (t.descriptor d) (entries.map _)
  induction entries with
  | nil => rfl
  | cons entry rest ih =>
    rw [Properties.place, List.map_cons, Properties.place]
    by_cases h : entry.1 = key
    · rw [if_pos h, if_pos h]
      rfl
    · rw [if_neg h, if_neg h, List.map_cons, ih]

theorem moved_insert (o : Object) (key : String) (d : Descriptor) :
    t.moved (o.insert key d) = (t.moved o).insert key (t.descriptor d) := by
  rw [moved, Object.insert, properties_insert]
  rfl

@[simp] theorem capability?_moved (o : Object) :
    (t.moved o).capability? = o.capability?.map t.capability := by
  obtain ⟨kind, _, _, _⟩ := o
  cases kind <;> rfl

@[simp] theorem className?_moved (o : Object) : (t.moved o).className? = o.className? := by
  obtain ⟨kind, _, _, _⟩ := o
  cases kind <;> rfl

@[simp] theorem name_capability (c : Capability) : (t.capability c).name = c.name := by
  cases c <;> rfl

theorem define_moved (o : Object) (key : String) (d : Descriptor) :
    (t.moved o).define key (t.descriptor d) = (o.define key d).map t.moved := by
  have hfind : (t.moved o).properties.find? key = (o.properties.find? key).map t.descriptor :=
    find?_properties ..
  rw [Object.define, hfind, Object.define]
  cases o.properties.find? key with
  | none =>
    dsimp only [Option.map_none]
    change (if o.extensible = true then _ else _) = _
    cases o.extensible with
    | true => exact congrArg Except.ok (moved_insert o key d).symm
    | false => rfl
  | some current =>
    dsimp only [Option.map_some]
    rw [configurable_descriptor, redefinable_descriptor]
    cases current.configurable || current.redefinable d with
    | true => exact congrArg Except.ok (moved_insert o key d).symm
    | false => rfl

theorem moved_absent : t.moved .absent = .absent := rfl

theorem descriptor_default : t.descriptor default = default := rfl

end Relocation
end Decoration
