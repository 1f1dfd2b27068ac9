import Decoration.Capability.Response
import Decoration.Proofs.Lineage
import Decoration.Proofs.Success.Engine

/-! Assignment, told from the first property along the prototype chain. A setter is called in its place.
Otherwise the object itself gets the value, if neither that property nor a closed object stands in the
way, and reading it back gives the value. -/

namespace Decoration

open Decoration.Action

variable {σ : Type}

namespace Heap

variable {h : Heap} {id : ObjectId} {key : String} {found : Option Descriptor}

def Meets (h : Heap) (key : String) (id : ObjectId) : Option Descriptor → Prop
  | some d => h.Finds key id d
  | none => h.Lacks key id

theorem meets_iff : h.Meets key id found ↔ h.find? id key = found := by
  cases found with
  | none => exact find?_eq_none_iff.symm
  | some d => exact find?_eq_some_iff.symm

theorem Meets.own (hm : h.Meets key id found) {d : Descriptor} (hd : h.own? id key = some d) :
    found = some d := (meets_iff.mp hm).symm.trans (find?_of_own? hd)

theorem Meets.own_ne_accessor (hm : h.Meets key id found)
    (data : ∀ getter setter e c, found ≠ some (.accessor getter setter e c)) :
    ∀ getter setter e c, h.own? id key ≠ some (.accessor getter setter e c) :=
  fun getter setter e c hown => data getter setter e c (hm.own hown)

def assigned (h : Heap) (id : ObjectId) (key : String) (value : Value) : Descriptor :=
  match h.own? id key with
  | some d => d.setValue value
  | none => .ordinary value

end Heap

namespace World

/-- The object has got the value under the key, and nothing else has changed. -/
structure Assigned (w : World σ) (id : ObjectId) (key : String) (value : Value) (w' : World σ) :
    Prop where
  own : ∀ v writable e c, w.heap.own? id key = some (.data v writable e c) →
    w'.heap.own? id key = some (.data value writable e c)
  fresh : w.heap.own? id key = none → w'.heap.own? id key = some (.data value true true true)
  keys : w'.heap.ownKeys id =
    w.heap.ownKeys id ++ if key ∈ w.heap.ownKeys id then [] else [key]
  others : ∀ other, other ≠ key → w'.heap.own? id other = w.heap.own? id other
  object : w'.heap.object id =
    { w.heap.object id with properties := (w'.heap.object id).properties }
  beside : ∀ other, other ≠ id → w'.heap.object other = w.heap.object other
  size : w'.heap.objects.size = w.heap.objects.size
  world : w' = { w with heap := { w.heap with objects := w'.heap.objects } }

theorem assigned_insert {w : World σ} {id : ObjectId} (hid : id.index < w.heap.objects.size)
    (key : String) (value : Value) :
    w.Assigned id key value (w.insert id key (w.heap.assigned id key value)) where
  own v writable e c hown := by
    rw [own?_insert_self hid, Heap.assigned, hown]
    rfl
  fresh hown := by
    rw [own?_insert_self hid, Heap.assigned, hown]
    rfl
  keys := ownKeys_insert hid key _
  others other hother := by rw [own?_insert hid, if_neg hother]
  object := by
    rw [object_insert_self hid]
    rfl
  beside other hother := Heap.object_withProperties_ne hid hother _
  size := Heap.size_withProperties _ _ _
  world := rfl

end World

namespace ObjectId

variable {caller : Caller σ} {id : ObjectId} {key : String} {value : Value} {w w' : World σ}
  {found : Option Descriptor}

def putOver (caller : Caller σ) (id : ObjectId) (key : String) (value : Value) :
    Option Descriptor → Action σ Fault Unit
  | some (.accessor _ (some setter) ..) => do
    let _ ← setter.call caller (.object id) [value]
    pure ()
  | some (.accessor _ none ..) => fail (.type (.getterOnly key))
  | some (.data _ false ..) => fail (.type (.readOnly key))
  | _ => id.write key value

theorem put_eq_putOver (hmeets : w.heap.Meets key id found) :
    id.put caller key value w = id.putOver caller key value found w := by
  rw [← Heap.meets_iff.mp hmeets]
  rfl

theorem put_eq_write (hmeets : w.heap.Meets key id found)
    (data : ∀ getter setter e c, found ≠ some (.accessor getter setter e c))
    (writable : ∀ v e c, found ≠ some (.data v false e c)) :
    id.put caller key value w = (id.write key value : Action σ Fault Unit) w := by
  rw [put_eq_putOver hmeets]
  rcases found with _ | ⟨v, _ | _, e, c⟩ | ⟨getter, setter, e, c⟩
  · rfl
  · exact absurd rfl (writable v e c)
  · rfl
  · exact absurd rfl (data getter setter e c)

def writeOver (h : Heap) (id : ObjectId) (key : String) (value : Value) :
    Option Descriptor → Action σ Fault Unit
  | some (.data _ w e c) =>
    setHeap (h.setObject id ((h.object id).insert key (.data value w e c)))
  | _ => id.define key (.ordinary value)

theorem write_eq_writeOver : (id.write key value : Action σ Fault Unit) w =
    writeOver w.heap id key value (w.heap.own? id key) w := rfl

theorem write_eq
    (data : ∀ getter setter e c, w.heap.own? id key ≠ some (.accessor getter setter e c)) :
    (id.write key value : Action σ Fault Unit) w =
      if key ∈ w.heap.ownKeys id then
        ⟨.ok (), w.insert id key (w.heap.assigned id key value), []⟩
      else (id.define key (w.heap.assigned id key value) : Action σ Fault Unit) w := by
  rw [write_eq_writeOver, Heap.assigned]
  cases hown : w.heap.own? id key with
  | none =>
    rw [if_neg (Heap.own?_eq_none.mp hown)]
    rfl
  | some d =>
    rw [if_pos (Heap.mem_ownKeys_of_own? hown)]
    cases d with
    | data v writable e c => rfl
    | accessor getter setter e c => exact absurd hown (data getter setter e c)

theorem yields_write
    (data : ∀ getter setter e c, w.heap.own? id key ≠ some (.accessor getter setter e c)) :
    (id.write key value : Action σ Fault Unit).Yields w () w' ↔
      (key ∈ w.heap.ownKeys id ∨ (w.heap.object id).extensible = true) ∧
        w.insert id key (w.heap.assigned id key value) = w' := by
  by_cases hkey : key ∈ w.heap.ownKeys id
  · rw [Yields, write_eq data, if_pos hkey]
    exact ⟨fun h => ⟨.inl hkey, h.2⟩, fun h => ⟨rfl, h.2⟩⟩
  · have hnone : w.heap.own? id key = none := Heap.own?_eq_none.mpr hkey
    rw [Yields, write_eq data, if_neg hkey]
    refine yields_define.trans (and_congr_left' ⟨fun h => .inr (h.absent hnone), fun h => ?_⟩)
    exact ⟨fun _ => h.resolve_left hkey, fun d hd => absurd (hnone.symm.trans hd) nofun⟩

theorem write_total
    (data : ∀ getter setter e c, w.heap.own? id key ≠ some (.accessor getter setter e c)) :
    (∃ w', (id.write key value : Action σ Fault Unit).Yields w () w') ∨
      ∃ fault, (id.write key value : Action σ Fault Unit) w = ⟨.failed fault, w, []⟩ := by
  by_cases hkey : key ∈ w.heap.ownKeys id
  · exact .inl ⟨_, (yields_write data).mpr ⟨.inl hkey, rfl⟩⟩
  · simp only [Yields, write_eq data, if_neg hkey]
    exact id.define_total key _ w

theorem lt_size_of_writable (h : key ∈ w.heap.ownKeys id ∨ (w.heap.object id).extensible = true) :
    id.index < w.heap.objects.size := by
  by_contra hid
  rw [Heap.ownKeys, Heap.object_of_size_le (Nat.le_of_not_lt hid)] at h
  rcases h with hkey | hextensible
  · exact absurd hkey List.not_mem_nil
  · exact absurd hextensible Bool.false_ne_true

theorem yields_get_of_own {reader : Caller σ} {v : Value} {writable e c : Bool}
    (hown : w.heap.own? id key = some (.data v writable e c)) :
    (id.get reader key).Yields w v w := by
  refine yields_heap_bind.mpr ?_
  rw [Heap.find?_of_own? hown]
  exact ⟨rfl, rfl⟩

theorem put_of_readOnly {v : Value} {e c : Bool} (hmeets : w.heap.Finds key id (.data v false e c)) :
    id.put caller key value w = ⟨.failed (.type (.readOnly key)), w, []⟩ := by
  rw [put_eq_putOver (show w.heap.Meets key id (some _) from hmeets)]
  rfl

theorem yields_get_of_assigned {reader : Caller σ} (h : w.Assigned id key value w')
    (data : ∀ getter setter e c, w.heap.own? id key ≠ some (.accessor getter setter e c)) :
    (id.get reader key).Yields w' value w' := by
  cases hown : w.heap.own? id key with
  | none => exact yields_get_of_own (h.fresh hown)
  | some d =>
    cases d with
    | data v writable e c => exact yields_get_of_own (h.own v writable e c hown)
    | accessor getter setter e c => exact absurd hown (data getter setter e c)

theorem yields_put (hmeets : w.heap.Meets key id found)
    (data : ∀ getter setter e c, found ≠ some (.accessor getter setter e c)) :
    (id.put caller key value).Yields w () w' ↔
      (∀ v e c, found ≠ some (.data v false e c)) ∧
        (key ∈ w.heap.ownKeys id ∨ (w.heap.object id).extensible = true) ∧
        w.insert id key (w.heap.assigned id key value) = w' := by
  by_cases hwritable : ∀ v e c, found ≠ some (.data v false e c)
  · rw [Yields, put_eq_write hmeets data hwritable, and_iff_right hwritable]
    exact yields_write (hmeets.own_ne_accessor data)
  · obtain ⟨v, e, c, rfl⟩ : ∃ v e c, found = some (.data v false e c) := by
      simpa only [not_forall, not_not] using hwritable
    rw [Yields, put_of_readOnly hmeets]
    exact ⟨fun h => (nomatch h.1), fun h => absurd rfl (h.1 v e c)⟩

theorem put_total (caller : Caller σ) (value : Value) (hmeets : w.heap.Meets key id found)
    (data : ∀ getter setter e c, found ≠ some (.accessor getter setter e c)) :
    (∃ w', (id.put caller key value).Yields w () w') ∨
      ∃ fault, id.put caller key value w = ⟨.failed fault, w, []⟩ := by
  by_cases hwritable : ∀ v e c, found ≠ some (.data v false e c)
  · simp only [Yields, put_eq_write hmeets data hwritable]
    exact write_total (hmeets.own_ne_accessor data)
  · obtain ⟨v, e, c, rfl⟩ : ∃ v e c, found = some (.data v false e c) := by
      simpa only [not_forall, not_not] using hwritable
    exact .inr ⟨_, put_of_readOnly hmeets⟩

/-- Assignment and what is read afterwards, by what is met first under the key. With a data property or
nothing, the object is assigned to, if that property can be written and the object owns the key or takes
new ones, and the value is there to be read. Otherwise nothing happens at all. A setter is called once,
and that call is all that happens. Without one nothing happens. -/
theorem put_law (caller : Caller σ) (id : ObjectId) (key : String) (value : Value) (w : World σ) :
    (∃! found, w.heap.Meets key id found) ∧
    (∀ found, w.heap.Meets key id found →
      (∀ getter setter e c, found ≠ some (.accessor getter setter e c)) →
      ((∃ w', (id.put caller key value).Yields w () w') ↔
        (∀ v e c, found ≠ some (.data v false e c)) ∧
          (key ∈ w.heap.ownKeys id ∨ (w.heap.object id).extensible = true)) ∧
      (∀ w', (id.put caller key value).Yields w () w' →
        w.Assigned id key value w' ∧
          ∀ reader : Caller σ, (id.get reader key).Yields w' value w') ∧
      ((∃ w', (id.put caller key value).Yields w () w') ∨
        ∃ fault, id.put caller key value w = ⟨.failed fault, w, []⟩)) ∧
    (∀ getter setter e c, w.heap.Finds key id (.accessor getter (some setter) e c) →
      id.put caller key value w =
        ((fun _ => ()) <$> setter.call caller (.object id) [value] : Action σ Fault Unit) w) ∧
    ∀ getter e c, w.heap.Finds key id (.accessor getter none e c) →
      id.put caller key value w = ⟨.failed (.type (.getterOnly key)), w, []⟩ := by
  refine ⟨⟨_, Heap.meets_iff.mpr rfl, fun found h => (Heap.meets_iff.mp h).symm⟩, ?_,
    fun getter setter e c hmeets => ?_, fun getter e c hmeets => ?_⟩
  · intro found hmeets hdata
    refine ⟨?_, fun w' h => ?_, put_total caller value hmeets hdata⟩
    · simp only [yields_put hmeets hdata]
      exact ⟨fun ⟨_, hwritable, hopen, _⟩ => ⟨hwritable, hopen⟩,
        fun ⟨hwritable, hopen⟩ => ⟨_, hwritable, hopen, rfl⟩⟩
    · obtain ⟨-, hopen, rfl⟩ := (yields_put hmeets hdata).mp h
      have hassigned := World.assigned_insert (lt_size_of_writable hopen) key value
      exact ⟨hassigned, fun reader =>
        yields_get_of_assigned hassigned (hmeets.own_ne_accessor hdata)⟩
  · rw [put_eq_putOver (show w.heap.Meets key id (some _) from hmeets), map_eq_pure_bind]
    rfl
  · rw [put_eq_putOver (show w.heap.Meets key id (some _) from hmeets)]
    rfl

end ObjectId

def heirWorld : World Unit where
  heap := { objects := #[
    { properties := ⟨[("x", .data .null true false false),
        ("y", .accessor none (some (.object ⟨1⟩)) true true), ("z", .data .null false true true)]⟩ },
    { kind := .function (.constant "set y" .null) },
    { prototype := some ⟨0⟩, properties := ⟨[("own", .ordinary .null)]⟩ }] }
  host := ()

theorem ObjectId.put_law_heir :
    heirWorld.heap.Finds "x" ⟨2⟩ (.data .null true false false) ∧
    (∃ w', (ObjectId.put (Caller.nested Host.none 1) ⟨2⟩ "x" (.bool true)).Yields heirWorld () w' ∧
      w'.heap.own? ⟨2⟩ "x" = some (.data (.bool true) true true true) ∧
      w'.heap.ownKeys ⟨2⟩ = ["own", "x"] ∧
      w'.heap.own? ⟨0⟩ "x" = some (.data .null true false false) ∧
      (ObjectId.get (Caller.nested Host.none 1) ⟨2⟩ "x").Yields w' (.bool true) w') ∧
    (ObjectId.put (Caller.nested Host.none 1) ⟨2⟩ "y" (.bool true)).Yields heirWorld () heirWorld ∧
    ∃ fault, ObjectId.put (Caller.nested Host.none 1) ⟨2⟩ "z" (.bool true) heirWorld =
      ⟨.failed fault, heirWorld, []⟩ := by
  have hx : heirWorld.heap.Finds "x" ⟨2⟩ (.data .null true false false) :=
    Heap.find?_eq_some_iff.mp rfl
  have hz : heirWorld.heap.Finds "z" ⟨2⟩ (.data .null false true true) :=
    Heap.find?_eq_some_iff.mp rfl
  obtain ⟨-, hdata, -, -⟩ := ObjectId.put_law (Caller.nested Host.none 1) ⟨2⟩ "x" (.bool true) heirWorld
  obtain ⟨-, -, hsetter, -⟩ := ObjectId.put_law (Caller.nested Host.none 1) ⟨2⟩ "y" (.bool true) heirWorld
  obtain ⟨-, hdata', -, -⟩ := ObjectId.put_law (Caller.nested Host.none 1) ⟨2⟩ "z" (.bool true) heirWorld
  refine ⟨hx, ?_, ?_, ?_⟩
  · obtain ⟨hsucceeds, hafter, -⟩ := hdata (some (.data .null true false false)) hx (by simp)
    obtain ⟨w', hput⟩ := hsucceeds.mpr ⟨nofun, .inr rfl⟩
    obtain ⟨hassigned, hget⟩ := hafter w' hput
    refine ⟨w', hput, hassigned.fresh rfl, hassigned.keys.trans (by decide), ?_, hget _⟩
    rw [Heap.own?, hassigned.beside ⟨0⟩ (by decide)]
    rfl
  · rw [Yields, hsetter none (.object ⟨1⟩) true true (Heap.find?_eq_some_iff.mp rfl)]
    exact ⟨rfl, rfl⟩
  · obtain ⟨hsucceeds, -, htotal⟩ := hdata' (some (.data .null false true true)) hz (by simp)
    exact htotal.resolve_left fun h => (hsucceeds.mp h).1 .null true true rfl

end Decoration
