import Decoration.Proofs.Growth
import Decoration.Proofs.Pairing
import Decoration.Proofs.Success.Engine

/-! The two objects of a class while its members are defined. Apart from the link to the prototype every
property is configurable, so nothing stands in the way of another one. -/

namespace Decoration

open Decoration.Action

variable {σ ε : Type}

namespace ClassPair

def side (pair : ClassPair) (isStatic : Bool) : ObjectId :=
  (Placement.classElement pair isStatic).target.object

def firstKey (isStatic : Bool) : String := if isStatic then "prototype" else "constructor"

def firstDescriptor (pair : ClassPair) (isStatic : Bool) : Descriptor :=
  if isStatic then .data (.object pair.prototype) false false false
  else .data (.object pair.constructor) true false true

def Open (isStatic : Bool) (key : String) : Prop := ¬(isStatic = true ∧ key = "prototype")

structure Underway (pair : ClassPair) (h : Heap) : Prop where
  distinct : pair.constructor ≠ pair.prototype
  bound : ∀ isStatic, (pair.side isStatic).index < h.objects.size
  extensible : ∀ isStatic, (h.object (pair.side isStatic)).extensible = true
  link : h.own? pair.constructor "prototype" = some (pair.firstDescriptor true)
  free : ∀ isStatic key current, Open isStatic key →
    h.own? (pair.side isStatic) key = some current → current.configurable = true

variable {pair : ClassPair} {h h' : Heap} {isStatic : Bool} {key : String} {d : Descriptor}

theorem Underway.side_ne (hp : pair.Underway h) {b : Bool} (hb : b ≠ isStatic) :
    pair.side b ≠ pair.side isStatic := by
  cases b with
  | false =>
    cases isStatic with
    | false => exact absurd rfl hb
    | true => exact hp.distinct.symm
  | true =>
    cases isStatic with
    | false => exact hp.distinct
    | true => exact absurd rfl hb

theorem Underway.grows (hp : pair.Underway h) (g : h.Grows h') : pair.Underway h' := by
  have hsame : ∀ isStatic, h'.object (pair.side isStatic) = h.object (pair.side isStatic) :=
    fun isStatic => g.same _ (hp.bound isStatic)
  refine ⟨hp.distinct, fun b => Nat.lt_of_lt_of_le (hp.bound b) g.size, fun b => ?_, ?_,
    fun b key current hopen hcurrent => ?_⟩
  · rw [hsame]
    exact hp.extensible b
  · have hlink := hp.link
    rw [Heap.own?] at hlink ⊢
    rwa [show h'.object pair.constructor = h.object pair.constructor from hsame true]
  · rw [Heap.own?, hsame] at hcurrent
    exact hp.free b key current hopen hcurrent

theorem Underway.accepts_iff (hp : pair.Underway h) (hd : d.configurable = true) :
    (h.object (pair.side isStatic)).Accepts key d ↔ Open isStatic key := by
  constructor
  · rintro haccepts ⟨rfl, rfl⟩
    have hsettles := haccepts.present _ hp.link rfl
    exact absurd (hd.symm.trans hsettles.1) nofun
  · intro hopen
    refine ⟨fun _ => hp.extensible isStatic, fun current hcurrent hfixed => ?_⟩
    exact absurd ((hp.free isStatic key current hopen hcurrent).symm.trans hfixed) nofun

theorem Underway.own?_withProperties (hp : pair.Underway h) (b : Bool) (other : String) :
    (h.withProperties (pair.side isStatic)
      ((h.object (pair.side isStatic)).properties.insert key d)).own? (pair.side b) other =
      if b = isStatic ∧ other = key then some d else h.own? (pair.side b) other := by
  by_cases hb : b = isStatic
  · rw [hb, Heap.own?, Heap.object_withProperties (hp.bound isStatic)]
    simp only [Properties.find?_insert, true_and]
    rfl
  · rw [Heap.own?, Heap.object_withProperties_ne (hp.bound isStatic) (hp.side_ne hb),
      if_neg fun h => hb h.1]
    rfl

theorem Underway.ownKeys_withProperties (hp : pair.Underway h) (b : Bool) :
    (h.withProperties (pair.side isStatic)
      ((h.object (pair.side isStatic)).properties.insert key d)).ownKeys (pair.side b) =
      if b = isStatic then
        h.ownKeys (pair.side b) ++ if key ∈ h.ownKeys (pair.side b) then [] else [key]
      else h.ownKeys (pair.side b) := by
  by_cases hb : b = isStatic
  · rw [if_pos hb, hb, Heap.ownKeys, Heap.object_withProperties (hp.bound isStatic)]
    exact Properties.keys_insert _ key d
  · rw [if_neg hb, Heap.ownKeys, Heap.object_withProperties_ne (hp.bound isStatic) (hp.side_ne hb)]
    rfl

theorem Underway.withProperties (hp : pair.Underway h) (hd : d.configurable = true)
    (hopen : Open isStatic key) :
    pair.Underway (h.withProperties (pair.side isStatic)
      ((h.object (pair.side isStatic)).properties.insert key d)) := by
  refine ⟨hp.distinct, fun b => ?_, fun b => ?_, ?_, fun b other current hother hcurrent => ?_⟩
  · rw [Heap.size_withProperties]
    exact hp.bound b
  · by_cases hb : b = isStatic
    · rw [hb, Heap.object_withProperties (hp.bound isStatic)]
      exact hp.extensible isStatic
    · rw [Heap.object_withProperties_ne (hp.bound isStatic) (hp.side_ne hb)]
      exact hp.extensible b
  · refine (hp.own?_withProperties true "prototype").trans ?_
    rw [if_neg fun h => hopen ⟨h.1.symm, h.2.symm⟩]
    exact hp.link
  · rw [hp.own?_withProperties] at hcurrent
    split at hcurrent
    · cases hcurrent
      exact hd
    · exact hp.free b other current hother hcurrent

theorem objects_of_create {className : String} {w w' : World σ}
    (hcreate : (create className : Action σ ε ClassPair).Yields w pair w') :
    pair.constructor ≠ pair.prototype ∧
      w'.heap.object pair.constructor =
        ({ kind := .classValue className } : Object).insert "prototype" (pair.firstDescriptor true) ∧
      w'.heap.object pair.prototype =
        ({} : Object).insert "constructor" (pair.firstDescriptor false) := by
  obtain ⟨rfl, rfl⟩ := yields_onHeap.mp hcreate
  have hsize : w.heap.objects.size < w.heap.objects.size + 1 + 1 := by omega
  refine ⟨by simp [Heap.addObject], ?_, ?_⟩
  · dsimp only
    rw [Heap.object_setObject (by simp [Heap.addObject, hsize]), if_neg (by simp [Heap.addObject]),
      Heap.object_setObject (by simp [Heap.addObject]), if_pos rfl, Heap.object_addObject, if_pos rfl]
    rfl
  · dsimp only
    rw [Heap.object_setObject (by simp [Heap.addObject, hsize]), if_pos rfl,
      Heap.object_setObject (by simp [Heap.addObject]), if_neg (by simp [Heap.addObject]),
      Heap.object_addObject, if_neg (by simp [Heap.addObject]), Heap.object_addObject, if_pos rfl]
    rfl

theorem links_of_create {className : String} {w w' : World σ}
    (hcreate : (create className : Action σ ε ClassPair).Yields w pair w') (isStatic : Bool) :
    ∃ kind, w'.heap.object (pair.side isStatic) =
      ({ kind } : Object).insert (firstKey isStatic) (pair.firstDescriptor isStatic) := by
  obtain ⟨-, hconstructor, hprototype⟩ := objects_of_create hcreate
  cases isStatic with
  | false => exact ⟨_, hprototype⟩
  | true => exact ⟨_, hconstructor⟩

theorem underway_of_create {className : String} {w w' : World σ}
    (hcreate : (create className : Action σ ε ClassPair).Yields w pair w') :
    pair.Underway w'.heap := by
  have hlinks := links_of_create hcreate
  refine ⟨(objects_of_create hcreate).1, fun b => ?_, fun b => ?_, ?_,
    fun b key current hopen hcurrent => ?_⟩
  · obtain ⟨kind, hobject⟩ := hlinks b
    by_contra hbound
    have habsent := Heap.object_of_size_le (Nat.le_of_not_lt hbound)
    cases congrArg Object.extensible (hobject.symm.trans habsent)
  · obtain ⟨kind, hobject⟩ := hlinks b
    rw [hobject]
    rfl
  · obtain ⟨kind, hobject⟩ := hlinks true
    exact (congrArg (·.properties.find? "prototype") hobject).trans rfl
  · obtain ⟨kind, hobject⟩ := hlinks b
    rw [Heap.own?, hobject, Object.insert, Properties.find?_insert] at hcurrent
    split at hcurrent
    · rename_i hkey
      cases b with
      | false =>
        cases hcurrent
        rfl
      | true => exact absurd ⟨rfl, hkey⟩ hopen
    · cases hcurrent

end ClassPair

end Decoration
