import Decoration.Proofs.Relocation.Heap

/-! Runs from a heap and from one that mirrors it. What they do is the same, relocated. -/

namespace Decoration

open Decoration.Action

variable {σ ε ε' α β : Type} {t : Relocation}

inductive Outcome.Alike (F : ε → ε → Prop) (R : α → α → Prop) : Outcome ε α → Outcome ε α → Prop
  | ok {a a' : α} (related : R a a') : Alike F R (.ok a) (.ok a')
  | failed {e e' : ε} (related : F e e') : Alike F R (.failed e) (.failed e')
  | exhausted : Alike F R .exhausted .exhausted

/-- Two runs end alike, in heaps of which the second mirrors the first, and what was a function in `h`
is still the same function. What is told of their values may depend on the first heap. -/
structure Run.Alike (t : Relocation) (F : ε → ε → Prop) (R : Heap → α → α → Prop) (h : Heap)
    (r r' : Run σ ε α) : Prop where
  outcome : Outcome.Alike F (R r.world.heap) r.outcome r'.outcome
  mirrors : t.Mirrors r.world.heap r'.world.heap
  keeps : h.KeepsFunctions r.world.heap

namespace Run.Alike

variable {F : ε → ε → Prop} {F' : ε' → ε' → Prop} {R : Heap → α → α → Prop} {Q : Heap → β → β → Prop}
  {w w' : World σ} {x x' : Action σ ε α}

protected theorem pure (m : t.Mirrors w.heap w'.heap) {a a' : α} (h : R w.heap a a') :
    Alike t F R w.heap ((pure a : Action σ ε α) w) ((pure a' : Action σ ε α) w') :=
  ⟨.ok h, m, .refl _⟩

protected theorem fail (m : t.Mirrors w.heap w'.heap) {e e' : ε} (h : F e e') :
    Alike t F R w.heap ((fail e : Action σ ε α) w) ((fail e' : Action σ ε α) w') :=
  ⟨.failed h, m, .refl _⟩

theorem mono {R' : Heap → α → α → Prop} {h : Heap} {r r' : Run σ ε α} (ha : Alike t F R h r r')
    (hR : ∀ g a a', R g a a' → R' g a a') : Alike t F R' h r r' := by
  obtain ⟨outcome, mirrors, keeps⟩ := ha
  rcases r with ⟨a | e | _, v, events⟩ <;> rcases r' with ⟨a' | e' | _, v', events'⟩ <;>
    cases outcome
  case ok.ok.ok related => exact ⟨.ok (hR _ _ _ related), mirrors, keeps⟩
  case failed.failed.failed related => exact ⟨.failed related, mirrors, keeps⟩
  case exhausted.exhausted.exhausted => exact ⟨.exhausted, mirrors, keeps⟩

protected theorem bind {f f' : α → Action σ ε β} (hx : Alike t F R w.heap (x w) (x' w'))
    (hf : ∀ {a a'} {v v' : World σ}, t.Mirrors v.heap v'.heap → w.heap.KeepsFunctions v.heap →
      R v.heap a a' → Alike t F Q v.heap (f a v) (f' a' v')) :
    Alike t F Q w.heap ((x >>= f) w) ((x' >>= f') w') := by
  obtain ⟨outcome, mirrors, keeps⟩ := hx
  change Alike t F Q w.heap (Action.bind x f w) (Action.bind x' f' w')
  unfold Action.bind
  generalize x w = r at outcome mirrors keeps ⊢
  generalize x' w' = r' at outcome mirrors keeps ⊢
  rcases r with ⟨a | e | _, v, events⟩ <;> rcases r' with ⟨a' | e' | _, v', events'⟩ <;>
    cases outcome
  case ok.ok.ok related =>
    obtain ⟨outcome', mirrors', keeps'⟩ := hf mirrors keeps related
    exact ⟨outcome', mirrors', keeps.trans keeps'⟩
  case failed.failed.failed related => exact ⟨.failed related, mirrors, keeps⟩
  case exhausted.exhausted.exhausted => exact ⟨.exhausted, mirrors, keeps⟩

protected theorem mapFault {f f' : Heap → ε → ε'} (hx : Alike t F R w.heap (x w) (x' w'))
    (hf : ∀ g g' e e', t.Mirrors g g' → F e e' → F' (f g e) (f' g' e')) :
    Alike t F' R w.heap (x.mapFault f w) (x'.mapFault f' w') := by
  obtain ⟨outcome, mirrors, keeps⟩ := hx
  unfold Action.mapFault
  generalize x w = r at outcome mirrors keeps ⊢
  generalize x' w' = r' at outcome mirrors keeps ⊢
  rcases r with ⟨a | e | _, v, events⟩ <;> rcases r' with ⟨a' | e' | _, v', events'⟩ <;>
    cases outcome
  case ok.ok.ok related => exact ⟨.ok related, mirrors, keeps⟩
  case failed.failed.failed related => exact ⟨.failed (hf _ _ _ _ mirrors related), mirrors, keeps⟩
  case exhausted.exhausted.exhausted => exact ⟨.exhausted, mirrors, keeps⟩

theorem heap_bind {f f' : Heap → Action σ ε α}
    (h : Alike t F R w.heap (f w.heap w) (f' w'.heap w')) :
    Alike t F R w.heap ((heap >>= f) w) ((heap >>= f') w') := ⟨h.outcome, h.mirrors, h.keeps⟩

theorem emit_bind {event event' : Event} {f f' : Unit → Action σ ε α}
    (h : Alike t F R w.heap (f () w) (f' () w')) :
    Alike t F R w.heap ((emit event >>= f) w) ((emit event' >>= f') w') :=
  ⟨h.outcome, h.mirrors, h.keeps⟩

theorem onHeap {f f' : Heap → α × Heap} (m : t.Mirrors (f w.heap).2 (f' w'.heap).2)
    (keeps : w.heap.KeepsFunctions (f w.heap).2)
    (h : R (f w.heap).2 (f w.heap).1 (f' w'.heap).1) :
    Alike t F R w.heap ((Action.onHeap f : Action σ ε α) w) ((Action.onHeap f' : Action σ ε α) w') :=
  ⟨.ok h, m, keeps⟩

end Run.Alike

def Relocation.Carries (t : Relocation) (_ : Heap) (v v' : Value) : Prop :=
  v' = t.value v ∧ v.object? = none

def anyway (_ : Heap) (_ _ : α) : Prop := True

variable {w w' : World σ}

theorem Capability.alike_function (m : t.Mirrors w.heap w'.heap) (c : Capability) {F : ε → ε → Prop} :
    Run.Alike t F (fun h f f' => f' = t.object f ∧ libraryCount ≤ f.index ∧
        h.capability? (.object f) = some c) w.heap
      ((c.function : Action σ ε ObjectId) w) (((t.capability c).function : Action σ ε ObjectId) w') := by
  obtain ⟨m', hnew, hlibrary⟩ := m.addObject (o := { kind := .function c }) rfl rfl
  exact .onHeap m' (Heap.grows_addObject _ _).keepsFunctions
    ⟨hnew, hlibrary, Heap.capability?_addObject _ c⟩

namespace ObjectId

variable {id : ObjectId}

theorem alike_define (m : t.Mirrors w.heap w'.heap) (hlibrary : libraryCount ≤ id.index)
    (key : String) {d : Descriptor} (hd : w.heap.Settled d) :
    Run.Alike t Eq anyway w.heap ((id.define key d : Action σ Fault Unit) w)
      (((t.object id).define key (t.descriptor d) : Action σ Fault Unit) w') := by
  refine .heap_bind ?_
  have hmoved : w'.heap.define (t.object id) key (t.descriptor d) =
      ((w.heap.object id).define key d).map fun o => w'.heap.setObject (t.object id) (t.moved o) := by
    rw [Heap.define, m.object, Relocation.define_moved]
    cases (w.heap.object id).define key d <;> rfl
  rw [hmoved]
  cases hdefine : (w.heap.object id).define key d with
  | error fault =>
    have hfails : w.heap.define id key d = .error fault := by
      rw [Heap.define, hdefine]
      rfl
    rw [hfails]
    exact .fail m rfl
  | ok o =>
    obtain ⟨haccepts, rfl⟩ := Object.define_eq_ok.mp hdefine
    have hdefined : w.heap.define id key d =
        .ok (w.heap.setObject id ((w.heap.object id).insert key d)) :=
      Heap.define_eq_ok.mpr ⟨haccepts, rfl⟩
    rw [hdefined, Except.map, Relocation.moved_insert, ← m.object]
    have hid := Heap.lt_size_of_accepts haccepts
    exact ⟨.ok trivial, m.insert hid hlibrary key hd, Heap.keepsFunctions_withProperties hid _⟩

theorem alike_write (m : t.Mirrors w.heap w'.heap) (hlibrary : libraryCount ≤ id.index)
    (key : String) (v : Value) :
    Run.Alike t Eq anyway w.heap ((id.write key v : Action σ Fault Unit) w)
      (((t.object id).write key (t.value v) : Action σ Fault Unit) w') := by
  refine .heap_bind ?_
  rw [m.own?]
  cases hown : w.heap.own? id key with
  | none => exact alike_define m hlibrary key trivial
  | some d =>
    cases d with
    | accessor => exact alike_define m hlibrary key trivial
    | data current writable e c =>
      have hid : id.index < w.heap.objects.size := by
        rcases Nat.lt_or_ge id.index w.heap.objects.size with hid | hid
        · exact hid
        · rw [Heap.own?, Heap.object_of_size_le hid] at hown
          cases hown
      have hm := m.insert hid hlibrary key (d := .data v writable e c) trivial
      exact ⟨.ok trivial, hm, Heap.keepsFunctions_withProperties hid _⟩

theorem alike_put (m : t.Mirrors w.heap w'.heap) (hlibrary : libraryCount ≤ id.index) (depth : Nat)
    (key : String) (v : Value) :
    Run.Alike t Eq anyway w.heap ((id.put (Caller.nested Host.none depth) key v) w)
      (((t.object id).put (Caller.nested Host.none depth) key (t.value v)) w') := by
  refine .heap_bind ?_
  obtain ⟨hfind, hfind'⟩ := m.find? id key
  rw [hfind, hfind']
  match hown : w.heap.own? id key with
  | none => exact alike_write m hlibrary key v
  | some (.data _ true ..) => exact alike_write m hlibrary key v
  | some (.data _ false ..) => exact .fail m rfl
  | some (.accessor _ none ..) => exact .fail m rfl
  | some (.accessor _ (some setter) ..) =>
    obtain ⟨name, result, hsetter⟩ := m.properties id key _ hown
    have hsetter' : w'.heap.capability? (t.value setter) = some (.constant name (t.value result)) := by
      rw [m.capability?, hsetter]
      rfl
    refine Run.Alike.bind (R := anyway) ?_ fun m' _ _ => .pure m' trivial
    refine .heap_bind ?_
    rw [hsetter, hsetter']
    cases depth with
    | zero => exact ⟨.exhausted, m, .refl _⟩
    | succ depth => exact .pure m trivial

end ObjectId
end Decoration
