import Decoration.Capability.Response
import Decoration.Chain
import Decoration.Proofs.Assignment

/-! Actions that leave an object alone and do not look at its properties. With other properties in their
place the same action has the same value, and leaves the same world with those properties. The member
decorators of the library are of this kind in every world; those of a host may be so only where they
are run. -/

namespace Decoration

variable {σ ε ε' α β : Type}

theorem Heap.find?_withProperties {h : Heap} {id o : ObjectId} {key : String}
    (hid : id.index < h.objects.size) (apart : ¬ h.Inherits o id) (p : Properties) :
    (h.withProperties id p).find? o key = h.find? o key := by
  have hwithin (n : Nat) : (h.withProperties id p).findWithin key n o = h.findWithin key n o := by
    induction n generalizing o with
    | zero => rfl
    | succ n ih =>
      have hobject : (h.withProperties id p).object o = h.object o :=
        object_withProperties_ne hid (fun heq => apart (heq ▸ .self o)) p
      rw [findWithin, findWithin, own?, hobject, ← own?]
      cases h.own? o key with
      | some d => rfl
      | none =>
        cases hp : (h.object o).prototype with
        | none => rfl
        | some prototype => exact ih fun hi => apart (.step hp hi)
  rw [find?, size_withProperties, hwithin, find?]

namespace Action

/-- Run in this world, the action leaves the object alone and does not look at its properties. -/
def Discreet (id : ObjectId) (x : Action σ ε α) (w : World σ) : Prop :=
  id.index < w.heap.objects.size → ∀ a w', x.Yields w a w' →
    id.index < w'.heap.objects.size ∧ w'.heap.object id = w.heap.object id ∧
      ∀ p, x.Yields (w.withProperties id p) a (w'.withProperties id p)

namespace Discreet

variable {id : ObjectId} {w : World σ}

protected theorem pure (a : α) : Discreet id (pure a : Action σ ε α) w := by
  intro hid b w' h
  obtain ⟨rfl, rfl⟩ := yields_pure.mp h
  exact ⟨hid, rfl, fun p => yields_pure.mpr ⟨rfl, rfl⟩⟩

protected theorem fail (e : ε) : Discreet id (fail e : Action σ ε α) w :=
  fun _ _ _ h => (yields_fail.mp h).elim

protected theorem emit (event : Event) : Discreet id (emit event : Action σ ε Unit) w := by
  rintro hid ⟨⟩ w' h
  obtain rfl := yields_emit.mp h
  exact ⟨hid, rfl, fun p => yields_emit.mpr rfl⟩

protected theorem report (r : Report) : Discreet id (report r : Action σ ε Unit) w :=
  Discreet.emit (.report r)

protected theorem bind {x : Action σ ε α} {f : α → Action σ ε β} (hx : Discreet id x w)
    (hf : ∀ a w', x.Yields w a w' → Discreet id (f a) w') : Discreet id (x >>= f) w := by
  intro hid b w'' h
  obtain ⟨a, w', hfirst, hrest⟩ := yields_bind.mp h
  obtain ⟨hid', hsame, hfirst'⟩ := hx hid a w' hfirst
  obtain ⟨hid'', hsame', hrest'⟩ := hf a w' hfirst hid' b w'' hrest
  exact ⟨hid'', hsame'.trans hsame, fun p => yields_bind.mpr ⟨a, _, hfirst' p, hrest' p⟩⟩

protected theorem mapFault (f : Heap → ε → ε') {x : Action σ ε α} (hx : Discreet id x w) :
    Discreet id (x.mapFault f) w := by
  intro hid a w' h
  obtain ⟨hid', hsame, hx'⟩ := hx hid a w' (yields_mapFault.mp h)
  exact ⟨hid', hsame, fun p => yields_mapFault.mpr (hx' p)⟩

theorem heap_bind {f : Heap → Action σ ε α} (hf : Discreet id (f w.heap) w)
    (hsame : id.index < w.heap.objects.size → ∀ p, f (w.heap.withProperties id p) = f w.heap) :
    Discreet id (heap >>= f) w := by
  intro hid a w' h
  obtain ⟨hid', hsame', h'⟩ := hf hid a w' (yields_heap_bind.mp h)
  refine ⟨hid', hsame', fun p => yields_heap_bind.mpr ?_⟩
  change Yields (f (w.heap.withProperties id p)) _ _ _
  rw [hsame hid p]
  exact h' p

protected theorem onHeap {f : Heap → α × Heap}
    (hf : id.index < w.heap.objects.size → id.index < (f w.heap).2.objects.size ∧
      (f w.heap).2.object id = w.heap.object id ∧
      ∀ p, f (w.heap.withProperties id p) = ((f w.heap).1, (f w.heap).2.withProperties id p)) :
    Discreet id (onHeap f : Action σ ε α) w := by
  intro hid a w' h
  obtain ⟨rfl, rfl⟩ := yields_onHeap.mp h
  obtain ⟨hid', hsame, hf'⟩ := hf hid
  refine ⟨hid', hsame, fun p => yields_onHeap.mpr ?_⟩
  change (f (w.heap.withProperties id p)).1 = _ ∧
    (⟨(f (w.heap.withProperties id p)).2, w.host⟩ : World σ) = _
  rw [hf' p]
  exact ⟨rfl, rfl⟩

theorem onHeap_beside {f : Heap → α × Heap} (hobjects : (f w.heap).2.objects = w.heap.objects)
    (hsame : ∀ p, f (w.heap.withProperties id p) =
      ((f w.heap).1, (f w.heap).2.withProperties id p)) :
    Discreet id (onHeap f : Action σ ε α) w := by
  refine Discreet.onHeap fun hid => ⟨?_, ?_, hsame⟩
  · rwa [hobjects]
  · rw [Heap.object, hobjects, Heap.object]

end Discreet
end Action

variable {id : ObjectId} {w : World σ}

theorem Capability.discreet_function (c : Capability) :
    (c.function : Action σ ε ObjectId).Discreet id w := by
  refine Action.Discreet.onHeap fun hid => ⟨?_, ?_, fun p => Heap.addObject_withProperties hid p _⟩
  · change id.index < (w.heap.objects.push _).size
    rw [Array.size_push]
    exact Nat.lt_succ_of_lt hid
  · rw [Heap.object_addObject, if_neg (Heap.ne_addObject hid _)]

open Decoration.Action

theorem MemoId.discreet_wrap (memo : MemoId) (key : String) (wrapped : Value) :
    (memo.wrap key wrapped : Action σ ε Value).Discreet id w := by
  refine Discreet.heap_bind ?_ fun _ _ => rfl
  exact (Discreet.onHeap_beside rfl fun _ => rfl).bind fun _ _ _ =>
    (Capability.discreet_function _).bind fun _ _ _ => Discreet.pure _

namespace Edit

theorem discreet_wrapMemoized (memo : MemoId) (key : String) (d : Descriptor) :
    (wrapMemoized memo key d : Action σ Fault Descriptor).Discreet id w := by
  match d with
  | .data value writable e c =>
    refine Discreet.heap_bind ?_ fun hid p => ?_
    · dsimp only
      split
      · exact (memo.discreet_wrap key value).bind fun _ _ _ => Discreet.pure _
      · exact Discreet.fail _
    · simp only [Heap.isCallable_withProperties hid]
  | .accessor (some getter) setter e c =>
    refine Discreet.heap_bind ?_ fun _ _ => rfl
    exact (memo.discreet_wrap key getter).bind fun _ _ _ => Discreet.pure _
  | .accessor none .. => exact Discreet.heap_bind (Discreet.fail _) fun _ _ => rfl

theorem discreet_wrapDeprecated (message key : String) (d : Descriptor) :
    (wrapDeprecated message key d : Action σ Fault Descriptor).Discreet id w := by
  cases d with
  | data value writable e c =>
    refine Discreet.heap_bind ?_ fun hid p => ?_
    · dsimp only
      split
      · exact (Capability.discreet_function _).bind fun _ _ _ => Discreet.pure _
      · exact Discreet.fail _
    · simp only [Heap.isCallable_withProperties hid]
  | accessor => exact Discreet.heap_bind (Discreet.fail _) fun _ _ => rfl

theorem discreet_apply (edit : Edit) (key : String) (extra : List Value) (d : Descriptor) :
    (edit.apply key extra d : Action σ Fault Descriptor).Discreet id w := by
  cases edit with
  | memoize memo => exact discreet_wrapMemoized memo key d
  | deprecated => exact discreet_wrapDeprecated _ key d
  | _ => exact Discreet.pure _

end Edit

/-- Constructed on that target in this world, a member decorator works with the handle, the name and its
own arguments alone. -/
def Decorator.Discreet (caller : Caller σ) (target : Target) (name : String) (handle : Handle)
    (d : Decorator) (w : World σ) : Prop :=
  (caller d.capability .construct
    ([target.value, .string name, .descriptor handle] ++ d.extra)).Discreet target.object w

theorem Edit.discreet (edit : Edit) (host : Host σ) (depth : Nat) (target : Target)
    (name label : String) (extra : List Value) (handle : Handle) (w : World σ) :
    Decorator.Discreet (Caller.nested host (depth + 1)) target name handle
      { label, capability := .edit edit, extra } w := by
  change (Edit.construct _ edit _).Discreet target.object w
  refine Discreet.heap_bind ?_ fun _ _ => rfl
  exact (edit.discreet_apply _ _ _).bind fun edited _ _ =>
    (Discreet.onHeap_beside rfl fun _ => rfl).bind fun _ _ _ => Discreet.pure _

def Handle.edit (handle : Handle) (f : Descriptor → Except Fault (Value × Descriptor)) :
    Action σ Fault Value := do
  let h ← Action.heap
  let (result, d) ← Action.ofExcept (f (h.content handle))
  Action.modifyHeap (·.setContent handle d)
  return result

theorem Handle.discreet_edit (handle : Handle)
    (f : Descriptor → Except Fault (Value × Descriptor)) :
    (handle.edit f : Action σ Fault Value).Discreet id w := by
  refine Discreet.heap_bind ?_ fun _ _ => rfl
  cases f (w.heap.content handle) with
  | error fault => exact (Discreet.fail fault).bind fun _ _ _ =>
      (Discreet.onHeap_beside rfl fun _ => rfl).bind fun _ _ _ => Discreet.pure _
  | ok edited => exact (Discreet.pure edited).bind fun _ _ _ =>
      (Discreet.onHeap_beside rfl fun _ => rfl).bind fun _ _ _ => Discreet.pure _

theorem Decorator.discreet_native {host : Host σ} {code : Nat}
    {f : String → List Value → Descriptor → Except Fault (Value × Descriptor)}
    (hf : ∀ caller target name handle extra,
      host caller code .undefined ([target, .string name, .descriptor handle] ++ extra) =
        handle.edit (f name extra))
    (depth : Nat) (target : Target) (name label title : String) (extra : List Value)
    (handle : Handle) (w : World σ) :
    Decorator.Discreet (Caller.nested host (depth + 1)) target name handle
      { label, capability := .native title code, extra } w := by
  have hrespond : Caller.nested host (depth + 1) (.native title code) .construct
      ([target.value, .string name, .descriptor handle] ++ extra) = handle.edit (f name extra) :=
    hf _ _ name handle extra
  unfold Decorator.Discreet
  rw [hrespond]
  exact handle.discreet_edit (f name extra)

namespace ObjectId

variable {caller : Caller σ} {o : ObjectId} {key : String} {value : Value}

theorem discreet_get (apart : ¬ w.heap.Inherits o id)
    (hvalue : ∀ d, w.heap.find? o key = some d → (o.valueOf caller d).Discreet id w) :
    (o.get caller key).Discreet id w := by
  refine Discreet.heap_bind ?_ fun hid p => ?_
  · cases hfound : w.heap.find? o key with
    | some d => exact hvalue d hfound
    | none => exact Discreet.pure _
  · rw [Heap.find?_withProperties hid apart]

theorem world_eq_of_yields_get {v : Value} {w' : World σ}
    (data : ∀ getter setter e c, w.heap.find? o key ≠ some (.accessor getter setter e c))
    (h : (o.get caller key).Yields w v w') : w = w' := by
  replace h := yields_heap_bind.mp h
  rcases hfound : w.heap.find? o key with _ | ⟨v, writable, e, c⟩ | ⟨getter, setter, e, c⟩
  · rw [hfound] at h
    exact h.2
  · rw [hfound] at h
    exact h.2
  · exact absurd hfound (data getter setter e c)

theorem discreet_write (hne : o ≠ id)
    (data : ∀ getter setter e c, w.heap.own? o key ≠ some (.accessor getter setter e c)) :
    (o.write key value : Action σ Fault Unit).Discreet id w := by
  rintro hid ⟨⟩ w' h
  obtain ⟨hwritable, rfl⟩ := (yields_write data).mp h
  have ho := lt_size_of_writable hwritable
  refine ⟨by simpa [World.insert, World.withProperties] using hid,
    Heap.object_withProperties_ne ho hne.symm _, fun p => ?_⟩
  have hobject : (w.withProperties id p).heap.object o = w.heap.object o :=
    Heap.object_withProperties_ne hid hne p
  have hassigned : (w.withProperties id p).heap.assigned o key value = w.heap.assigned o key value := by
    rw [Heap.assigned, Heap.own?, hobject, Heap.assigned, Heap.own?]
  refine (yields_write (by rwa [Heap.own?, hobject])).mpr ⟨by rwa [Heap.ownKeys, hobject], ?_⟩
  rw [hassigned, World.insert_withProperties hid ho hne]

theorem discreet_put (apart : ¬ w.heap.Inherits o id)
    (hsetter : ∀ getter setter e c,
      w.heap.find? o key = some (.accessor getter (some setter) e c) →
      (setter.call caller (.object o) [value]).Discreet id w) :
    (o.put caller key value).Discreet id w := by
  refine Discreet.heap_bind ?_ fun hid p => ?_
  · have hwrite (hfound : ∀ getter setter e c,
        w.heap.find? o key ≠ some (.accessor getter setter e c)) :
        (o.write key value : Action σ Fault Unit).Discreet id w :=
      discreet_write (fun heq => apart (heq ▸ .self o)) fun getter setter e c hown =>
        hfound getter setter e c (Heap.find?_of_own? hown)
    rcases hfound : w.heap.find? o key with _ | ⟨v, _ | _, e, c⟩ | ⟨getter, _ | setter, e, c⟩
    · exact hwrite (by simp [hfound])
    · exact Discreet.fail _
    · exact hwrite (by simp [hfound])
    · exact Discreet.fail _
    · exact (hsetter getter setter e c hfound).bind fun _ _ _ => Discreet.pure _
  · rw [Heap.find?_withProperties hid apart]

end ObjectId

/-- A function of the host that keeps a tally in an object among its own arguments is discreet wherever
that object neither is the target nor inherits from it. -/
theorem Decorator.discreet_native_tally {host : Host σ} {code : Nat} {o : ObjectId} {key : String}
    {count : Value → Value} {f : Value → String → Descriptor → Except Fault (Value × Descriptor)}
    (hf : ∀ caller target name handle,
      host caller code .undefined [target, .string name, .descriptor handle, .object o] = do
        let v ← o.get caller key
        o.put caller key (count v)
        handle.edit (f v name))
    (depth : Nat) (target : Target) (name label title : String) (handle : Handle)
    (apart : ¬ w.heap.Inherits o target.object)
    (data : ∀ getter setter e c, w.heap.find? o key ≠ some (.accessor getter setter e c)) :
    Decorator.Discreet (Caller.nested host (depth + 1)) target name handle
      { label, capability := .native title code, extra := [.object o] } w := by
  have hrespond : Caller.nested host (depth + 1) (.native title code) .construct
      ([target.value, .string name, .descriptor handle] ++ [.object o]) = _ :=
    hf _ _ name handle
  unfold Decorator.Discreet
  rw [hrespond]
  have hget : (o.get (Caller.nested host depth) key).Discreet target.object w := by
    refine ObjectId.discreet_get apart fun d hfound => ?_
    cases d with
    | data v writable e c => exact Discreet.pure v
    | accessor getter setter e c => exact absurd hfound (data getter setter e c)
  have hput (v : Value) : (o.put (Caller.nested host depth) key v).Discreet target.object w :=
    ObjectId.discreet_put apart fun getter setter e c hfound =>
      absurd hfound (data getter (some setter) e c)
  refine hget.bind fun v w' hv => ?_
  obtain rfl := ObjectId.world_eq_of_yields_get data hv
  exact (hput (count v)).bind fun _ _ _ => handle.discreet_edit (f v name)

namespace Chain

inductive Constructs (caller : Caller σ) (target : Target) (name : String) (handle : Handle) :
    List (Decorator × Nat) → World σ → Decorator → World σ → Prop
  | here {d : Decorator} {position : Nat} {rest : List (Decorator × Nat)} {w : World σ} :
    Constructs caller target name handle ((d, position) :: rest) w d w
  | later {first d : Decorator} {position : Nat} {rest : List (Decorator × Nat)} {result : Value}
    {w w' v : World σ}
    (answered : (caller first.capability .construct
      ([target.value, .string name, .descriptor handle] ++ first.extra)).Yields w result w')
    (others : Constructs caller target name handle rest w' d v) :
    Constructs caller target name handle ((first, position) :: rest) w d v

theorem Constructs.mem {caller : Caller σ} {target : Target} {name : String} {handle : Handle}
    {list : List (Decorator × Nat)} {d : Decorator} {w v : World σ}
    (h : Constructs caller target name handle list w d v) : ∃ position, (d, position) ∈ list := by
  induction h with
  | here => exact ⟨_, List.mem_cons_self⟩
  | later _ _ ih =>
    obtain ⟨position, hmem⟩ := ih
    exact ⟨position, List.mem_cons_of_mem _ hmem⟩

theorem discreet_member {caller : Caller σ} {target : Target} {name : String} {handle : Handle}
    {list : List (Decorator × Nat)} (hd : ∀ d v, Constructs caller target name handle list w d v →
      d.Discreet caller target name handle v) :
    (member caller target name handle list).Discreet target.object w := by
  induction list generalizing w with
  | nil => exact Discreet.pure ()
  | cons first rest ih =>
    obtain ⟨d, position⟩ := first
    refine Discreet.heap_bind ?_ fun _ _ => rfl
    refine (Discreet.emit _).bind fun _ w₁ h₁ => ?_
    obtain rfl := yields_emit.mp h₁
    refine (Discreet.report _).bind fun _ w₂ h₂ => ?_
    obtain rfl := yields_emit.mp h₂
    refine Discreet.bind ?_ fun result w' hconstruct => ?_
    · refine (Discreet.emit _).bind fun _ w₃ h₃ => ?_
      obtain rfl := yields_emit.mp h₃
      exact (hd d w .here).mapFault _
    · have answered := yields_mapFault.mp (yields_emit_bind.mp hconstruct)
      exact ih fun d v h => hd d v (.later answered h)

end Chain

theorem discreet_applyMemberChain {caller : Caller σ} {target : Target} {name : String}
    {handle : Handle} {list : List Decorator}
    (hd : ∀ d v, Chain.Constructs caller target name handle list.zipIdx.reverse w d v →
      d.Discreet caller target name handle v) :
    (applyMemberChain caller list target name handle).Discreet target.object w := by
  rw [applyMemberChain, bottomUp_eq]
  exact Chain.discreet_member hd

end Decoration
