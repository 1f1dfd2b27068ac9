import Decoration.Descriptor.Conversion
import Decoration.Proofs.Growth
import Decoration.Proofs.Stepwise.Library
import Decoration.Proofs.Trace.Chain

/-! Decorators that write to nothing but their target. Those of the library do if the getters and the
setters that they come across write nothing. -/

namespace Decoration

open Decoration.Action

variable {σ ε ε' α β : Type}

namespace Heap

structure GrowsBut (h : Heap) (id : ObjectId) (h' : Heap) : Prop where
  size : h.objects.size ≤ h'.objects.size
  same : ∀ other, other.index < h.objects.size → other ≠ id → h'.object other = h.object other

variable {h h' h'' : Heap} {id : ObjectId}

theorem Grows.but (g : h.Grows h') (id : ObjectId) : h.GrowsBut id h' :=
  ⟨g.size, fun other hother _ => g.same other hother⟩

theorem GrowsBut.trans (b : h.GrowsBut id h') (b' : h'.GrowsBut id h'') : h.GrowsBut id h'' :=
  ⟨Nat.le_trans b.size b'.size, fun other hother hne =>
    (b'.same other (Nat.lt_of_lt_of_le hother b.size) hne).trans (b.same other hother hne)⟩

theorem Grows.trans_but (g : h.Grows h') (hid : h.objects.size ≤ id.index)
    (b : h'.GrowsBut id h'') : h.Grows h'' := by
  refine ⟨Nat.le_trans g.size b.size, fun other hother => ?_⟩
  have hne : other ≠ id := by
    rintro rfl
    exact Nat.not_lt_of_le hid hother
  rw [b.same other (Nat.lt_of_lt_of_le hother g.size) hne, g.same other hother]

theorem grows_of_objects (same : h'.objects = h.objects) : h.Grows h' :=
  ⟨Nat.le_of_eq (congrArg Array.size same.symm), fun id _ => by rw [object, object, same]⟩

theorem growsBut_setObject (h : Heap) (id : ObjectId) (o : Object) :
    h.GrowsBut id (h.setObject id o) := by
  refine ⟨Nat.le_of_eq (size_setObject h id o).symm, fun other hother hne => ?_⟩
  exact (h.object_setObject_or id o other).resolve_right fun hwritten => hne hwritten.1

end Heap

namespace Action

def Preserves (h₀ : Heap) (x : Action σ ε α) (v : World σ) : Prop := h₀.Grows (x v).world.heap

def WritesOnly (id : ObjectId) (x : Action σ ε α) (v : World σ) : Prop :=
  v.heap.GrowsBut id (x v).world.heap

variable {h₀ : Heap} {v : World σ}

theorem Spares.preserves {x : Action σ ε α} (hx : x.Spares) (g : h₀.Grows v.heap) : x.Preserves h₀ v :=
  g.trans (hx v)

namespace Spares

protected theorem fail (e : ε) : (fail e : Action σ ε α).Spares := fun w => Heap.Grows.refl w.heap

protected theorem heap : (heap : Action σ ε Heap).Spares := fun w => Heap.Grows.refl w.heap

protected theorem report (r : Report) : (report r : Action σ ε Unit).Spares :=
  fun w => Heap.Grows.refl w.heap

protected theorem ofExcept (x : Except ε α) : (ofExcept x : Action σ ε α).Spares := by
  cases x with
  | ok a => exact Spares.pure a
  | error e => exact Spares.fail e

theorem onHeap_beside {f : Heap → α × Heap} (h : ∀ heap, (f heap).2.objects = heap.objects) :
    (onHeap f : Action σ ε α).Spares := fun w => Heap.grows_of_objects (h w.heap)

end Spares

namespace Preserves

protected theorem bind {x : Action σ ε α} {f : α → Action σ ε β} (hx : x.Preserves h₀ v)
    (hf : ∀ a v', x.Yields v a v' → h₀.Grows v'.heap → (f a).Preserves h₀ v') :
    (x >>= f).Preserves h₀ v := by
  change h₀.Grows (Action.bind x f v).world.heap
  unfold Preserves Yields at *
  unfold Action.bind
  generalize x v = r at hx hf ⊢
  rcases r with ⟨a | e | _, v', events⟩
  case ok => exact hf a v' ⟨rfl, rfl⟩ hx
  case failed => exact hx
  case exhausted => exact hx

protected theorem mapFault (f : Heap → ε → ε') {x : Action σ ε α} (hx : x.Preserves h₀ v) :
    (x.mapFault f).Preserves h₀ v := by
  unfold Preserves mapFault at *
  generalize x v = r at hx ⊢
  rcases r with ⟨a | e | _, v', events⟩ <;> exact hx

theorem of_grows {x : Action σ ε α} (g : h₀.Grows v.heap) (hx : x.Preserves v.heap v) :
    x.Preserves h₀ v := g.trans hx

theorem heap_bind {f : Heap → Action σ ε α} (hf : (f v.heap).Preserves h₀ v) :
    (heap >>= f).Preserves h₀ v := by
  unfold Preserves at *
  change h₀.Grows (Action.bind heap f v).world.heap
  exact hf

theorem emit_bind {event : Event} {f : Unit → Action σ ε α} (hf : (f ()).Preserves h₀ v) :
    (emit event >>= f).Preserves h₀ v := by
  unfold Preserves at *
  change h₀.Grows (Action.bind (emit event) f v).world.heap
  exact hf

theorem report_bind {r : Report} {f : Unit → Action σ ε α} (hf : (f ()).Preserves h₀ v) :
    (report r >>= f).Preserves h₀ v := emit_bind hf

theorem checked {p : Prop} [Decidable p] {e : ε} {rest : Unit → Action σ ε α} (g : h₀.Grows v.heap)
    (h : ¬p → (rest ()).Preserves h₀ v) : (if p then fail e >>= rest else rest ()).Preserves h₀ v := by
  split
  · exact g
  · rename_i hp
    exact h hp

protected theorem mapM {ι : Type} {f : ι → Action σ ε β} {list : List ι}
    (hf : ∀ i ∈ list, ∀ v : World σ, h₀.Grows v.heap → (f i).Preserves h₀ v) (g : h₀.Grows v.heap) :
    (list.mapM f).Preserves h₀ v := by
  induction list generalizing v with
  | nil => exact (Spares.pure []).preserves g
  | cons i rest ih =>
    rw [List.mapM_cons]
    rw [List.forall_mem_cons] at hf
    refine (hf.1 v g).bind fun b v' _ g' => ?_
    exact (ih hf.2 g').bind fun bs v'' _ g'' => (Spares.pure (b :: bs)).preserves g''

end Preserves

namespace WritesOnly

variable {id : ObjectId}

theorem preserves {x : Action σ ε α} (hx : x.WritesOnly id v) (g : h₀.Grows v.heap)
    (hid : h₀.objects.size ≤ id.index) : x.Preserves h₀ v := g.trans_but hid hx

theorem of_preserves {x : Action σ ε α} (hx : x.Preserves v.heap v) (id : ObjectId) :
    x.WritesOnly id v := Heap.Grows.but hx id

protected theorem fail (id : ObjectId) (e : ε) : (fail e : Action σ ε α).WritesOnly id v :=
  of_preserves ((Spares.fail e).preserves (Heap.Grows.refl v.heap)) id

theorem heap_bind {f : Heap → Action σ ε α} (hf : (f v.heap).WritesOnly id v) :
    (heap >>= f).WritesOnly id v := by
  unfold WritesOnly at *
  change v.heap.GrowsBut id (Action.bind heap f v).world.heap
  exact hf

theorem bind_pure {x : Action σ ε α} (hx : x.WritesOnly id v) (b : β) :
    (x >>= fun _ => pure b).WritesOnly id v := by
  change v.heap.GrowsBut id (Action.bind x (fun _ => pure b) v).world.heap
  unfold WritesOnly at hx
  unfold Action.bind
  generalize x v = r at hx ⊢
  rcases r with ⟨a | e | _, v', events⟩ <;> exact hx

end WritesOnly
end Action

open Heap

namespace Edit

theorem spares_wrap (memo : MemoId) (key : String) (wrapped : Value) :
    (memo.wrap key wrapped : Action σ ε Value).Spares :=
  Spares.heap.bind fun _ => (Spares.onHeap_beside fun _ => rfl).bind fun _ =>
    (Capability.spares_function _).bind fun _ => Spares.pure _

theorem spares_apply (edit : Edit) (key : String) (extra : List Value) (d : Descriptor) :
    (edit.apply key extra d : Action σ Fault Descriptor).Spares := by
  cases edit with
  | memoize memo =>
    refine Spares.heap.bind fun h => ?_
    rcases d with ⟨value, w, e, c⟩ | ⟨getter | getter, setter, e, c⟩
    · dsimp only
      split
      · exact (spares_wrap memo key value).bind fun _ => Spares.pure _
      · exact Spares.fail _
    · exact Spares.fail _
    · exact (spares_wrap memo key getter).bind fun _ => Spares.pure _
  | deprecated =>
    refine Spares.heap.bind fun h => ?_
    rcases d with ⟨value, w, e, c⟩ | ⟨getter, setter, e, c⟩
    · dsimp only
      split
      · exact (Capability.spares_function _).bind fun _ => Spares.pure _
      · exact Spares.fail _
    · exact Spares.fail _
  | _ => exact Spares.pure _

theorem spares_applyFresh (edit : Edit) (key : String) (extra : List Value) (d : Descriptor) :
    (edit.applyFresh key extra d : Action σ Fault Value).Spares :=
  (spares_apply edit key extra d).bind fun _ => (Spares.onHeap_beside fun _ => rfl).bind fun _ =>
    Spares.pure _

theorem preserves_construct {inner : Caller σ} (edit : Edit) {arguments : List Value} {v : World σ}
    (hread : ∀ id, arguments[2]? = some (.object id) →
      (Descriptor.ofObject inner id).Preserves v.heap v) :
    (edit.construct inner arguments).Preserves v.heap v := by
  have g := Grows.refl v.heap
  unfold construct
  rcases hthird : arguments[2]? with _ | third
  · dsimp only [Option.getD_none]
    split
    · exact (spares_applyFresh edit _ _ _).preserves g
    · exact (Spares.pure _).preserves g
  · dsimp only [Option.getD_some]
    cases third with
    | descriptor handle =>
      refine Preserves.heap_bind
        (Preserves.bind ((spares_apply edit _ _ _).preserves g) fun edited v' _ g' => ?_)
      exact (Spares.preserves ((Spares.onHeap_beside fun _ => rfl).bind fun _ => Spares.pure _) g')
    | object id =>
      exact (Preserves.heap_bind (hread id hthird)).bind fun d v' _ g' =>
        (spares_applyFresh edit _ _ d).preserves g'
    | undefined =>
      dsimp only
      split
      · exact (spares_applyFresh edit _ _ _).preserves g
      · exact (Spares.pure _).preserves g
    | _ => exact Preserves.bind ((Spares.heap.bind fun _ => Spares.fail _).preserves g) fun d v' _ g' =>
        (spares_applyFresh edit _ _ d).preserves g'

end Edit

namespace ObjectId

variable {v : World σ}

theorem world_define (id : ObjectId) (key : String) (d : Descriptor) (v : World σ) :
    (id.define key d v).world =
      { v with heap := (v.heap.define id key d).toOption.getD v.heap } := by
  change (Action.bind (Action.ofExcept (v.heap.define id key d)) Action.setHeap v).world = _
  cases v.heap.define id key d <;> rfl

theorem writesOnly_define (id : ObjectId) (key : String) (d : Descriptor) (v : World σ) :
    (id.define key d).WritesOnly id v := by
  rw [WritesOnly, world_define]
  cases hdefine : v.heap.define id key d with
  | error fault => exact (Grows.refl v.heap).but id
  | ok h =>
    obtain ⟨-, rfl⟩ := Heap.define_eq_ok.mp hdefine
    exact growsBut_setObject v.heap id _

theorem writesOnly_write (id : ObjectId) (key : String) (value : Value) (v : World σ) :
    (id.write key value).WritesOnly id v := by
  refine WritesOnly.heap_bind ?_
  rcases v.heap.own? id key with _ | ⟨current, w, e, c⟩ | _
  · exact id.writesOnly_define key _ v
  · exact growsBut_setObject v.heap id _
  · exact id.writesOnly_define key _ v

theorem writesOnly_put {inner : Caller σ} {id : ObjectId} {key : String} {value : Value}
    (hset : ∀ getter setter e c,
      v.heap.find? id key = some (.accessor getter (some setter) e c) →
      (setter.call inner (.object id) [value]).Preserves v.heap v) :
    (id.put inner key value).WritesOnly id v := by
  refine WritesOnly.heap_bind ?_
  rcases found : v.heap.find? id key with
    _ | ⟨current, writable, e, c⟩ | ⟨getter, setter | setter, e, c⟩
  · exact id.writesOnly_write key value v
  · cases writable with
    | true => exact id.writesOnly_write key value v
    | false => exact WritesOnly.fail id _
  · exact WritesOnly.fail id _
  · exact (WritesOnly.of_preserves (hset getter setter e c found) id).bind_pure ()

end ObjectId

theorem Mark.writesOnly_construct {inner : Caller σ} (mark : Mark) {target : ObjectId}
    {extra : List Value} {v : World σ}
    (hset : ∀ getter setter e c,
      v.heap.find? target (mark.property extra).1 = some (.accessor getter (some setter) e c) →
      (setter.call inner (.object target) [(mark.property extra).2]).Preserves v.heap v) :
    (mark.construct inner (.object target :: extra)).WritesOnly target v :=
  (ObjectId.writesOnly_put hset).bind_pure Value.undefined

namespace Capability

/-- Constructed in this world, the decorator writes to no object but its target. An edit is only asked
that reading an object as a descriptor writes nothing, and a mark that a setter in its way does not. -/
def Confined (host : Host σ) (inner : Caller σ) (arguments : List Value) (v : World σ) :
    Capability → Prop
  | edit _ => ∀ id, arguments[2]? = some (.object id) →
    (Descriptor.ofObject inner id).Preserves v.heap v
  | mark m => ∀ target getter setter e c, arguments.head? = some (.object target) →
    v.heap.find? target (m.property arguments.tail).1 = some (.accessor getter (some setter) e c) →
    (setter.call inner (.object target) [(m.property arguments.tail).2]).Preserves v.heap v
  | c => ∀ target, arguments.head? = some (.object target) →
    (c.respond host inner .construct arguments).WritesOnly target v

theorem Confined.writesOnly {host : Host σ} {inner : Caller σ} {c : Capability} {target : ObjectId}
    {rest : List Value} {v : World σ} (h : c.Confined host inner (.object target :: rest) v) :
    (c.respond host inner .construct (.object target :: rest)).WritesOnly target v := by
  cases c with
  | edit e => exact .of_preserves (Edit.preserves_construct e h) target
  | mark m =>
    exact m.writesOnly_construct fun getter setter e c => h target getter setter e c rfl
  | _ => exact h target rfl

end Capability

namespace ChainForm

inductive Constructs (caller : Caller σ) (form : ChainForm) : List (Decorator × Nat) → List Value →
    World σ → Decorator → List Value → World σ → Prop
  | here {d : Decorator} {position : Nat} {rest : List (Decorator × Nat)} {results : List Value}
    {w : World σ} :
    Constructs caller form ((d, position) :: rest) results w d (form.arguments results ++ d.extra) w
  | later {d d' : Decorator} {position : Nat} {rest : List (Decorator × Nat)}
    {results arguments : List Value} {result : Value} {w w' v : World σ}
    (first : (caller d.capability .construct (form.arguments results ++ d.extra)).Yields w result w')
    (others : Constructs caller form rest (result :: results) w' d' arguments v) :
    Constructs caller form ((d, position) :: rest) results w d' arguments v

def Confined (host : Host σ) (inner : Caller σ) (form : ChainForm) (ds : List Decorator)
    (w : World σ) : Prop :=
  ∀ d arguments v, form.Constructs (fun c => c.respond host inner) (bottomUp ds) [] w d arguments v →
    d.capability.Confined host inner arguments v

end ChainForm

section Chains

variable {host : Host σ} {inner : Caller σ} {h₀ : Heap} {target : Target} {name : String}
  {results : List Value} {v : World σ}

theorem yields_construct {caller : Caller σ} {d : Decorator} {site : Option String}
    {arguments : List Value} {result : Value} {v' : World σ} :
    (d.construct caller target site arguments).Yields v result v' ↔
      (caller d.capability .construct (arguments ++ d.extra)).Yields v result v' :=
  yields_emit_bind.trans yields_mapFault

theorem Decorator.preserves_construct {d : Decorator} {site : Option String} {rest : List Value}
    (hd : d.capability.Confined host inner (target.value :: rest ++ d.extra) v)
    (g : h₀.Grows v.heap) (fresh : h₀.objects.size ≤ target.object.index) :
    (d.construct (fun c => c.respond host inner) target site (target.value :: rest)).Preserves h₀ v := by
  refine Preserves.emit_bind (Preserves.mapFault _ ?_)
  exact (Capability.Confined.writesOnly hd).preserves g fresh

theorem preserves_member {handle : Handle} {list : List (Decorator × Nat)}
    (hlist : ∀ d arguments v', (ChainForm.member target name handle).Constructs
      (fun c => c.respond host inner) list results v d arguments v' →
      d.capability.Confined host inner arguments v')
    (g : h₀.Grows v.heap) (fresh : h₀.objects.size ≤ target.object.index) :
    (Chain.member (fun c => c.respond host inner) target name handle list).Preserves h₀ v := by
  induction list generalizing results v with
  | nil => exact (Spares.pure ()).preserves g
  | cons first rest ih =>
    refine Preserves.heap_bind (Preserves.emit_bind (Preserves.report_bind ?_))
    refine Preserves.bind (Decorator.preserves_construct (hlist _ _ _ .here) g fresh) ?_
    intro result v' hyields g'
    exact ih (fun d arguments v'' hlater =>
      hlist d arguments v'' (.later (yields_construct.mp hyields) hlater)) g'

theorem preserves_classLevel {list : List (Decorator × Nat)}
    (hlist : ∀ d arguments v', (ChainForm.classLevel target).Constructs
      (fun c => c.respond host inner) list results v d arguments v' →
      d.capability.Confined host inner arguments v')
    (g : h₀.Grows v.heap) (fresh : h₀.objects.size ≤ target.object.index) :
    (Chain.classLevel (fun c => c.respond host inner) target list).Preserves h₀ v := by
  induction list generalizing results v with
  | nil => exact (Spares.pure ()).preserves g
  | cons first rest ih =>
    refine Preserves.emit_bind (Preserves.report_bind ?_)
    refine Preserves.bind (Decorator.preserves_construct (hlist _ _ _ .here) g fresh) ?_
    intro result v' hyields g'
    exact ih (fun d arguments v'' hlater =>
      hlist d arguments v'' (.later (yields_construct.mp hyields) hlater)) g'

theorem preserves_fallback {list : List (Decorator × Nat)}
    (hlist : ∀ d arguments v', (ChainForm.fallback target name).Constructs
      (fun c => c.respond host inner) list results v d arguments v' →
      d.capability.Confined host inner arguments v')
    (g : h₀.Grows v.heap) (fresh : h₀.objects.size ≤ target.object.index) :
    (Chain.fallback (fun c => c.respond host inner) target name (latestTruthy results)
      list).Preserves h₀ v := by
  induction list generalizing results v with
  | nil => exact (Spares.pure _).preserves g
  | cons first rest ih =>
    refine Preserves.emit_bind (Preserves.report_bind ?_)
    refine Preserves.bind (Decorator.preserves_construct (hlist _ _ _ .here) g fresh) ?_
    intro result v' hyields g'
    rw [← latestTruthy_cons]
    exact ih (fun d arguments v'' hlater =>
      hlist d arguments v'' (.later (yields_construct.mp hyields) hlater)) g'

end Chains
end Decoration
