import Decoration.Descriptor.Conversion
import Decoration.Environment
import Decoration.Proofs.Grounded

/-! Reading, writing and calling through the object model keep a heap grounded, if what is called does. -/

namespace Decoration

open Decoration.Action

variable {σ ε : Type} {n : Nat} {caller : Caller σ} {id : ObjectId} {v : Value} {d : Descriptor}
  {arguments : List Value}

def Caller.Grounds (caller : Caller σ) : Prop :=
  ∀ n c request arguments, Capability.Within n c → Value.Within n (Request.receiver request) →
    (∀ v ∈ arguments, Value.Within n v) → (caller c request arguments).Grounds n Value.Within

theorem Value.grounds_call (hc : caller.Grounds) (callee : Value) {receiver : Value}
    (hreceiver : receiver.Within n) (harguments : ∀ v ∈ arguments, v.Within n) :
    (callee.call caller receiver arguments).Grounds n Value.Within := by
  apply Grounds.heap_bind
  intro h g hn
  cases hcapability : h.capability? callee with
  | none => exact Grounds.fail _
  | some c =>
    exact hc _ c (.call receiver) arguments (g.call hcapability) (hreceiver.mono hn)
      fun v hv => (harguments v hv).mono hn

theorem Capability.grounds_function {c : Capability} (hc : c.Within n) :
    (c.function : Action σ ε ObjectId).Grounds n ObjectId.Within := by
  refine Grounds.addObject rfl nofun fun c' hc' => ?_
  cases hc'
  exact hc

namespace ObjectId

theorem grounds_define (id : ObjectId) (key : String) (hd : d.Within n) :
    (id.define key d : Action σ Fault Unit).Grounds n Free := by
  intro w hw hn
  change Run.Grounds Free w ((ofExcept (w.heap.define id key d) >>= setHeap : Action σ Fault Unit) w)
  cases hdefine : w.heap.define id key d with
  | error fault => exact Grounds.still hw fun _ _ => trivial
  | ok h =>
    obtain ⟨hh, hsize⟩ := hw.define (hd.mono hn) hdefine
    exact ⟨List.forall_mem_nil _, hh, Nat.le_of_eq hsize.symm, fun _ _ => trivial⟩

theorem grounds_preventExtensions (id : ObjectId) :
    (id.preventExtensions : Action σ Fault Unit).Grounds n Free :=
  Grounds.modifyHeap fun _ g _ =>
    ⟨g.preventExtensions id, Nat.le_of_eq (Heap.size_setObject _ _ _).symm⟩

theorem grounds_valueOf (hc : caller.Grounds) (hid : id.Within n) (hd : d.Within n) :
    (id.valueOf caller d).Grounds n Value.Within := by
  match d with
  | .data v .. =>
    have hv := Descriptor.within_data.mp hd
    exact Grounds.pure fun k hk => hv.mono hk
  | .accessor (some getter) .. =>
    exact Value.grounds_call hc getter (Value.within_object hid) (List.forall_mem_nil _)
  | .accessor none .. => exact Grounds.pure fun _ _ => Value.within_of_object? rfl

theorem grounds_get (hc : caller.Grounds) (hid : id.Within n) (key : String) :
    (id.get caller key).Grounds n Value.Within := by
  apply Grounds.heap_bind
  intro h g hn
  cases hfound : h.find? id key with
  | none => exact Grounds.pure fun _ _ => Value.within_of_object? rfl
  | some d => exact grounds_valueOf hc (hid.mono hn) (g.find? hfound)

theorem grounds_write (id : ObjectId) (key : String) (hv : v.Within n) :
    (id.write key v : Action σ Fault Unit).Grounds n Free := by
  have hdefine : (id.define key (.ordinary v) : Action σ Fault Unit).Grounds n Free :=
    id.grounds_define key (Descriptor.within_data.mpr hv)
  intro w hw hn
  unfold write
  apply Run.Grounds.heap_bind
  rcases w.heap.own? id key with _ | ⟨_, w', e, c⟩ | _
  · exact hdefine w hw hn
  · exact ⟨List.forall_mem_nil _, hw.insert (Descriptor.within_data.mpr (hv.mono hn)),
      Nat.le_of_eq (Heap.size_setObject _ _ _).symm, fun _ _ => trivial⟩
  · exact hdefine w hw hn

theorem grounds_put (hc : caller.Grounds) (hid : id.Within n) (key : String) (hv : v.Within n) :
    (id.put caller key v).Grounds n Free := by
  apply Grounds.heap_bind
  intro h g hn
  have hwrite : (id.write key v : Action σ Fault Unit).Grounds h.objects.size Free :=
    id.grounds_write key (hv.mono hn)
  rcases h.find? id key with _ | ⟨_, writable, _, _⟩ | ⟨_, setter, _, _⟩
  · exact hwrite
  · cases writable with
    | true => exact hwrite
    | false => exact Grounds.fail _
  · cases setter with
    | none => exact Grounds.fail _
    | some setter =>
      have hreceiver := Value.within_object (hid.mono hn)
      have harguments := List.forall_mem_singleton.mpr (hv.mono hn)
      apply (Value.grounds_call hc setter hreceiver harguments).bind
      intro k result _ _
      exact Grounds.pure fun _ _ => trivial

theorem grounds_invoke (hc : caller.Grounds) (hid : id.Within n) (key : String)
    (harguments : ∀ v ∈ arguments, v.Within n) :
    (id.invoke caller key arguments).Grounds n Value.Within := by
  apply (grounds_get hc hid key).bind
  intro k method hk _
  apply Grounds.heap_bind
  intro h g hh
  cases h.isCallable method with
  | true =>
    have hreceiver := Value.within_object (hid.mono (Nat.le_trans hk hh))
    exact Value.grounds_call hc method hreceiver
      fun v hv => (harguments v hv).mono (Nat.le_trans hk hh)
  | false => exact Grounds.fail _

theorem grounds_instantiate (hc : caller.Grounds) (hid : id.Within n) :
    (id.instantiate caller).Grounds n ObjectId.Within := by
  apply Grounds.heap_bind
  intro h g hn
  cases (h.object id).className? with
  | none => exact Grounds.fail _
  | some name =>
    have hid' : id.Within h.objects.size := hid.mono hn
    apply (grounds_get hc hid' "prototype").bind
    intro k v _ hv
    cases v with
    | object prototype =>
      refine Grounds.addObject rfl (fun p hp => ?_) nofun
      cases hp
      exact hv prototype rfl
    | _ => exact Grounds.fail _

theorem grounds_field? (hc : caller.Grounds) (hid : id.Within n) (key : String) :
    (id.field? caller key).Grounds n fun k found => ∀ v ∈ found, Value.Within k v := by
  apply Grounds.heap_bind
  intro h g hn
  cases h.has id key with
  | true =>
    have hid' : id.Within h.objects.size := hid.mono hn
    refine (grounds_get hc hid' key).map fun k l a hl ha v hv => ?_
    cases hv
    exact ha.mono hl
  | false => exact Grounds.pure fun _ _ _ hv => nomatch hv

theorem grounds_flag (hc : caller.Grounds) (hid : id.Within n) (key : String) :
    (id.flag caller key).Grounds n Free :=
  (grounds_field? hc hid key).bind fun _ _ _ _ => Grounds.pure fun _ _ => trivial

end ObjectId

namespace Descriptor

theorem grounds_checkHalf (half : Option Value) :
    (checkHalf half : Action σ Fault Unit).Grounds n Free := by
  apply Grounds.heap_bind
  intro h g hn
  cases half with
  | none => exact Grounds.pure fun _ _ => trivial
  | some v =>
    dsimp only
    split
    · exact Grounds.pure fun _ _ => trivial
    · exact Grounds.fail _

theorem grounds_ofObject (hc : caller.Grounds) (hid : id.Within n) :
    (ofObject caller id).Grounds n Descriptor.Within := by
  have hfield (k : Nat) (hk : n ≤ k) (key : String) :
      (id.field? caller key).Grounds k fun l found => ∀ v ∈ found, Value.Within l v :=
    ObjectId.grounds_field? hc (hid.mono hk) key
  have hflag (k : Nat) (hk : n ≤ k) (key : String) : (id.flag caller key).Grounds k Free :=
    ObjectId.grounds_flag hc (hid.mono hk) key
  apply (hflag n (Nat.le_refl n) "enumerable").bind
  intro k₁ enumerable h₁ _
  apply (hflag k₁ (by omega) "configurable").bind
  intro k₂ configurable h₂ _
  apply (hfield k₂ (by omega) "get").bind
  intro k₃ getter h₃ hgetter
  apply (hfield k₃ (by omega) "set").bind
  intro k₄ setter h₄ hsetter
  apply (grounds_checkHalf getter).bind
  intro k₅ _ h₅ _
  apply (grounds_checkHalf setter).bind
  intro k₆ _ h₆ _
  split
  · apply (hfield k₆ (by omega) "value").bind
    intro k₇ value h₇ _
    apply Grounds.checked
    intro _
    apply (hfield k₇ (by omega) "writable").bind
    intro k₈ writable h₈ _
    apply Grounds.checked
    intro _
    refine Grounds.pure fun k hk => within_accessor.mpr ⟨fun v hv => ?_, fun v hv => ?_⟩
    · exact (hgetter v (Option.filter_eq_some_iff.mp hv).1).mono (by omega)
    · exact (hsetter v (Option.filter_eq_some_iff.mp hv).1).mono (by omega)
  · apply (hfield k₆ (by omega) "value").bind
    intro k₇ value h₇ hvalue
    apply (hflag k₇ (by omega) "writable").bind
    intro k₈ writable h₈ _
    refine Grounds.pure fun k hk => within_data.mpr ?_
    cases value with
    | none => exact Value.within_of_object? rfl
    | some v => exact (hvalue v rfl).mono (by omega)

theorem grounds_ofValue (hc : caller.Grounds) (hv : v.Within n) :
    (ofValue caller v).Grounds n Descriptor.Within := by
  apply Grounds.heap_bind
  intro h g hn
  cases v with
  | descriptor handle => exact Grounds.pure fun k hk => (g.content handle).mono hk
  | object id => exact grounds_ofObject hc (Nat.lt_of_lt_of_le (hv id rfl) hn)
  | _ => exact Grounds.fail _

end Descriptor

theorem Literal.within_value (l : Literal) : l.value.Within n := by
  cases l <;> exact Value.within_of_object? rfl

def Environment.Within (n : Nat) (env : Environment) : Prop :=
  ∀ scope ∈ env.scopes, ∀ binding ∈ scope, Value.Within n binding.2

theorem Environment.Within.mono {m : Nat} {env : Environment} (h : env.Within n) (hle : n ≤ m) :
    env.Within m := fun scope hscope binding hbinding => (h scope hscope binding hbinding).mono hle

theorem Expr.grounds_evaluate (hc : caller.Grounds) {env : Environment} (henv : env.Within n) (x : Expr) :
    (x.evaluate caller env).Grounds n Value.Within := by
  induction x with
  | literal l => exact Grounds.pure fun _ _ => l.within_value
  | identifier name =>
    rw [Expr.evaluate]
    cases hlookup : env.lookup? name with
    | none => exact Grounds.fail _
    | some v =>
      obtain ⟨scope, hscope, hmem⟩ := Environment.exists_mem_of_lookup? hlookup
      exact Grounds.pure fun _ hk => (henv scope hscope _ hmem).mono hk
  | member object property ih =>
    apply ih.bind
    intro k v _ hv
    cases v with
    | object id => exact ObjectId.grounds_get hc (hv id rfl) property
    | _ => exact Grounds.heap_bind fun _ _ _ => Grounds.fail _

end Decoration
