import Decoration.Proofs.Grounded.Engine
import Decoration.Proofs.Program

/-! Programs that name nothing but objects that are there keep a heap grounded. References cannot be made
up, so these are all the programs there are. -/

namespace Decoration

open Decoration.Action

variable {σ ε α β : Type} {n : Nat} {caller : Caller σ}

instance : DecidablePred (ObjectId.Within n) := fun id => inferInstanceAs (Decidable (id.index < n))

instance : DecidablePred (Value.Within n)
  | .object id => decidable_of_iff (id.Within n) ⟨Value.within_object, fun h => h id rfl⟩
  | .undefined | .null | .bool _ | .number _ | .string _ | .descriptor _ =>
    .isTrue (Value.within_of_object? rfl)

instance : DecidablePred (Capability.Within n)
  | .constant _ v | .memoized _ _ _ v | .deprecated _ _ v => inferInstanceAs (Decidable (v.Within n))
  | .native .. | .edit _ | .mark _ => .isTrue trivial

instance : DecidablePred (Descriptor.Within n) := fun d =>
  inferInstanceAs (Decidable (∀ v ∈ d.values, v.Within n))

instance : DecidablePred (Memo.Within n) := fun table =>
  inferInstanceAs (Decidable (∀ entry ∈ table.results, entry.2.Within n))

instance : DecidablePred (Environment.Within n) := fun env =>
  inferInstanceAs (Decidable (∀ scope ∈ env.scopes, ∀ binding ∈ scope, binding.2.Within n))

instance : DecidablePred (ElementKind.Within n)
  | .method body | .getter body | .setter body => inferInstanceAs (Decidable (body.Within n))
  | .field _ => .isTrue trivial

instance : DecidablePred (ClassDecl.Within n) := fun decl =>
  inferInstanceAs (Decidable (∀ e ∈ decl.elements, e.kind.Within n))

instance : DecidablePred (PropertyKind.Within n)
  | .method body | .getter body | .setter body => inferInstanceAs (Decidable (body.Within n))
  | .init _ => .isTrue trivial

instance : DecidablePred (ObjectLiteral.Within n) := fun literal =>
  inferInstanceAs (Decidable (∀ p ∈ literal.properties, p.kind.Within n))

def ObjectKind.Within (n : Nat) : ObjectKind → Prop
  | function c => c.Within n
  | ordinary | classValue _ => True

instance : DecidablePred (ObjectKind.Within n)
  | .function c => inferInstanceAs (Decidable (c.Within n))
  | .ordinary | .classValue _ => .isTrue trivial

namespace Operation

def Within (n : Nat) : Operation → Prop
  | create kind prototype => kind.Within n ∧ ∀ p ∈ prototype, p.Within n
  | define id _ d => id.Within n ∧ d.Within n
  | put id _ v => id.Within n ∧ v.Within n
  | get id _ | preventExtensions id | instantiate id => id.Within n
  | invoke id _ arguments => id.Within n ∧ ∀ v ∈ arguments, v.Within n
  | respond c request arguments =>
    c.Within n ∧ request.receiver.Within n ∧ ∀ v ∈ arguments, v.Within n
  | share d | edit _ d => d.Within n
  | memorize _ table => table.Within n
  | evaluateClass _ decl env => decl.Within n ∧ env.Within n
  | evaluateLiteral _ literal env => literal.Within n ∧ env.Within n

instance : DecidablePred (Operation.Within n) := fun operation => by
  cases operation <;> unfold Within <;> infer_instance

theorem grounds_reply {value : α → Value} {fault : ε → Reply} {Q : Nat → α → Prop} {x : Action σ ε α}
    (hx : x.Grounds n Q) : (reply value fault x).Grounds n Free := by
  intro w hw hn
  have h := hx w hw hn
  unfold reply
  generalize x w = r at h ⊢
  rcases r with ⟨a | e | _, w', events⟩ <;> exact ⟨h.events, h.heap, h.size, fun _ _ => trivial⟩

theorem grounds_create {kind : ObjectKind} {prototype : Option ObjectId} (hkind : kind.Within n)
    (hprototype : ∀ p ∈ prototype, p.Within n) :
    (onHeap (·.addObject { kind, prototype }) : Action σ Fault ObjectId).Grounds n ObjectId.Within := by
  refine Grounds.addObject rfl hprototype fun c hc => ?_
  cases kind with
  | function =>
    cases hc
    exact hkind
  | _ => cases hc

theorem grounds_perform (hc : caller.Grounds) {operation : Operation} (h : operation.Within n) :
    (operation.perform caller).Grounds n Free := by
  cases operation with
  | create kind prototype =>
    rw [perform]
    exact grounds_reply (grounds_create h.1 h.2)
  | define id key d => exact grounds_reply (id.grounds_define key h.2)
  | put id key v => exact grounds_reply (ObjectId.grounds_put hc h.1 key h.2)
  | get id key => exact grounds_reply (ObjectId.grounds_get hc h key)
  | invoke id key arguments => exact grounds_reply (ObjectId.grounds_invoke hc h.1 key h.2)
  | preventExtensions id =>
    rw [perform]
    exact grounds_reply id.grounds_preventExtensions
  | instantiate id => exact grounds_reply (ObjectId.grounds_instantiate hc h)
  | respond c request arguments =>
    exact grounds_reply (hc n c request arguments h.1 h.2.1 h.2.2)
  | share d =>
    rw [perform]
    exact grounds_reply (Grounds.addCell h)
  | edit handle d =>
    rw [perform]
    exact grounds_reply (Grounds.setContent handle h)
  | memorize memo table =>
    rw [perform]
    exact grounds_reply (Grounds.setMemo memo h)
  | evaluateClass config decl env =>
    exact grounds_reply (Engine.grounds_evaluateClass hc rfl h.1 h.2)
  | evaluateLiteral config literal env =>
    exact grounds_reply (Engine.grounds_evaluateLiteral hc rfl h.1 h.2)

end Operation

theorem Action.bind_congr_yields {x : Action σ ε α} {f f' : α → Action σ ε β} {w : World σ}
    (h : ∀ a w', x.Yields w a w' → f a w' = f' a w') : (x >>= f) w = (x >>= f') w := by
  show Action.bind x f w = Action.bind x f' w
  unfold Action.bind
  cases hx : x w with
  | mk outcome w' events =>
    cases outcome with
    | ok a =>
      have hsame := h a w' ⟨by rw [hx], by rw [hx]⟩
      dsimp only
      rw [hsame]
    | failed e => rfl
    | exhausted => rfl

namespace Program

def dangling : Fault := .reference (.raised "no such object")

/-- The program with a look before every operation and at the end: it stops where it would name an object
that is not there. -/
def guarded : Program σ → Program σ
  | finish (.ok v) => look fun w => finish (if v.Within w.heap.objects.size then .ok v else .error dangling)
  | finish (.error fault) => finish (.error fault)
  | keep state rest => keep state rest.guarded
  | look next => look fun w => (next w).guarded
  | perform operation next => look fun w =>
    if operation.Within w.heap.objects.size then perform operation fun reply => (next reply).guarded
    else finish (.error dangling)

def Sees (caller : Caller σ) : Program σ → World σ → Prop
  | finish result, w => ∀ v, result = .ok v → v.Within w.heap.objects.size
  | keep state rest, w => rest.Sees caller { w with host := state }
  | look next, w => (next w).Sees caller w
  | perform operation next, w =>
    operation.Within w.heap.objects.size ∧
      ∀ reply w', (operation.perform caller).Yields w reply w' → (next reply).Sees caller w'

/-- Such a program runs as if nobody looked. -/
theorem run_guarded {p : Program σ} {w : World σ} (h : p.Sees caller w) :
    p.guarded.run caller w = p.run caller w := by
  induction p generalizing w with
  | finish result =>
    cases result with
    | error fault => rfl
    | ok v =>
      show (finish (if v.Within w.heap.objects.size then .ok v else .error dangling)).run caller w = _
      rw [if_pos (h v rfl)]
  | keep state rest ih =>
    refine bind_congr_yields fun _ w' hw' => ?_
    cases hw'.2
    exact ih h
  | look next ih => exact ih w h
  | perform operation next ih =>
    show (if operation.Within w.heap.objects.size then _ else _ : Program σ).run caller w = _
    rw [if_pos h.1]
    refine bind_congr_yields fun reply w' hreply => ?_
    have hrest := ih reply (h.2 reply w' hreply)
    exact bind_congr_yields fun _ w'' hw'' => by
      cases hw''.2
      exact hrest

theorem grounds_run (hc : caller.Grounds) (p : Program σ) (n : Nat) :
    (p.guarded.run caller).Grounds n Value.Within := by
  induction p generalizing n with
  | finish result =>
    cases result with
    | error fault => exact Grounds.fail fault
    | ok v =>
      intro w hw _
      change Run.Grounds _ w ((ofExcept (if v.Within w.heap.objects.size then .ok v else .error dangling) :
        Action σ Fault Value) w)
      split
      · rename_i hv
        exact (Grounds.pure fun k hk => Value.Within.mono hv hk) w hw (Nat.le_refl _)
      · exact Grounds.fail _ w hw (Nat.le_refl _)
  | keep state rest ih =>
    have hkeep : (onWorld fun w => ((), { w with host := state }) : Action σ Fault Unit).Grounds n Free :=
      fun w hw _ => ⟨List.forall_mem_nil _, hw, Nat.le_refl _, fun _ _ => trivial⟩
    exact hkeep.bind fun k _ _ _ => ih k
  | look next ih => exact fun w hw hn => ih w n w hw hn
  | perform operation next ih =>
    intro w hw _
    change ((if operation.Within w.heap.objects.size then _ else _ : Program σ).run caller w).Grounds _ w
    split
    · rename_i hwithin
      -- Nothing happens between the look and the operation, so what was seen is still there.
      have hrun := (operation.grounds_perform hc hwithin).bind fun k reply _ _ =>
        (Grounds.emit (.remark none [])).bind fun l _ _ _ => ih reply l
      exact hrun w hw (Nat.le_refl _)
    · exact Grounds.fail _ w hw (Nat.le_refl _)

end Program

def Host.ofGuarded (programs : Nat → Value → List Value → Program σ) : Host σ :=
  Host.ofPrograms fun code receiver arguments => (programs code receiver arguments).guarded

theorem Host.grounds_ofGuarded (programs : Nat → Value → List Value → Program σ) :
    (Host.ofGuarded programs).Grounds :=
  fun _ hc n code receiver arguments _ _ => (programs code receiver arguments).grounds_run hc n

theorem Action.Grounds.history {Q : Nat → α → Prop} {x : Action σ ε α} (hx : x.Grounds n Q) {w : World σ}
    (hw : w.heap.Grounded) (hn : n ≤ w.heap.objects.size) : ∀ h ∈ x.history w, h.Grounded := by
  have hrun := hx w hw hn
  intro h hh
  rcases List.mem_append.mp hh with hh | hh
  · rcases List.mem_cons.mp hh with rfl | hh
    · exact hw
    · obtain ⟨moment, hmoment, rfl⟩ := List.mem_map.mp hh
      exact hrun.events moment hmoment
  · rw [List.mem_singleton.mp hh]
    exact hrun.heap

end Decoration
