import Decoration.Capability.Response
import Decoration.Engine.Literal
import Decoration.Proofs.Pairing
import Decoration.Proofs.Success.Engine
import Decoration.Proofs.Trace.Literal
import Decoration.Proofs.Undecorated.Source

/-! An object literal without decorators. Its properties are defined one after another: a value replaces
what is there under its key, and a getter or a setter joins the other half if an accessor is there. -/

namespace Decoration

open Decoration.Action

variable {σ : Type}

namespace LiteralProperty

def isValue (p : LiteralProperty) : Bool :=
  match p.kind with
  | .init _ | .method _ => true
  | .getter _ | .setter _ => false

def getter? (p : LiteralProperty) : Option Capability :=
  match p.kind with
  | .getter body => some body
  | _ => none

def setter? (p : LiteralProperty) : Option Capability :=
  match p.kind with
  | .setter body => some body
  | _ => none

/-- The getters and setters of a key after its last value, or all if it has none, latest first. -/
def sinceValue (key : String) (properties : List LiteralProperty) : List LiteralProperty :=
  (properties.reverse.filter (·.key == key)).takeWhile (!·.isValue)

theorem sinceValue_concat (key : String) (properties : List LiteralProperty) (p : LiteralProperty) :
    sinceValue key (properties ++ [p]) =
      if p.key = key then (if p.isValue then [] else p :: sinceValue key properties)
      else sinceValue key properties := by
  rw [sinceValue, List.reverse_append, List.reverse_singleton, List.singleton_append]
  by_cases hkey : p.key = key
  · rw [if_pos hkey]
    cases hvalue : p.isValue with
    | true => simp [hkey, hvalue]
    | false => simp [hkey, hvalue, sinceValue]
  · rw [if_neg hkey, List.filter_cons_of_neg (by simpa using hkey), sinceValue]

end LiteralProperty

inductive PropertyKind.Makes (caller : Caller σ) (env : Environment) (v : World σ) (h : Heap)
    (there : Option Value × Option Value) : PropertyKind → Descriptor → Prop
  | init {x : Expr} {a : Value} {v' : World σ} (evaluated : (x.evaluate caller env).Yields v a v') :
    Makes caller env v h there (.init x) (.ordinary a)
  | method {body : Capability} {f : Value} (function : h.capability? f = some body) :
    Makes caller env v h there (.method body) (.ordinary f)
  | getter {body : Capability} {f : Value} (function : h.capability? f = some body) :
    Makes caller env v h there (.getter body) (.accessor (some f) there.2 true true)
  | setter {body : Capability} {f : Value} (function : h.capability? f = some body) :
    Makes caller env v h there (.setter body) (.accessor there.1 (some f) true true)

namespace PropertyKind.Makes

variable {caller : Caller σ} {env : Environment} {v : World σ} {h h' : Heap}
  {there : Option Value × Option Value} {kind : PropertyKind} {d : Descriptor}

theorem mono (hk : h.KeepsFunctions h') (hm : Makes caller env v h there kind d) :
    Makes caller env v h' there kind d := by
  cases hm with
  | init evaluated => exact .init evaluated
  | method function => exact .method (hk _ _ function)
  | getter function => exact .getter (hk _ _ function)
  | setter function => exact .setter (hk _ _ function)

theorem free (hm : Makes caller env v h there kind d) :
    d.enumerable = true ∧ d.configurable = true := by
  cases hm <;> exact ⟨rfl, rfl⟩

end PropertyKind.Makes

theorem PropertyKind.Makes.accessor_of_half {caller : Caller σ} {env : Environment} {v : World σ}
    {h : Heap} {there : Option Value × Option Value} {p : LiteralProperty} {d : Descriptor}
    {rest : List LiteralProperty} (hm : p.kind.Makes caller env v h there d) (hhalf : p.isValue = false)
    (hgetter : Option.Rel (fun f c => h.capability? f = some c) there.1
      (rest.findSome? LiteralProperty.getter?))
    (hsetter : Option.Rel (fun g c => h.capability? g = some c) there.2
      (rest.findSome? LiteralProperty.setter?)) :
    ∃ f g, some d = some (.accessor f g true true) ∧
      Option.Rel (fun f c => h.capability? f = some c) f
        ((p :: rest).findSome? LiteralProperty.getter?) ∧
      Option.Rel (fun g c => h.capability? g = some c) g
        ((p :: rest).findSome? LiteralProperty.setter?) := by
  obtain ⟨key, decorators, kind⟩ := p
  cases hm with
  | init => cases hhalf
  | method => cases hhalf
  | getter function => exact ⟨_, _, rfl, .some function, hsetter⟩
  | setter function => exact ⟨_, _, rfl, hgetter, .some function⟩

theorem PropertyKind.Makes.of_isValue {caller : Caller σ} {env : Environment} {v : World σ} {h : Heap}
    {there : Option Value × Option Value} {p : LiteralProperty} {d : Descriptor}
    (hm : p.kind.Makes caller env v h there d) (hvalue : p.isValue = true) :
    ∃ a, d = .ordinary a ∧ p.kind.Makes caller env v h (none, none) d := by
  rw [LiteralProperty.isValue] at hvalue
  generalize p.kind = kind at hm hvalue ⊢
  cases hm with
  | init evaluated => exact ⟨_, rfl, .init evaluated⟩
  | method function => exact ⟨_, rfl, .method function⟩
  | getter => cases hvalue
  | setter => cases hvalue

namespace Engine

variable {e : Engine σ} {target : Target} {env : Environment} {p : LiteralProperty}
  {w w' : World σ}

theorem yields_existingHalves (hs : e.store = .ordinary σ) {object : ObjectId} {key : String}
    {there : Option Value × Option Value} :
    (e.existingHalves object key).Yields w there w' ↔
      Descriptor.halves (w.heap.own? object key) = there ∧ w = w' := by
  unfold existingHalves
  rw [hs, yields_bind]
  constructor
  · rintro ⟨found, v, hread, h⟩
    obtain ⟨rfl, rfl⟩ := Store.yields_readBack.mp hread
    generalize w.heap.own? object key = found at h ⊢
    rcases found with _ | ⟨⟩ | ⟨⟩ <;> exact yields_pure.mp h
  · rintro ⟨rfl, rfl⟩
    refine ⟨_, w, Store.yields_readBack.mpr ⟨rfl, rfl⟩, ?_⟩
    rcases w.heap.own? object key with _ | ⟨⟩ | ⟨⟩ <;> exact yields_pure.mpr ⟨rfl, rfl⟩

structure PlainProperty (e : Engine σ) (env : Environment) (p : LiteralProperty) : Prop where
  decorators : p.decorators = []
  spares : ∀ x, p.kind = .init x → (x.evaluate e.caller env).Spares

theorem makes_of_propertyDescriptor (hs : e.store = .ordinary σ) {d : Descriptor}
    (h : (e.propertyDescriptor target.object env p).Yields w d w') :
    p.kind.Makes e.caller env w w'.heap
      (Descriptor.halves (w.heap.own? target.object p.key)) d := by
  unfold propertyDescriptor at h
  split at h <;> rename_i hkind <;> rw [hkind]
  · obtain ⟨a, v, ha, h⟩ := yields_bind.mp h
    obtain ⟨rfl, rfl⟩ := yields_pure.mp h
    exact .init (yields_mapFault.mp ha)
  · obtain ⟨f, v, hf, h⟩ := yields_bind.mp h
    obtain ⟨rfl, rfl⟩ := yields_pure.mp h
    exact .method (Capability.capability?_of_yields hf)
  · obtain ⟨there, v, hthere, h⟩ := yields_bind.mp h
    obtain ⟨rfl, rfl⟩ := (yields_existingHalves hs).mp hthere
    obtain ⟨f, v, hf, h⟩ := yields_bind.mp h
    obtain ⟨rfl, rfl⟩ := yields_pure.mp h
    exact .getter (Capability.capability?_of_yields hf)
  · obtain ⟨there, v, hthere, h⟩ := yields_bind.mp h
    obtain ⟨rfl, rfl⟩ := (yields_existingHalves hs).mp hthere
    obtain ⟨f, v, hf, h⟩ := yields_bind.mp h
    obtain ⟨rfl, rfl⟩ := yields_pure.mp h
    exact .setter (Capability.capability?_of_yields hf)

theorem exists_propertyDescriptor_iff (target : Target) (hs : e.store = .ordinary σ) :
    (∃ d w', (e.propertyDescriptor target.object env p).Yields w d w') ↔
      ∀ x, p.kind = .init x → ∃ a w', (x.evaluate e.caller env).Yields w a w' := by
  constructor
  · rintro ⟨d, w', h⟩ x hx
    have hm := makes_of_propertyDescriptor hs h
    rw [hx] at hm
    cases hm with
    | init evaluated => exact ⟨_, _, evaluated⟩
  · intro h
    unfold propertyDescriptor
    split
    · rename_i x hx
      obtain ⟨a, w', ha⟩ := h x hx
      exact ⟨_, w', yields_bind.mpr ⟨a, w', yields_mapFault.mpr ha, yields_pure.mpr ⟨rfl, rfl⟩⟩⟩
    · rename_i body _
      obtain ⟨f, w', hf⟩ := body.exists_yields_function w
      exact ⟨_, w', yields_bind.mpr ⟨f, w', hf, yields_pure.mpr ⟨rfl, rfl⟩⟩⟩
    · rename_i body _
      obtain ⟨f, w', hf⟩ := body.exists_yields_function w
      exact ⟨_, w', yields_bind.mpr ⟨_, w, (yields_existingHalves hs).mpr ⟨rfl, rfl⟩,
        yields_bind.mpr ⟨f, w', hf, yields_pure.mpr ⟨rfl, rfl⟩⟩⟩⟩
    · rename_i body _
      obtain ⟨f, w', hf⟩ := body.exists_yields_function w
      exact ⟨_, w', yields_bind.mpr ⟨_, w, (yields_existingHalves hs).mpr ⟨rfl, rfl⟩,
        yields_bind.mpr ⟨f, w', hf, yields_pure.mpr ⟨rfl, rfl⟩⟩⟩⟩

theorem PlainProperty.grows (hs : e.store = .ordinary σ) (hp : e.PlainProperty env p) {d : Descriptor}
    (h : (e.propertyDescriptor target.object env p).Yields w d w') : w.heap.Grows w'.heap := by
  unfold propertyDescriptor at h
  split at h
  · rename_i x hx
    obtain ⟨a, v, ha, h⟩ := yields_bind.mp h
    obtain ⟨-, rfl⟩ := yields_pure.mp h
    exact (hp.spares x hx).yields (yields_mapFault.mp ha)
  · rename_i body _
    exact (body.spares_function.bind fun f => .pure _).yields h
  · rename_i body _
    obtain ⟨there, v, hthere, h⟩ := yields_bind.mp h
    obtain ⟨-, rfl⟩ := (yields_existingHalves hs).mp hthere
    exact (body.spares_function.bind fun f => .pure _).yields h
  · rename_i body _
    obtain ⟨there, v, hthere, h⟩ := yields_bind.mp h
    obtain ⟨-, rfl⟩ := (yields_existingHalves hs).mp hthere
    exact (body.spares_function.bind fun f => .pure _).yields h

theorem PlainProperty.yields_evaluateProperty (hs : e.store = .ordinary σ)
    (hp : e.PlainProperty env p) :
    (e.evaluateProperty target env p).Yields w () w' ↔
      ∃ d v, (e.propertyDescriptor target.object env p).Yields w d v ∧
        (v.heap.object target.object).Accepts p.key d ∧ v.insert target.object p.key d = w' := by
  unfold evaluateProperty
  rw [hp.decorators, List.isEmpty_nil, if_pos rfl, yields_bind, hs]
  simp only [Store.yields_install]

theorem yields_evaluateProperties_append {first second : List LiteralProperty} :
    (e.evaluateProperties target env (first ++ second)).Yields w () w' ↔
      ∃ v, (e.evaluateProperties target env first).Yields w () v ∧
        (e.evaluateProperties target env second).Yields v () w' := by
  induction first generalizing w with
  | nil => exact ⟨fun h => ⟨w, yields_pure.mpr ⟨rfl, rfl⟩, h⟩, by rintro ⟨_, ⟨-, rfl⟩, h⟩; exact h⟩
  | cons p rest ih =>
    constructor
    · intro h
      obtain ⟨⟨⟩, w₁, hp, h⟩ := yields_bind.mp h
      obtain ⟨v, hrest, hsecond⟩ := ih.mp h
      exact ⟨v, yields_bind.mpr ⟨(), w₁, hp, hrest⟩, hsecond⟩
    · rintro ⟨v, hfirst, hsecond⟩
      obtain ⟨⟨⟩, w₁, hp, hrest⟩ := yields_bind.mp hfirst
      exact yields_bind.mpr ⟨(), w₁, hp, ih.mpr ⟨v, hrest, hsecond⟩⟩

theorem yields_evaluateProperties_concat {properties : List LiteralProperty} :
    (e.evaluateProperties target env (properties ++ [p])).Yields w () w' ↔
      ∃ v, (e.evaluateProperties target env properties).Yields w () v ∧
        (e.evaluateProperty target env p).Yields v () w' := by
  rw [yields_evaluateProperties_append]
  refine exists_congr fun v => and_congr_right fun _ => yields_bind.trans ⟨?_, fun h =>
    ⟨(), w', h, yields_pure.mpr ⟨rfl, rfl⟩⟩⟩
  rintro ⟨⟨⟩, u, hp, h⟩
  obtain ⟨-, rfl⟩ := yields_pure.mp h
  exact hp

structure Assembling (target : Target) (properties : List LiteralProperty) (h : Heap) : Prop where
  bound : target.object.index < h.objects.size
  extensible : (h.object target.object).extensible = true
  free : ∀ key d, h.own? target.object key = some d → d.enumerable = true ∧ d.configurable = true
  lone : ∀ key, LiteralProperty.sinceValue key properties = [] →
    Descriptor.halves (h.own? target.object key) = (none, none)

/-- What the properties leave in their object. The keys are in the order in which they first came up. A
key holds its last value if no half follows it, and otherwise an accessor of the last getter and the last
setter since. -/
structure Assembles (e : Engine σ) (target : Target) (env : Environment) (w₀ : World σ)
    (properties : List LiteralProperty) (h : Heap) : Prop where
  keys : h.ownKeys target.object = (properties.map (·.key)).eraseDups
  value : ∀ before p after, properties = before ++ p :: after → p.isValue = true →
    (∀ q ∈ after, q.key ≠ p.key) → ∃ v a,
      (e.evaluateProperties target env before).Yields w₀ () v ∧
        p.kind.Makes e.caller env v h (none, none) (.ordinary a) ∧
        h.own? target.object p.key = some (.ordinary a)
  accessor : ∀ key, LiteralProperty.sinceValue key properties ≠ [] → ∃ f g,
    h.own? target.object key = some (.accessor f g true true) ∧
      Option.Rel (fun f c => h.capability? f = some c) f
        ((LiteralProperty.sinceValue key properties).findSome? LiteralProperty.getter?) ∧
      Option.Rel (fun g c => h.capability? g = some c) g
        ((LiteralProperty.sinceValue key properties).findSome? LiteralProperty.setter?)

variable {properties : List LiteralProperty} {w₀ : World σ}

theorem Assembles.halves (hu : Assembling target properties w.heap)
    (ha : e.Assembles target env w₀ properties w.heap) (key : String) :
    Option.Rel (fun f c => w.heap.capability? f = some c)
        (Descriptor.halves (w.heap.own? target.object key)).1
        ((LiteralProperty.sinceValue key properties).findSome? LiteralProperty.getter?) ∧
      Option.Rel (fun g c => w.heap.capability? g = some c)
        (Descriptor.halves (w.heap.own? target.object key)).2
        ((LiteralProperty.sinceValue key properties).findSome? LiteralProperty.setter?) := by
  by_cases hsince : LiteralProperty.sinceValue key properties = []
  · rw [hu.lone key hsince, hsince]
    exact ⟨.none, .none⟩
  · obtain ⟨f, g, hown, hf, hg⟩ := ha.accessor key hsince
    rw [hown]
    exact ⟨hf, hg⟩

theorem PlainProperty.inserts (hs : e.store = .ordinary σ) (hp : e.PlainProperty env p)
    (h : (e.evaluateProperty target env p).Yields w () w') :
    ∃ d, ∃ v : World σ, w.heap.Grows v.heap ∧ target.object.index < v.heap.objects.size ∧
      w.heap.KeepsFunctions w'.heap ∧
      p.kind.Makes e.caller env w w'.heap (Descriptor.halves (w.heap.own? target.object p.key)) d ∧
      w' = v.insert target.object p.key d := by
  obtain ⟨d, v, hmade, haccepts, rfl⟩ := (hp.yields_evaluateProperty hs).mp h
  have hgrows := hp.grows hs hmade
  have hbound := Heap.lt_size_of_accepts haccepts
  have hkeeps : v.heap.KeepsFunctions (v.insert target.object p.key d).heap :=
    Heap.keepsFunctions_withProperties hbound _
  exact ⟨d, v, hgrows, hbound, hgrows.keepsFunctions.trans hkeeps,
    (makes_of_propertyDescriptor hs hmade).mono hkeeps, rfl⟩

theorem PlainProperty.effect (hs : e.store = .ordinary σ) (hp : e.PlainProperty env p)
    (hbound : target.object.index < w.heap.objects.size)
    (h : (e.evaluateProperty target env p).Yields w () w') :
    ∃ d, p.kind.Makes e.caller env w w'.heap (Descriptor.halves (w.heap.own? target.object p.key)) d ∧
      w.heap.KeepsFunctions w'.heap ∧ target.object.index < w'.heap.objects.size ∧
      (w'.heap.object target.object).extensible = (w.heap.object target.object).extensible ∧
      (∀ key, w'.heap.own? target.object key =
        if key = p.key then some d else w.heap.own? target.object key) ∧
      w'.heap.ownKeys target.object = w.heap.ownKeys target.object ++
        if p.key ∈ w.heap.ownKeys target.object then [] else [p.key] := by
  obtain ⟨d, v, hgrows, hv, hkeeps, hmakes, rfl⟩ := hp.inserts hs h
  have hobject := hgrows.same _ hbound
  refine ⟨d, hmakes, hkeeps, ?_, ?_, fun key => ?_, ?_⟩
  · exact (Heap.size_withProperties _ _ _).symm ▸ hv
  · rw [World.object_insert_self hv, ← hobject]
    rfl
  · rw [World.own?_insert hv, Heap.own?, hobject, Heap.own?]
  · rw [World.ownKeys_insert hv, Heap.ownKeys, hobject, Heap.ownKeys]

theorem Assembling.concat (hs : e.store = .ordinary σ) (hu : Assembling target properties w.heap)
    (hp : e.PlainProperty env p) (h : (e.evaluateProperty target env p).Yields w () w') :
    Assembling target (properties ++ [p]) w'.heap := by
  obtain ⟨d, hmakes, -, hbound, hextensible, hown, -⟩ := hp.effect hs hu.bound h
  refine ⟨hbound, hextensible.trans hu.extensible, fun key current hcurrent => ?_, fun key hsince => ?_⟩
  · rw [hown] at hcurrent
    split at hcurrent
    · cases hcurrent
      exact hmakes.free
    · exact hu.free key current hcurrent
  · rw [LiteralProperty.sinceValue_concat] at hsince
    rw [hown]
    by_cases hkey : p.key = key
    · rw [if_pos hkey] at hsince
      rw [if_pos hkey.symm]
      cases hvalue : p.isValue with
      | true =>
        obtain ⟨a, rfl, -⟩ := hmakes.of_isValue hvalue
        rfl
      | false =>
        rw [hvalue] at hsince
        cases hsince
    · rw [if_neg hkey] at hsince
      rw [if_neg (Ne.symm hkey)]
      exact hu.lone key hsince

theorem Assembles.concat (hs : e.store = .ordinary σ) (hu : Assembling target properties w.heap)
    (ha : e.Assembles target env w₀ properties w.heap) (hp : e.PlainProperty env p)
    (hearlier : (e.evaluateProperties target env properties).Yields w₀ () w)
    (h : (e.evaluateProperty target env p).Yields w () w') :
    e.Assembles target env w₀ (properties ++ [p]) w'.heap := by
  obtain ⟨d, hmakes, hkeeps, -, -, hown, hkeys⟩ := hp.effect hs hu.bound h
  refine ⟨?_, fun before x after heq hvalue hafter => ?_, fun key hsince => ?_⟩
  · rw [hkeys, ha.keys, List.map_append, List.map_singleton, eraseDups_concat]
    simp only [List.mem_eraseDups]
  · rcases List.eq_nil_or_concat after with rfl | ⟨rest, last, rfl⟩
    · obtain ⟨rfl, hlast⟩ := List.append_inj' heq rfl
      obtain rfl := (List.cons.inj hlast).1
      obtain ⟨a, rfl, hplain⟩ := hmakes.of_isValue hvalue
      exact ⟨w, a, hearlier, hplain, by rw [hown, if_pos rfl]⟩
    · rw [List.concat_eq_append] at heq hafter
      rw [← List.cons_append, ← List.append_assoc] at heq
      obtain ⟨rfl, hlast⟩ := List.append_inj' heq rfl
      obtain rfl := (List.cons.inj hlast).1
      -- The new property has another key, so the earlier value is still there.
      obtain ⟨v, a, hbefore, hplain, hold⟩ :=
        ha.value before x rest rfl hvalue fun q hq => hafter q (by simp [hq])
      refine ⟨v, a, hbefore, hplain.mono hkeeps, ?_⟩
      rw [hown, if_neg (Ne.symm (hafter p (by simp))), hold]
  · rw [LiteralProperty.sinceValue_concat] at hsince ⊢
    by_cases hkey : p.key = key
    · subst hkey
      rw [if_pos rfl] at hsince ⊢
      rw [hown, if_pos rfl]
      cases hvalue : p.isValue with
      | true =>
        rw [hvalue] at hsince
        exact absurd rfl hsince
      | false =>
        obtain ⟨hgetter, hsetter⟩ := ha.halves hu p.key
        exact hmakes.accessor_of_half hvalue (hkeeps.rel hgetter) (hkeeps.rel hsetter)
    · rw [if_neg hkey] at hsince ⊢
      obtain ⟨f, g, hold, hf, hg⟩ := ha.accessor key hsince
      exact ⟨f, g, by rw [hown, if_neg (Ne.symm hkey), hold], hkeeps.rel hf, hkeeps.rel hg⟩

theorem assembles_evaluateProperties (hs : e.store = .ordinary σ)
    (hu : Assembling target [] w₀.heap) (ha : e.Assembles target env w₀ [] w₀.heap)
    (hplain : ∀ p ∈ properties, e.PlainProperty env p)
    (h : (e.evaluateProperties target env properties).Yields w₀ () w') :
    Assembling target properties w'.heap ∧ e.Assembles target env w₀ properties w'.heap := by
  -- From the end: the last property meets what the others have left.
  induction properties using List.reverseRecOn generalizing w' with
  | nil =>
    obtain ⟨-, rfl⟩ := yields_pure.mp h
    exact ⟨hu, ha⟩
  | append_singleton properties p ih =>
    obtain ⟨w, hearlier, hlast⟩ := yields_evaluateProperties_concat.mp h
    have hp := hplain p (by simp)
    obtain ⟨hu', ha'⟩ := ih (fun x hx => hplain x (List.mem_append_left _ hx)) hearlier
    exact ⟨hu'.concat hs hp hlast, ha'.concat hs hu' hp hearlier hlast⟩

theorem PlainProperty.exists_yields_iff (hs : e.store = .ordinary σ) (hp : e.PlainProperty env p)
    (hu : Assembling target properties w.heap) :
    (∃ w', (e.evaluateProperty target env p).Yields w () w') ↔
      ∀ x, p.kind = .init x → ∃ a v, (x.evaluate e.caller env).Yields w a v := by
  rw [← exists_propertyDescriptor_iff target hs]
  constructor
  · rintro ⟨w', h⟩
    obtain ⟨d, v, hmade, -⟩ := (hp.yields_evaluateProperty hs).mp h
    exact ⟨d, v, hmade⟩
  · rintro ⟨d, v, hmade⟩
    have hobject := (hp.grows hs hmade).same _ hu.bound
    refine ⟨_, (hp.yields_evaluateProperty hs).mpr ⟨d, v, hmade, ?_, rfl⟩⟩
    rw [hobject]
    exact ⟨fun _ => hu.extensible, fun current hcurrent hfixed =>
      absurd ((hu.free p.key current hcurrent).2.symm.trans hfixed) nofun⟩

def ReachesExpression (e : Engine σ) (target : Target) (env : Environment)
    (properties : List LiteralProperty) (w₀ : World σ) (x : Expr) (v : World σ) : Prop :=
  ∃ before p after, properties = before ++ p :: after ∧ p.kind = .init x ∧
    (e.evaluateProperties target env before).Yields w₀ () v

theorem exists_yields_evaluateProperties_iff (hs : e.store = .ordinary σ)
    (hu : Assembling target [] w₀.heap) (ha : e.Assembles target env w₀ [] w₀.heap)
    (hplain : ∀ p ∈ properties, e.PlainProperty env p) :
    (∃ w', (e.evaluateProperties target env properties).Yields w₀ () w') ↔
      ∀ x v, e.ReachesExpression target env properties w₀ x v →
        ∃ a v', (x.evaluate e.caller env).Yields v a v' := by
  constructor
  · rintro ⟨w', h⟩ x v ⟨before, p, after, rfl, hkind, hbefore⟩
    obtain ⟨v', hbefore', hrest⟩ := yields_evaluateProperties_append.mp h
    obtain ⟨-, rfl⟩ := hbefore.unique hbefore'
    obtain ⟨⟨⟩, w₁, hp, -⟩ := yields_bind.mp hrest
    have hbefores := fun x hx => hplain x (List.mem_append_left (p :: after) hx)
    obtain ⟨hu', -⟩ := assembles_evaluateProperties hs hu ha hbefores hbefore
    exact ((hplain p (by simp)).exists_yields_iff hs hu').mp ⟨w₁, hp⟩ x hkind
  · intro hexpressions
    induction properties using List.reverseRecOn with
    | nil => exact ⟨w₀, yields_pure.mpr ⟨rfl, rfl⟩⟩
    | append_singleton properties p ih =>
      have hplain' : ∀ x ∈ properties, e.PlainProperty env x :=
        fun x hx => hplain x (List.mem_append_left _ hx)
      have hearlier : ∀ x v, e.ReachesExpression target env properties w₀ x v →
          ∃ a v', (x.evaluate e.caller env).Yields v a v' := by
        rintro x v ⟨before, q, after, rfl, hkind, hbefore⟩
        exact hexpressions x v ⟨before, q, after ++ [p], by simp, hkind, hbefore⟩
      obtain ⟨v, hproperties⟩ := ih hplain' hearlier
      obtain ⟨hu', -⟩ := assembles_evaluateProperties hs hu ha hplain' hproperties
      obtain ⟨w', hlast⟩ := ((hplain p (by simp)).exists_yields_iff hs hu').mpr
        fun x hx => hexpressions x v ⟨properties, p, [], rfl, hx, hproperties⟩
      exact ⟨w', yields_evaluateProperties_concat.mpr ⟨v, hproperties, hlast⟩⟩

theorem begins_of_addObject (e : Engine σ) (env : Environment) {object : ObjectId}
    (h : (onHeap (·.addObject {}) : Action σ DecorationFault ObjectId).Yields w object w₀) :
    Assembling ⟨.object, object⟩ [] w₀.heap ∧ e.Assembles ⟨.object, object⟩ env w₀ [] w₀.heap := by
  obtain ⟨rfl, rfl⟩ := yields_onHeap.mp h
  have hobject : (w.heap.addObject {}).2.object (w.heap.addObject {}).1 = {} := by
    rw [Heap.object_addObject, if_pos rfl]
  have hown : ∀ key, (w.heap.addObject {}).2.own? (w.heap.addObject {}).1 key = none := by
    intro key
    rw [Heap.own?, hobject]
    rfl
  refine ⟨⟨?_, ?_, fun key d hd => ?_, fun key _ => ?_⟩, ⟨?_, fun before p after hnil => ?_,
    fun key hsince => absurd rfl hsince⟩⟩
  · change w.heap.objects.size < (w.heap.objects.push _).size
    rw [Array.size_push]
    exact Nat.lt_succ_self _
  · rw [hobject]
  · cases (hown key).symm.trans hd
  · rw [hown]
    rfl
  · rw [Heap.ownKeys, hobject]
    rfl
  · exact absurd hnil (by simp)

theorem yields_evaluateLiteral {literal : ObjectLiteral} {id : ObjectId} :
    (e.evaluateLiteral literal env).Yields w id w' ↔
      ∃ w₀, (onHeap (·.addObject {}) : Action σ DecorationFault ObjectId).Yields w id w₀ ∧
        (e.evaluateProperties ⟨.object, id⟩ env literal.properties).Yields w₀ () w' := by
  refine yields_report_bind.trans (yields_bind.trans ?_)
  constructor
  · rintro ⟨object, w₀, hobject, h⟩
    obtain ⟨⟨⟩, v, hproperties, h⟩ := yields_bind.mp (Placement.yields_resolve_bind.mp h)
    obtain ⟨rfl, rfl⟩ := yields_pure.mp h
    exact ⟨w₀, hobject, hproperties⟩
  · rintro ⟨w₀, hobject, hproperties⟩
    exact ⟨id, w₀, hobject, Placement.yields_resolve_bind.mpr
      (yields_bind.mpr ⟨(), w', hproperties, yields_pure.mpr ⟨rfl, rfl⟩⟩)⟩

/-- The meaning of an object literal without decorators whose expressions leave the objects that are there
as they are: it is evaluated if every expression can be at its turn, and its object then holds what the
properties tell. -/
theorem evaluateLiteral_plain (e : Engine σ) (literal : ObjectLiteral) (env : Environment) (w : World σ)
    (ordinary : e.store = .ordinary σ)
    (undecorated : ∀ p ∈ literal.properties, p.decorators = [])
    (spared : ∀ p ∈ literal.properties, ∀ x, p.kind = .init x → (x.evaluate e.caller env).Spares) :
    ∃ object w₀,
      (onHeap (·.addObject {}) : Action σ DecorationFault ObjectId).Yields w object w₀ ∧
      ((∃ id w', (e.evaluateLiteral literal env).Yields w id w') ↔
        ∀ x v, e.ReachesExpression ⟨.object, object⟩ env literal.properties w₀ x v →
          ∃ a v', (x.evaluate e.caller env).Yields v a v') ∧
      ∀ id w', (e.evaluateLiteral literal env).Yields w id w' → id = object ∧
        (∀ key d, w'.heap.own? object key = some d → d.enumerable = true ∧ d.configurable = true) ∧
        e.Assembles ⟨.object, object⟩ env w₀ literal.properties w'.heap := by
  obtain ⟨object, w₀, hobject⟩ : ∃ object w₀,
      (onHeap (·.addObject {}) : Action σ DecorationFault ObjectId).Yields w object w₀ :=
    ⟨_, _, yields_onHeap.mpr ⟨rfl, rfl⟩⟩
  have hplain : ∀ p ∈ literal.properties, e.PlainProperty env p :=
    fun p hp => ⟨undecorated p hp, spared p hp⟩
  obtain ⟨hu, ha⟩ := begins_of_addObject e env hobject
  have hliteral : ∀ id w', (e.evaluateLiteral literal env).Yields w id w' ↔
      (e.evaluateProperties ⟨.object, object⟩ env literal.properties).Yields w₀ () w' ∧
        object = id := by
    intro id w'
    rw [yields_evaluateLiteral]
    constructor
    · rintro ⟨v, hid, h⟩
      obtain ⟨rfl, rfl⟩ := hobject.unique hid
      exact ⟨h, rfl⟩
    · rintro ⟨h, rfl⟩
      exact ⟨w₀, hobject, h⟩
  refine ⟨object, w₀, hobject, ?_, fun id w' h => ?_⟩
  · rw [← exists_yields_evaluateProperties_iff ordinary hu ha hplain]
    exact ⟨fun ⟨id, w', h⟩ => ⟨w', ((hliteral id w').mp h).1⟩,
      fun ⟨w', h⟩ => ⟨_, w', (hliteral _ w').mpr ⟨h, rfl⟩⟩⟩
  · obtain ⟨hall, rfl⟩ := (hliteral id w').mp h
    obtain ⟨hu', ha'⟩ := assembles_evaluateProperties ordinary hu ha hplain hall
    exact ⟨rfl, hu'.free, ha'⟩

def mixedLiteral : ObjectLiteral where
  properties := [
    { key := "x", kind := .getter (.constant "old" .null) },
    { key := "y", kind := .setter (.constant "keep" .undefined) },
    { key := "x", kind := .init (.literal (.bool true)) },
    { key := "y", kind := .getter (.constant "first" .null) },
    { key := "z", kind := .method (.constant "run" .undefined) },
    { key := "y", kind := .getter (.constant "last" .null) },
    { key := "x", kind := .setter (.constant "set" .undefined) }]

theorem evaluateLiteral_plain_mixedLiteral :
    ∃ (object : ObjectId) (w' : World Unit) (f g k m : Value),
      (evaluateLiteral { caller := Caller.nested Host.none 1, store := .ordinary Unit }
        mixedLiteral {}).Yields ⟨{}, ()⟩ object w' ∧
      w'.heap.ownKeys object = ["x", "y", "z"] ∧
      w'.heap.own? object "x" = some (.accessor none (some f) true true) ∧
      w'.heap.capability? f = some (.constant "set" .undefined) ∧
      w'.heap.own? object "y" = some (.accessor (some g) (some k) true true) ∧
      w'.heap.capability? g = some (.constant "last" .null) ∧
      w'.heap.capability? k = some (.constant "keep" .undefined) ∧
      w'.heap.own? object "z" = some (.ordinary m) ∧
      w'.heap.capability? m = some (.constant "run" .undefined) := by
  have hspared : ∀ p ∈ mixedLiteral.properties, ∀ x, p.kind = .init x →
      (x.evaluate (Caller.nested (Host.none : Host Unit) 1) {}).Spares := by
    have hkind : ∀ p ∈ mixedLiteral.properties, ∀ x, p.kind = .init x →
        x = .literal (.bool true) := by
      simp [mixedLiteral]
    intro p hp x hx
    rw [hkind p hp x hx]
    exact Spares.pure _
  obtain ⟨object, w₀, hobject, -, hmeaning⟩ :=
    evaluateLiteral_plain { caller := Caller.nested Host.none 1, store := .ordinary Unit } mixedLiteral {}
      ⟨{}, ()⟩ rfl (by simp [mixedLiteral]) hspared
  obtain ⟨hid, -, hassembles⟩ := hmeaning _ _ ⟨rfl, rfl⟩
  have hsince : LiteralProperty.sinceValue "x" mixedLiteral.properties ≠ [] ∧
      LiteralProperty.sinceValue "y" mixedLiteral.properties ≠ [] := by
    simp [mixedLiteral, LiteralProperty.sinceValue, LiteralProperty.isValue]
  obtain ⟨f, g, hx, hf, hg⟩ := hassembles.accessor "x" hsince.1
  obtain ⟨f', g', hy, hf', hg'⟩ := hassembles.accessor "y" hsince.2
  obtain ⟨v, m, -, hmakes, hz⟩ :=
    hassembles.value (mixedLiteral.properties.take 4) _ _ rfl rfl (by decide)
  change Option.Rel _ f none at hf
  change Option.Rel _ g (some _) at hg
  change Option.Rel _ f' (some _) at hf'
  change Option.Rel _ g' (some _) at hg'
  cases hf
  cases hg with
  | some hset =>
    cases hf' with
    | some hlast =>
      cases hg' with
      | some hkeep =>
        cases hmakes with
        | method hrun =>
          exact ⟨object, _, _, _, _, m, hid ▸ ⟨rfl, rfl⟩, hassembles.keys, hx, hset, hy, hlast, hkeep, hz,
            hrun⟩

end Engine
end Decoration
