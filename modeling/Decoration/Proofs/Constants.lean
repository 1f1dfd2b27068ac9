import Decoration.Proofs.Grouping
import Decoration.Proofs.Stepwise.Access
import Decoration.Proofs.Undecorated
import Decoration.Proofs.Undecorated.Literal
import Decoration.Proofs.Untouched

/-! Properties with a constant behind them. Whoever reads or calls one gets the constant, until its slot
is written again. -/

namespace Decoration

open Decoration.Action

variable {σ : Type} {host : Host σ} {depth : Nat} {config : Config} {env : Environment}

inductive ConstantForm where
  | value
  | getter
  | method
deriving DecidableEq, Repr

def ElementKind.constant? : ElementKind → Option (ConstantForm × Value)
  | method (.constant _ v) => some (.method, v)
  | getter (.constant _ v) => some (.getter, v)
  | field none => some (.value, .undefined)
  | field (some (.literal l)) => some (.value, l.value)
  | _ => none

def PropertyKind.constant? : PropertyKind → Option (ConstantForm × Value)
  | init (.literal l) => some (.value, l.value)
  | method (.constant _ v) => some (.method, v)
  | getter (.constant _ v) => some (.getter, v)
  | _ => none

/-- Calling a method gives the value, whatever it is called with, and so does reading anything else.
Nothing else happens. -/
def World.Gives (w : World σ) (caller : Caller σ) (id : ObjectId) (key : String) (v : Value) :
    ConstantForm → Prop
  | .method => ∀ arguments, (id.invoke caller key arguments).Yields w v w
  | .value | .getter => (id.get caller key).Yields w v w

inductive Heap.Fixes (h : Heap) (id : ObjectId) (key : String) (v : Value) : ConstantForm → Prop
  | value {w e c : Bool} (own : h.own? id key = some (.data v w e c)) : Fixes h id key v .value
  | getter {f : Value} {name : String} {setter : Option Value} {e c : Bool}
    (own : h.own? id key = some (.accessor (some f) setter e c))
    (function : h.capability? f = some (.constant name v)) : Fixes h id key v .getter
  | method {f : Value} {name : String} {w e c : Bool} (own : h.own? id key = some (.data f w e c))
    (function : h.capability? f = some (.constant name v)) : Fixes h id key v .method

namespace Heap.Fixes

variable {h h' : Heap} {id : ObjectId} {key : String} {form : ConstantForm} {v : Value} {w : World σ}

theorem keeps (hf : h.Fixes id key v form) (keeps : h.KeepsFunctions h')
    (same : h'.own? id key = h.own? id key) : h'.Fixes id key v form := by
  cases hf with
  | value own => exact .value (same.trans own)
  | getter own function => exact .getter (same.trans own) (keeps _ _ function)
  | method own function => exact .method (same.trans own) (keeps _ _ function)

theorem lt_size (hf : h.Fixes id key v form) : id.index < h.objects.size := by
  cases hf with
  | value own | getter own _ | method own _ => exact lt_size_of_own? own

theorem yields_call {f : Value} {name : String} (function : w.heap.capability? f = some (.constant name v))
    (receiver : Value) (arguments : List Value) :
    (f.call (Caller.nested host (depth + 1)) receiver arguments).Yields w v w := by
  rw [Value.call, yields_heap_bind, function]
  exact yields_pure.mpr ⟨rfl, rfl⟩

theorem yields_get {caller : Caller σ} {d : Descriptor} (own : w.heap.own? id key = some d) :
    (id.get caller key).Yields w v w ↔ (id.valueOf caller d).Yields w v w := by
  rw [ObjectId.get, yields_heap_bind, find?_of_own? own]

theorem gives (hf : w.heap.Fixes id key v form) :
    w.Gives (Caller.nested host (depth + 1)) id key v form := by
  cases hf with
  | value own => exact (yields_get own).mpr (yields_pure.mpr ⟨rfl, rfl⟩)
  | getter own function => exact (yields_get own).mpr (yields_call function _ _)
  | method own function =>
    intro arguments
    refine yields_bind.mpr ⟨_, w, (yields_get own).mpr (yields_pure.mpr ⟨rfl, rfl⟩),
      yields_heap_bind.mpr ?_⟩
    rw [isCallable, function]
    exact yields_call function _ _

end Heap.Fixes

theorem Heap.Grows.own?_insert {h : Heap} {v : World σ} (g : h.Grows v.heap) {id object : ObjectId}
    {key other : String} {d : Descriptor} (hobject : object.index < v.heap.objects.size)
    (hid : id.index < h.objects.size) (hother : id = object → other ≠ key) :
    (v.insert object key d).heap.own? id other = h.own? id other := by
  have hsame : v.heap.own? id other = h.own? id other := by
    rw [own?, g.same _ hid, own?]
  by_cases heq : id = object
  · subst heq
    rw [World.own?_insert hobject, if_neg (hother rfl), hsame]
  · have hunchanged : (v.insert object key d).heap.object id = v.heap.object id :=
      object_withProperties_ne hobject heq _
    rw [own?, hunchanged]
    exact hsame

theorem UnitShape.mem_kinds_accessor {getter setter : Option Capability} {kind : ElementKind} :
    kind ∈ (accessor getter setter).kinds ↔
      (∃ body, getter = some body ∧ kind = .getter body) ∨
        ∃ body, setter = some body ∧ kind = .setter body := by
  cases getter <;> cases setter <;> simp [kinds]

namespace ElementUnit

theorem mem_kinds_completed? {u : ElementUnit} {e : ClassElement} {shape : UnitShape}
    (h : u.completed? e = some shape) {kind : ElementKind} :
    kind ∈ shape.kinds ↔ kind ∈ u.shape.kinds ∨ kind = e.kind := by
  unfold completed? at h
  split at h <;> cases h
  · rename_i setter body hshape hkind
    rw [hshape, hkind]
    cases setter <;> simp [UnitShape.kinds, or_comm]
  · rename_i getter body hshape hkind
    rw [hshape, hkind]
    cases getter <;> simp [UnitShape.kinds]

theorem mem_bodies {u : ElementUnit} {e : ClassElement} :
    e.body ∈ u.bodies ↔ u.sameSlot e = true ∧ e.kind ∈ u.shape.kinds := by
  rw [sameSlot_iff]
  simp only [bodies, ClassElement.body, List.mem_map, Prod.mk.injEq]
  constructor
  · rintro ⟨kind, hkind, hname, hstatic, rfl⟩
    exact ⟨⟨hname, hstatic⟩, hkind⟩
  · rintro ⟨⟨hname, hstatic⟩, hkind⟩
    exact ⟨e.kind, hkind, hname, hstatic, rfl⟩

theorem exists_unit_of_mem {elements : List ClassElement} {units : List ElementUnit}
    (h : ofElements elements = .ok units) : ∀ e ∈ elements, ∃ u ∈ units, e.body ∈ u.bodies := by
  have hall : ∀ e ∈ elements, ∃ u ∈ units.reverse, e.body ∈ u.bodies := by
    refine ofElements_induction
      (P := fun elements units => ∀ e ∈ elements, ∃ u ∈ units, e.body ∈ u.bodies)
      (fun e he => nomatch he) (fun {elements units e units'} ih hadd => ?_) h
    rw [List.forall_mem_append, List.forall_mem_singleton]
    rcases add_eq_ok hadd with ⟨rfl, -⟩ | ⟨before, u, after, shape, rfl, -, hslot, hshape, -, rfl⟩
    · refine ⟨fun x hx => ?_, e.unit, List.mem_cons_self, mem_bodies.mpr ⟨sameSlot_iff.mpr ⟨rfl, rfl⟩, ?_⟩⟩
      · obtain ⟨u, hu, hbody⟩ := ih x hx
        exact ⟨u, List.mem_cons_of_mem _ hu, hbody⟩
      · rw [ClassElement.unit]
        cases e.kind <;> simp [UnitShape.kinds]
    · refine ⟨fun x hx => ?_, _, List.mem_append_right _ List.mem_cons_self,
        mem_bodies.mpr ⟨hslot, (mem_kinds_completed? hshape).mpr (.inr rfl)⟩⟩
      obtain ⟨y, hy, hbody⟩ := ih x hx
      rcases List.mem_append.mp hy with hy | hy
      · exact ⟨y, List.mem_append_left _ hy, hbody⟩
      · rcases List.mem_cons.mp hy with rfl | hy
        · obtain ⟨hsame, hkind⟩ := mem_bodies.mp hbody
          exact ⟨_, List.mem_append_right _ List.mem_cons_self,
            mem_bodies.mpr ⟨hsame, (mem_kinds_completed? hshape).mpr (.inl hkind)⟩⟩
        · exact ⟨y, List.mem_append_right _ (List.mem_cons_of_mem _ hy), hbody⟩
  intro e he
  obtain ⟨u, hu, hbody⟩ := hall e he
  exact ⟨u, List.mem_reverse.mp hu, hbody⟩

end ElementUnit

theorem ClassPair.side_injective {pair : ClassPair} (hdistinct : pair.constructor ≠ pair.prototype) :
    Function.Injective pair.side := by
  intro a b hab
  cases a with
  | false =>
    cases b with
    | false => rfl
    | true => exact absurd hab.symm hdistinct
  | true =>
    cases b with
    | false => exact absurd hab hdistinct
    | true => rfl

namespace Engine

section Units

variable {e : Engine σ} {pair : ClassPair} {u : ElementUnit} {units : List ElementUnit}
  {w w' : World σ} {kind : ElementKind} {form : ConstantForm} {v : Value} {name : String} {isStatic : Bool}

theorem fixes_of_makes {caller : Caller σ} {shape : UnitShape} {d : Descriptor} {h : Heap}
    {id : ObjectId} (hkind : kind ∈ shape.kinds) (hv : kind.constant? = some (form, v))
    (hmakes : shape.Makes caller env config w h d) (hown : h.own? id name = some d) :
    h.Fixes id name v form := by
  cases hmakes with
  | @method body f function =>
    obtain rfl := List.mem_singleton.mp hkind
    cases body <;> cases hv
    exact .method hown function
  | empty =>
    obtain rfl := List.mem_singleton.mp hkind
    cases hv
    exact .value hown
  | @initializer x a v' evaluated =>
    obtain rfl := List.mem_singleton.mp hkind
    cases x <;> cases hv
    obtain ⟨rfl, -⟩ := yields_pure.mp evaluated
    exact .value hown
  | accessor get _ =>
    rcases UnitShape.mem_kinds_accessor.mp hkind with ⟨body, rfl, rfl⟩ | ⟨body, rfl, rfl⟩
    · cases get with
      | some function =>
        cases body <;> cases hv
        exact .getter hown function
    · cases hv

theorem fixes_of_evaluateUnits (hs : e.store = .ordinary σ)
    (hdistinct : pair.constructor ≠ pair.prototype)
    (hlater : ∀ x ∈ units, e.Plain env x ∧ x.inSlot name isStatic = false)
    (hf : w.heap.Fixes (pair.side isStatic) name v form)
    (h : (e.evaluateUnits pair env units).Yields w () w') :
    w'.heap.Fixes (pair.side isStatic) name v form := by
  induction units generalizing w with
  | nil =>
    obtain ⟨-, rfl⟩ := yields_pure.mp h
    exact hf
  | cons x rest ih =>
    obtain ⟨⟨⟩, w₁, hx, hrest⟩ := yields_bind.mp h
    obtain ⟨⟨hplain, helsewhere⟩, hothers⟩ := List.forall_mem_cons.mp hlater
    obtain ⟨d, v₁, hgrows, hv₁, hkeeps, -, rfl⟩ := hplain.inserts hs hx
    have hsame : (v₁.insert (pair.side x.isStatic) x.name d).heap.own? (pair.side isStatic) name =
        w.heap.own? (pair.side isStatic) name := by
      refine hgrows.own?_insert hv₁ hf.lt_size fun hside hname => ?_
      have hstatic := ClassPair.side_injective hdistinct hside
      simp [ElementUnit.inSlot, hstatic, hname] at helsewhere
    exact ih hothers (hf.keeps hkeeps hsame) hrest

theorem gives_of_evaluateMembers {decl : ClassDecl} {element : ClassElement}
    (helement : element ∈ decl.elements) (hv : element.kind.constant? = some (form, v))
    (hspared : ∀ x ∈ decl.elements, ∀ y, x.kind = .field (some y) →
      (y.evaluate (Caller.nested host (depth + 1)) env).Spares)
    (h : ((hosted host depth config).evaluateMembers decl env).Yields w (pair, units) w') :
    ∃ earlier u later, units = earlier ++ u :: later ∧ element.body ∈ u.bodies ∧
      (u.decorators = [] →
        (∀ x ∈ later, x.decorators = [] ∧ x.inSlot element.name element.isStatic = false) →
        w'.Gives (Caller.nested host (depth + 1)) (pair.side element.isStatic) element.name v
          form) := by
  obtain ⟨w₀, hcreate, hunits, hall⟩ := yields_evaluateMembers.mp h
  obtain ⟨u, hu, hbody⟩ := ElementUnit.exists_unit_of_mem hunits element helement
  obtain ⟨earlier, later, rfl⟩ := List.append_of_mem hu
  refine ⟨earlier, u, later, rfl, hbody, fun hdecorators hlater => ?_⟩
  have hplain : ∀ x ∈ earlier ++ u :: later, x.decorators = [] →
      (hosted host depth config).Plain env x := by
    refine fun x hx hd => ⟨hd, fun y hy => ?_⟩
    obtain ⟨z, hz, hkind⟩ := ElementUnit.exists_field_of_ofElements hunits hx hy
    exact hspared z hz y hkind
  obtain ⟨v₁, -, hrest⟩ := yields_evaluateUnits_append.mp hall
  obtain ⟨⟨⟩, v₂, hturn, hothers⟩ := yields_bind.mp hrest
  obtain ⟨hslot, hkind⟩ := ElementUnit.mem_bodies.mp hbody
  obtain ⟨hname, hstatic⟩ := ElementUnit.sameSlot_iff.mp hslot
  obtain ⟨d, v₃, -, hv₃, -, hmakes, hw⟩ := (hplain u hu hdecorators).inserts rfl hturn
  have hown : v₂.heap.own? (pair.side element.isStatic) element.name = some d := by
    rw [hw, ← hname, ← hstatic]
    exact World.own?_insert_self hv₃
  have hf := fixes_of_makes hkind hv hmakes hown
  have hdistinct := (ClassPair.objects_of_create hcreate).1
  refine (fixes_of_evaluateUnits rfl hdistinct (fun x hx => ?_) hf hothers).gives
  exact ⟨hplain x (List.mem_append_right _ (List.mem_cons_of_mem _ hx)) (hlater x hx).1, (hlater x hx).2⟩

end Units
section Properties

variable {e : Engine σ} {target : Target} {p : LiteralProperty} {properties : List LiteralProperty}
  {w w' : World σ} {form : ConstantForm} {v : Value} {key : String}

theorem fixes_of_property {caller : Caller σ} {there : Option Value × Option Value}
    {kind : PropertyKind} {d : Descriptor} {h : Heap} {id : ObjectId}
    (hv : kind.constant? = some (form, v)) (hmakes : kind.Makes caller env w h there d)
    (hown : h.own? id key = some d) : h.Fixes id key v form := by
  cases hmakes with
  | @init x a v' evaluated =>
    cases x <;> cases hv
    obtain ⟨rfl, -⟩ := yields_pure.mp evaluated
    exact .value hown
  | @method body f function =>
    cases body <;> cases hv
    exact .method hown function
  | @getter body f function =>
    cases body <;> cases hv
    exact .getter hown function
  | setter _ => cases hv

theorem fixes_of_evaluateProperties (hs : e.store = .ordinary σ)
    (hlater : ∀ q ∈ properties, e.PlainProperty env q ∧
      (q.key = key → form = .getter ∧ ∃ body, q.kind = .setter body))
    (hf : w.heap.Fixes target.object key v form)
    (h : (e.evaluateProperties target env properties).Yields w () w') :
    w'.heap.Fixes target.object key v form := by
  induction properties generalizing w with
  | nil =>
    obtain ⟨-, rfl⟩ := yields_pure.mp h
    exact hf
  | cons q rest ih =>
    obtain ⟨⟨⟩, w₁, hq, hrest⟩ := yields_bind.mp h
    obtain ⟨⟨hplain, hkey⟩, hothers⟩ := List.forall_mem_cons.mp hlater
    obtain ⟨d, hmakes, hkeeps, -, -, hown, -⟩ := hplain.effect hs hf.lt_size hq
    refine ih hothers ?_ hrest
    by_cases heq : q.key = key
    · obtain ⟨rfl, body, hsetter⟩ := hkey heq
      subst heq
      have hnew := (hown q.key).trans (if_pos rfl)
      rw [hsetter] at hmakes
      cases hf with
      | getter own function =>
        cases hmakes with
        | setter _ =>
          rw [own] at hnew
          exact .getter hnew (hkeeps _ _ function)
    · exact hf.keeps hkeeps ((hown key).trans (if_neg (Ne.symm heq)))

theorem gives_of_evaluateLiteral {literal : ObjectLiteral} {earlier later : List LiteralProperty}
    {id : ObjectId} (hproperties : literal.properties = earlier ++ p :: later)
    (hv : p.kind.constant? = some (form, v)) (hdecorators : p.decorators = [])
    (hlater : ∀ q ∈ later, q.decorators = [] ∧
      (q.key = p.key → form = .getter ∧ ∃ body, q.kind = .setter body))
    (hspared : ∀ q ∈ literal.properties, ∀ x, q.kind = .init x →
      (x.evaluate (Caller.nested host (depth + 1)) env).Spares)
    (h : ((hosted host depth config).evaluateLiteral literal env).Yields w id w') :
    w'.Gives (Caller.nested host (depth + 1)) id p.key v form := by
  obtain ⟨w₀, -, hall⟩ := yields_evaluateLiteral.mp h
  rw [hproperties] at hspared hall
  obtain ⟨v₁, -, hrest⟩ := yields_evaluateProperties_append.mp hall
  obtain ⟨⟨⟩, v₂, hturn, hothers⟩ := yields_bind.mp hrest
  have hp : (hosted host depth config).PlainProperty env p :=
    ⟨hdecorators, hspared p (List.mem_append_right _ List.mem_cons_self)⟩
  obtain ⟨d, v₃, -, hv₃, -, hmakes, rfl⟩ := hp.inserts rfl hturn
  have hf := fixes_of_property hv hmakes (World.own?_insert_self hv₃)
  refine (fixes_of_evaluateProperties rfl (fun q hq => ⟨⟨(hlater q hq).1, ?_⟩, (hlater q hq).2⟩) hf
    hothers).gives
  exact hspared q (List.mem_append_right _ (List.mem_cons_of_mem _ hq))

end Properties
end Engine
end Decoration
