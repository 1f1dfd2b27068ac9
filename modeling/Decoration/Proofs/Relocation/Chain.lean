import Decoration.Chain
import Decoration.Proofs.Relocation.Library

/-! Evaluating and running decorators from a heap and from one that mirrors it. They are decorators of
the library with literals as arguments, so what they evaluate to is the same in both. -/

namespace Decoration

open Decoration.Action

variable {σ ε : Type} {t : Relocation} {w w' : World σ} {env env' : Environment}

inductive DecorationFault.Alike : DecorationFault → DecorationFault → Prop
  | same (fault : DecorationFault) : Alike fault fault
  | invocation (decorator : String) {site site' : String} (source : Fault)
    (sites : SameButNumbers site site') :
    Alike (.invocation decorator site source) (.invocation decorator site' source)
  | installRejected (name : String) {target target' : String} (source : Fault)
    (targets : SameButNumbers target target') :
    Alike (.installRejected name target source) (.installRejected name target' source)

/-! Expressions. -/

def Expr.head? : Expr → Option String
  | literal _ => none
  | identifier name => some name
  | member object _ => object.head?

/-- A name that stands for the same in both environments: for a decorator of the library, or for
nothing. -/
structure Environment.Shares (env env' : Environment) (name : String) : Prop where
  same : env'.lookup? name = env.lookup? name
  portable : ∀ v, env.lookup? name = some v → v.Portable

theorem Relocation.Mirrors.own?_library {h h' : Heap} (m : t.Mirrors h h') {id : ObjectId}
    (hid : id.index < libraryCount) (key : String) : h.own? id key = none := by
  obtain ⟨c, hc⟩ : ∃ c, (libraryDecorators ⟨0⟩)[id.index]? = some c :=
    ⟨_, List.getElem?_eq_getElem hid⟩
  rw [Heap.own?, m.library id.index c hc]
  rfl

theorem Value.Portable.primitive {v : Value} (hv : v.Portable) (hobject : v.object? = none) :
    v.Primitive := by
  cases v with
  | object id => exact nomatch hobject
  | descriptor => exact hv
  | _ => trivial

namespace Expr

theorem alike_evaluate (caller : Caller σ) (m : t.Mirrors w.heap w'.heap) {x : Expr}
    (hx : ∀ name, x.head? = some name → env.Shares env' name) :
    Run.Alike t Eq (fun _ v v' => v' = v ∧ v.Portable) w.heap (x.evaluate caller env w)
      (x.evaluate caller env' w') := by
  induction x with
  | literal l => exact .pure m ⟨rfl, l.primitive_value.portable⟩
  | identifier name =>
    obtain ⟨same, portable⟩ := hx name rfl
    rw [evaluate, evaluate, same]
    cases hv : env.lookup? name with
    | none => exact .fail m rfl
    | some v => exact .pure m ⟨rfl, portable v hv⟩
  | member object property ih =>
    refine (ih hx).bind fun {_ v u u'} m' _ hv => ?_
    obtain ⟨rfl, hportable⟩ := hv
    cases v with
    | object id =>
      refine .heap_bind ?_
      obtain ⟨hfind, hfind'⟩ := m'.find? id property
      rw [Relocation.object_of_lt hportable] at hfind'
      rw [hfind, hfind', m'.own?_library hportable]
      exact .pure m' ⟨rfl, trivial⟩
    | descriptor => exact hportable.elim
    | undefined | null | bool | number | string =>
      refine .heap_bind ?_
      rw [(hportable.primitive rfl).display_eq u.heap u'.heap]
      exact .fail m' rfl

theorem mapM_evaluate_literal (caller : Caller σ) (env : Environment) (list : List Literal) :
    (list.map literal).mapM (·.evaluate caller env) =
      (pure (list.map Literal.value) : Action σ Fault (List Value)) := by
  induction list with
  | nil => rfl
  | cons l rest ih =>
    rw [List.map_cons, List.mapM_cons, ih]
    rfl

end Expr

/-! Decorators. -/

structure DecoratorExpr.Shared (env env' : Environment) (d : DecoratorExpr) : Prop where
  head : ∀ name, d.callee.head? = some name → env.Shares env' name
  literals : ∃ list : List Literal, d.arguments = list.map Expr.literal

theorem Relocation.Mirrors.capability?_portable {h h' : Heap} (m : t.Mirrors h h') {v : Value}
    (hv : v.Portable) :
    h'.capability? v = h.capability? v ∧ ∀ c, h.capability? v = some c → c ∈ libraryDecorators ⟨0⟩ := by
  have hmoved := m.capability? v
  rw [Relocation.value_of_portable hv] at hmoved
  cases v with
  | object id =>
    have hat : (libraryDecorators ⟨0⟩)[id.index]? = some (libraryDecorators ⟨0⟩)[id.index] :=
      List.getElem?_eq_getElem hv
    have hc : h.capability? (.object id) = some (libraryDecorators ⟨0⟩)[id.index] := by
      rw [Heap.capability?, m.library id.index _ hat]
      rfl
    have hmem := List.getElem_mem (l := libraryDecorators ⟨0⟩) hv
    refine ⟨?_, fun c h => ?_⟩
    · rw [hmoved, hc, Option.map_some, Relocation.capability_of_library hmem]
    · rw [hc] at h
      rwa [← Option.some.inj h]
  | _ =>
    refine ⟨rfl, fun c h => ?_⟩
    cases h

namespace Decorator

structure OfLibrary (d : Decorator) : Prop where
  capability : d.capability ∈ libraryDecorators ⟨0⟩
  extra : ∀ v ∈ d.extra, v.Primitive

theorem OfLibrary.map_extra {d : Decorator} (hd : d.OfLibrary) (t : Relocation) :
    d.extra.map t.value = d.extra := by
  have hsame : ∀ v ∈ d.extra, t.value v = v :=
    fun v hv => Relocation.value_of_portable (hd.extra v hv).portable
  rw [List.map_congr_left hsame, List.map_id']

theorem alike_collectOne (caller : Caller σ) (m : t.Mirrors w.heap w'.heap) {d : DecoratorExpr}
    (hd : d.Shared env env') :
    Run.Alike t DecorationFault.Alike (fun _ x x' => x' = x ∧ x.OfLibrary) w.heap
      (collectOne caller env d w) (collectOne caller env' d w') := by
  obtain ⟨head, literals, hliterals⟩ := hd
  refine Run.Alike.bind ((d.callee.alike_evaluate caller m head).mapFault
    fun _ _ _ _ _ h => ?_) fun {_ v u u'} m' _ hv => ?_
  · rw [h]
    exact .same _
  · obtain ⟨rfl, hportable⟩ := hv
    obtain ⟨hsame, hlibrary⟩ := m'.capability?_portable hportable
    refine .heap_bind ?_
    rw [hsame]
    cases hc : u.heap.capability? v with
    | none => exact .fail m' (.same _)
    | some c =>
      simp only [hliterals, Expr.mapM_evaluate_literal]
      refine ⟨.ok ⟨rfl, hlibrary c hc, fun x hx => ?_⟩, m', .refl _⟩
      obtain ⟨l, -, rfl⟩ := List.mem_map.mp hx
      exact l.primitive_value

theorem alike_collect (caller : Caller σ) (m : t.Mirrors w.heap w'.heap) {list : List DecoratorExpr}
    (hlist : ∀ d ∈ list, d.Shared env env') :
    Run.Alike t DecorationFault.Alike (fun _ ds ds' => ds' = ds ∧ ∀ d ∈ ds, d.OfLibrary) w.heap
      (collect caller env list w) (collect caller env' list w') := by
  unfold collect
  induction list generalizing w w' with
  | nil => exact .pure m ⟨rfl, fun _ h => nomatch h⟩
  | cons d rest ih =>
    obtain ⟨hd, hrest⟩ := List.forall_mem_cons.mp hlist
    rw [List.mapM_cons, List.mapM_cons]
    refine (alike_collectOne caller m hd).bind fun {_ x _ _} m' _ hx => ?_
    refine (ih m' hrest).bind fun {_ xs _ _} m'' _ hxs => ?_
    obtain ⟨rfl, hx⟩ := hx
    obtain ⟨rfl, hxs⟩ := hxs
    exact .pure m'' ⟨rfl, List.forall_mem_cons.mpr ⟨hx, hxs⟩⟩

end Decorator

/-! Chains. -/

def Relocation.target (t : Relocation) (target : Target) : Target :=
  { target with object := t.object target.object }

variable {target : Target}

namespace Decorator

theorem alike_construct (m : t.Mirrors w.heap w'.heap) (depth : Nat) {d : Decorator}
    (hd : d.OfLibrary) (htarget : libraryCount ≤ target.object.index) (name : Option String)
    (rest : List Value) (hrest : ∀ v ∈ rest, v.object? = none) :
    Run.Alike t DecorationFault.Alike t.Carries w.heap
      (d.construct (Caller.nested Host.none depth) target name (target.value :: rest) w)
      (d.construct (Caller.nested Host.none depth) (t.target target) name
        (t.value target.value :: rest.map t.value) w') := by
  refine .emit_bind ?_
  have hedited : ∀ v, (rest ++ d.extra)[1]? = some v → v.object? = none := by
    intro v hv
    rcases List.mem_append.mp (List.mem_of_getElem? hv) with h | h
    · exact hrest v h
    · have hprimitive := hd.extra v h
      cases v <;> first | exact hprimitive.elim | rfl
  have hrun := Capability.alike_construct hd.capability m depth htarget hedited
  rw [List.map_append, hd.map_extra] at hrun
  refine hrun.mapFault fun g g' fault fault' m' h => ?_
  subst h
  refine .invocation d.label fault ?_
  cases name with
  | none => exact m'.describe target.object
  | some name => exact .append (.append (m'.describe target.object) (.same ".")) (.same name)

end Decorator

namespace Chain

variable {list : List (Decorator × Nat)}

theorem alike_member (m : t.Mirrors w.heap w'.heap) (depth : Nat)
    (htarget : libraryCount ≤ target.object.index) (name : String) (handle : Handle)
    (hlist : ∀ x ∈ list, x.1.OfLibrary) :
    Run.Alike t DecorationFault.Alike anyway w.heap
      (member (Caller.nested Host.none depth) target name handle list w)
      (member (Caller.nested Host.none depth) (t.target target) name (t.handle handle) list w') := by
  induction list generalizing w w' with
  | nil => exact .pure m trivial
  | cons x rest ih =>
    obtain ⟨hx, hrest⟩ := List.forall_mem_cons.mp hlist
    refine .heap_bind (.emit_bind (.emit_bind ?_))
    refine (Decorator.alike_construct m depth hx htarget (some name)
      [.string name, .descriptor handle] (by simp [Value.object?])).bind fun m' _ _ => ?_
    exact ih m' hrest

theorem alike_classLevel (m : t.Mirrors w.heap w'.heap) (depth : Nat)
    (htarget : libraryCount ≤ target.object.index) (hlist : ∀ x ∈ list, x.1.OfLibrary) :
    Run.Alike t DecorationFault.Alike anyway w.heap
      (classLevel (Caller.nested Host.none depth) target list w)
      (classLevel (Caller.nested Host.none depth) (t.target target) list w') := by
  induction list generalizing w w' with
  | nil => exact .pure m trivial
  | cons x rest ih =>
    obtain ⟨hx, hrest⟩ := List.forall_mem_cons.mp hlist
    refine .emit_bind (.emit_bind ?_)
    refine (Decorator.alike_construct m depth hx htarget none [] (by simp)).bind
      fun m' _ _ => ?_
    exact ih m' hrest

theorem alike_fallback (m : t.Mirrors w.heap w'.heap) (depth : Nat)
    (htarget : libraryCount ≤ target.object.index) (name : String) {running : Value}
    (hrunning : running.object? = none) (hlist : ∀ x ∈ list, x.1.OfLibrary) :
    Run.Alike t DecorationFault.Alike t.Carries w.heap
      (fallback (Caller.nested Host.none depth) target name running list w)
      (fallback (Caller.nested Host.none depth) (t.target target) name (t.value running) list w') := by
  induction list generalizing w w' running with
  | nil => exact .pure m ⟨rfl, hrunning⟩
  | cons x rest ih =>
    obtain ⟨hx, hrest⟩ := List.forall_mem_cons.mp hlist
    have hplain : ∀ v ∈ [Value.string name, running], v.object? = none := by
      simp only [List.forall_mem_cons]
      exact ⟨rfl, hrunning, fun _ h => nomatch h⟩
    refine .emit_bind (.emit_bind ?_)
    refine (Decorator.alike_construct m depth hx htarget (some name) _ hplain).bind
      fun {result _ _ _} m' _ h => ?_
    obtain ⟨rfl, hresult⟩ := h
    rw [Relocation.isTruthy_value]
    cases result.isTruthy with
    | true => exact ih m' hresult hrest
    | false => exact ih m' hrunning hrest

end Chain

theorem mem_bottomUp {list : List Decorator} {P : Decorator → Prop} (hlist : ∀ d ∈ list, P d) :
    ∀ x ∈ bottomUp list, P x.1 := by
  intro x hx
  have hmem : x.1 ∈ list := (List.mem_zipIdx' (List.mem_reverse.mp hx)).2 ▸ List.getElem_mem _
  exact hlist x.1 hmem

end Decoration
