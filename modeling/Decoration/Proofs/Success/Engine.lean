import Decoration.Engine.Class
import Decoration.Proofs.Overlay
import Decoration.Proofs.Success

/-! When the parts of a class evaluation over the ordinary store yield a value. -/

namespace Decoration

open Decoration.Action

variable {σ ε α : Type}

theorem ObjectId.yields_define {id : ObjectId} {key : String} {d : Descriptor} {w w' : World σ} :
    (id.define key d : Action σ Fault Unit).Yields w () w' ↔
      (w.heap.object id).Accepts key d ∧ w.insert id key d = w' := by
  have hdefine : (id.define key d : Action σ Fault Unit).Yields w () w' ↔
      ∃ h, w.heap.define id key d = .ok h ∧ { w with heap := h } = w' := by
    refine yields_heap_bind.trans (yields_bind.trans ?_)
    constructor
    · rintro ⟨h, _, hok, hset⟩
      obtain ⟨hdefined, rfl⟩ := yields_ofExcept.mp hok
      exact ⟨h, hdefined, hset.2⟩
    · rintro ⟨h, hok, rfl⟩
      exact ⟨h, w, yields_ofExcept.mpr ⟨hok, rfl⟩, rfl, rfl⟩
  rw [hdefine]
  constructor
  · rintro ⟨h, hok, rfl⟩
    obtain ⟨haccepts, rfl⟩ := Heap.define_eq_ok.mp hok
    exact ⟨haccepts, rfl⟩
  · rintro ⟨haccepts, rfl⟩
    exact ⟨_, Heap.define_eq_ok.mpr ⟨haccepts, rfl⟩, rfl⟩

theorem ObjectId.define_total (id : ObjectId) (key : String) (d : Descriptor) (w : World σ) :
    (∃ w', (id.define key d : Action σ Fault Unit).Yields w () w') ∨
      ∃ fault, (id.define key d : Action σ Fault Unit) w = ⟨.failed fault, w, []⟩ := by
  change (∃ w', Yields (ofExcept (w.heap.define id key d) >>= setHeap) w () w') ∨
    ∃ fault, (ofExcept (w.heap.define id key d) >>= setHeap : Action σ Fault Unit) w =
      ⟨.failed fault, w, []⟩
  cases w.heap.define id key d with
  | ok h => exact .inl ⟨_, rfl, rfl⟩
  | error fault => exact .inr ⟨fault, rfl⟩

namespace Store

theorem yields_install {target : Target} {name : String} {d : Descriptor} {w w' : World σ} :
    ((Store.ordinary σ).install target name d).Yields w () w' ↔
      (w.heap.object target.object).Accepts name d ∧ w.insert target.object name d = w' := by
  refine yields_heap_bind.trans (yields_report_bind.trans (yields_emit_bind.trans ?_))
  exact yields_mapFault.trans ObjectId.yields_define

theorem yields_readBack {target : ObjectId} {name : String} {found : Option Descriptor}
    {w w' : World σ} :
    ((Store.ordinary σ).readBack target name : Action σ ε (Option Descriptor)).Yields w found w' ↔
      w.heap.own? target name = found ∧ w = w' :=
  and_congr_left' ⟨Outcome.ok.inj, congrArg _⟩

end Store

theorem Placement.yields_resolve_bind {p : Placement} {f : Target → Action σ ε α} {a : α}
    {w w' : World σ} : (p.resolve >>= f).Yields w a w' ↔ (f p.target).Yields w a w' := Iff.rfl

namespace Engine

variable {e : Engine σ} {pair : ClassPair} {env : Environment} {w w' : World σ}

theorem yields_evaluateUnit {u : ElementUnit} :
    (e.evaluateUnit pair env u).Yields w () w' ↔
      ∃ ds w₁ made w₂, (Decorator.collect e.caller env u.decorators).Yields w ds w₁ ∧
        (u.source e.caller env).Yields w₁ made w₂ ∧
        (if ds.isEmpty then
          e.store.install (Placement.classElement pair u.isStatic).target u.name
            (made.descriptor e.config)
        else
          e.decorateUnit (Placement.classElement pair u.isStatic).target u.name ds
            (made.descriptor e.config)).Yields w₂ () w' := by
  refine yields_report_bind.trans (Placement.yields_resolve_bind.trans ?_)
  constructor
  · intro h
    obtain ⟨ds, w₁, hcollect, h⟩ := yields_bind.mp h
    obtain ⟨made, w₂, hsource, h⟩ := yields_bind.mp h
    exact ⟨ds, w₁, made, w₂, hcollect, hsource, h⟩
  · rintro ⟨ds, w₁, made, w₂, hcollect, hsource, h⟩
    exact yields_bind.mpr ⟨ds, w₁, hcollect, yields_bind.mpr ⟨made, w₂, hsource, h⟩⟩

theorem yields_evaluateMembers {decl : ClassDecl}
    {members : ClassPair × List ElementUnit} :
    (e.evaluateMembers decl env).Yields w members w' ↔
      ∃ w₀, (ClassPair.create decl.name : Action σ DecorationFault ClassPair).Yields w members.1 w₀ ∧
        ElementUnit.ofElements decl.elements = .ok members.2 ∧
        (e.evaluateUnits members.1 env members.2).Yields w₀ () w' := by
  constructor
  · intro h
    obtain ⟨pair, w₀, hcreate, h⟩ := yields_bind.mp h
    obtain ⟨units, w₁, hunits, h⟩ := yields_bind.mp h
    obtain ⟨hplan, rfl⟩ := yields_ofExcept.mp hunits
    obtain ⟨⟨⟩, w₂, hunits, h⟩ := yields_bind.mp h
    obtain ⟨rfl, rfl⟩ := yields_pure.mp h
    exact ⟨w₀, hcreate, hplan, hunits⟩
  · rintro ⟨w₀, hcreate, hplan, hunits⟩
    exact yields_bind.mpr ⟨_, w₀, hcreate, yields_bind.mpr ⟨_, w₀, yields_ofExcept.mpr ⟨hplan, rfl⟩,
      yields_bind.mpr ⟨(), w', hunits, yields_pure.mpr ⟨rfl, rfl⟩⟩⟩⟩

theorem yields_evaluateClass {decl : ClassDecl} {id : ObjectId} :
    (e.evaluateClass decl env).Yields w id w' ↔
      ∃ members w₁ ds, (e.evaluateMembers decl env).Yields w members w₁ ∧
        (e.decorateClass members.1 env decl.decorators).Yields w₁ ds w' ∧
        members.1.constructor = id := by
  constructor
  · intro h
    obtain ⟨members, w₁, hmembers, h⟩ := yields_bind.mp (yields_report_bind.mp h)
    obtain ⟨ds, w₂, hclass, h⟩ := yields_bind.mp h
    have hreturn : (pure members.1.constructor : Action σ DecorationFault ObjectId).Yields w₂ id w' :=
      yields_report_bind.mp h
    obtain ⟨hid, rfl⟩ := yields_pure.mp hreturn
    exact ⟨members, w₁, ds, hmembers, hclass, hid⟩
  · rintro ⟨members, w₁, ds, hmembers, hclass, rfl⟩
    refine yields_report_bind.mpr (yields_bind.mpr ⟨members, w₁, hmembers, ?_⟩)
    exact yields_bind.mpr ⟨ds, w', hclass, yields_report_bind.mpr (yields_pure.mpr ⟨rfl, rfl⟩)⟩

end Engine
end Decoration
