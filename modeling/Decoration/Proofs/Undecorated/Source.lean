import Decoration.Proofs.Growth

/-! The descriptor of a unit: what it is made from, and its attributes. -/

namespace Decoration

open Decoration.Action

variable {σ ε : Type}

/-- The descriptor that a unit makes, with the configured attributes: it holds function objects of the
heap `h` for bodies, and the value of an initializer that is evaluated in the world `v`. -/
inductive UnitShape.Makes (caller : Caller σ) (env : Environment) (config : Config) (v : World σ)
    (h : Heap) : UnitShape → Descriptor → Prop
  | method {body : Capability} {f : Value} (function : h.capability? f = some body) :
    Makes caller env config v h (.method body) (.data f config.elements.writable
      config.elements.enumerable config.elements.configurable)
  | empty : Makes caller env config v h (.field none) (.data .undefined config.elements.writable
      config.elements.enumerable config.elements.configurable)
  | initializer {x : Expr} {a : Value} {v' : World σ}
    (evaluated : (x.evaluate caller env).Yields v a v') :
    Makes caller env config v h (.field (some x)) (.data a config.elements.writable
      config.elements.enumerable config.elements.configurable)
  | accessor {getter setter : Option Capability} {f g : Option Value}
    (get : Option.Rel (fun f c => h.capability? f = some c) f getter)
    (set : Option.Rel (fun g c => h.capability? g = some c) g setter) :
    Makes caller env config v h (.accessor getter setter) (.accessor f g
      config.accessors.enumerable config.accessors.configurable)

theorem Heap.KeepsFunctions.rel {h h' : Heap} (hk : h.KeepsFunctions h') {f : Option Value}
    {c : Option Capability} (hf : Option.Rel (fun f c => h.capability? f = some c) f c) :
    Option.Rel (fun f c => h'.capability? f = some c) f c := by
  cases hf with
  | none => exact .none
  | some hf => exact .some (hk _ _ hf)

theorem UnitShape.Makes.mono {caller : Caller σ} {env : Environment} {config : Config} {v : World σ}
    {h h' : Heap} {shape : UnitShape} {d : Descriptor} (hk : h.KeepsFunctions h')
    (hm : shape.Makes caller env config v h d) : shape.Makes caller env config v h' d := by
  cases hm with
  | method function => exact .method (hk _ _ function)
  | empty => exact .empty
  | initializer evaluated => exact .initializer evaluated
  | accessor get set => exact .accessor (hk.rel get) (hk.rel set)

theorem Capability.yields_half {half : Option Capability} {f : Option ObjectId} {w w' : World σ}
    (h : (half.mapM Capability.function : Action σ ε (Option ObjectId)).Yields w f w') :
    Option.Rel (fun f c => w'.heap.capability? f = some c) (f.map .object) half := by
  cases half with
  | none =>
    obtain ⟨rfl, -⟩ := yields_pure.mp h
    exact .none
  | some c =>
    obtain ⟨f, hf, rfl⟩ := yields_map.mp h
    exact .some (Capability.capability?_of_yields hf)

theorem Capability.exists_yields_half (half : Option Capability) (w : World σ) :
    ∃ f w', (half.mapM Capability.function : Action σ ε (Option ObjectId)).Yields w f w' := by
  cases half with
  | none => exact ⟨none, w, yields_pure.mpr ⟨rfl, rfl⟩⟩
  | some c =>
    obtain ⟨f, w', hf⟩ := c.exists_yields_function w
    exact ⟨some f, w', yields_map.mpr ⟨f, hf, rfl⟩⟩

namespace ElementUnit

variable {caller : Caller σ} {env : Environment} {u : ElementUnit} {v w w' : World σ}

def Spares (caller : Caller σ) (env : Environment) (u : ElementUnit) : Prop :=
  ∀ x, u.shape = .field (some x) → (x.evaluate caller env).Spares

theorem Spares.source (hu : u.Spares caller env) : (u.source caller env).Spares := by
  unfold ElementUnit.source
  split
  · rename_i body _
    exact body.spares_function.bind fun f => .pure _
  · exact .pure _
  · rename_i x hshape
    exact ((hu x hshape).mapFault _).bind fun a => .pure _
  · exact (Action.Spares.mapM_option Capability.spares_function _).bind fun f =>
      (Action.Spares.mapM_option Capability.spares_function _).bind fun g => .pure _

theorem makes_of_source {made : UnitSource} (config : Config)
    (h : (u.source caller env).Yields v made w') :
    u.shape.Makes caller env config v w'.heap (made.descriptor config) := by
  unfold ElementUnit.source at h
  split at h <;> rename_i hshape <;> rw [hshape]
  · rename_i body
    obtain ⟨f, w₁, hf, h⟩ := yields_bind.mp h
    obtain ⟨rfl, rfl⟩ := yields_pure.mp h
    exact .method (Capability.capability?_of_yields hf)
  · obtain ⟨rfl, rfl⟩ := yields_pure.mp h
    exact .empty
  · obtain ⟨a, w₁, ha, h⟩ := yields_bind.mp h
    obtain ⟨rfl, rfl⟩ := yields_pure.mp h
    exact .initializer (yields_mapFault.mp ha)
  · rename_i getter setter
    obtain ⟨f, w₁, hf, h⟩ := yields_bind.mp h
    obtain ⟨g, w₂, hg, h⟩ := yields_bind.mp h
    obtain ⟨rfl, rfl⟩ := yields_pure.mp h
    have hgrows := (Action.Spares.mapM_option Capability.spares_function setter).yields hg
    exact .accessor (hgrows.keepsFunctions.rel (Capability.yields_half hf)) (Capability.yields_half hg)

theorem exists_source_iff : (∃ made w', (u.source caller env).Yields v made w') ↔
    ∀ x, u.shape = .field (some x) → ∃ a w', (x.evaluate caller env).Yields v a w' := by
  constructor
  · rintro ⟨made, w', h⟩ x hx
    have hm := makes_of_source {} h
    generalize made.descriptor {} = d at hm
    rw [hx] at hm
    cases hm with
    | initializer evaluated => exact ⟨_, _, evaluated⟩
  · intro h
    unfold ElementUnit.source
    split
    · rename_i body _
      obtain ⟨f, w', hf⟩ := body.exists_yields_function v
      exact ⟨_, w', yields_bind.mpr ⟨f, w', hf, yields_pure.mpr ⟨rfl, rfl⟩⟩⟩
    · exact ⟨_, v, yields_pure.mpr ⟨rfl, rfl⟩⟩
    · rename_i x hshape
      obtain ⟨a, w', ha⟩ := h x hshape
      exact ⟨_, w', yields_bind.mpr ⟨a, w', yields_mapFault.mpr ha, yields_pure.mpr ⟨rfl, rfl⟩⟩⟩
    · rename_i getter setter _
      obtain ⟨f, w₁, hf⟩ := Capability.exists_yields_half getter v
      obtain ⟨g, w₂, hg⟩ := Capability.exists_yields_half setter w₁
      exact ⟨_, w₂, yields_bind.mpr ⟨f, w₁, hf, yields_bind.mpr ⟨g, w₂, hg,
        yields_pure.mpr ⟨rfl, rfl⟩⟩⟩⟩

end ElementUnit

end Decoration
