import Decoration.Chain
import Decoration.Unit

/-! The engine: how capabilities respond, the store that finished descriptors go through, and the
configuration. -/

namespace Decoration

/-- The two operations on properties that the engine uses. A host may watch them or decide otherwise. -/
structure Store (σ : Type) where
  define : ObjectId → String → Descriptor → Action σ Fault Unit
  read : ObjectId → String → World σ → Option Descriptor × World σ

def Store.ordinary (σ : Type) : Store σ where
  define id key d := id.define key d
  read id key w := (w.heap.own? id key, w)

structure Engine (σ : Type) where
  caller : Caller σ
  store : Store σ
  config : Config := {}

variable {σ : Type}

def Store.install (store : Store σ) (target : Target) (name : String) (d : Descriptor) :
    Action σ DecorationFault Unit := do
  let h ← Action.heap
  Action.report (.installing (h.describe target.object) name d.shapeName d.enumerable
    d.configurable)
  Action.emit (.definition target.object name d)
  (store.define target.object name d).mapFault fun h =>
    .installRejected name (h.describe target.object)

def Store.readBack (store : Store σ) (target : ObjectId) (name : String) :
    Action σ ε (Option Descriptor) := do
  Action.emit (.readBack target name)
  Action.onWorld (store.read target name)

def Placement.resolve (p : Placement) : Action σ ε Target := do
  Action.report (.targetResolved p.targetKind)
  return p.target

end Decoration
