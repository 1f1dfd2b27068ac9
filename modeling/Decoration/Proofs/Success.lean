import Decoration.Proofs.Account

/-! Runs that end with a value. -/

namespace Decoration.Action

variable {σ ε ε' α β : Type}

def Yields (x : Action σ ε α) (w : World σ) (a : α) (w' : World σ) : Prop :=
  (x w).outcome = .ok a ∧ (x w).world = w'

@[simp] theorem yields_pure {a b : α} {w w' : World σ} :
    (pure a : Action σ ε α).Yields w b w' ↔ a = b ∧ w = w' :=
  and_congr_left' ⟨Outcome.ok.inj, congrArg _⟩

@[simp] theorem yields_fail {e : ε} {a : α} {w w' : World σ} :
    (fail e : Action σ ε α).Yields w a w' ↔ False :=
  ⟨fun h => (nomatch h.1), False.elim⟩

@[simp] theorem yields_emit {event : Event} {w w' : World σ} :
    (emit event : Action σ ε Unit).Yields w () w' ↔ w = w' :=
  ⟨And.right, fun h => ⟨rfl, h⟩⟩

@[simp] theorem yields_onHeap {f : Heap → α × Heap} {a : α} {w w' : World σ} :
    (onHeap f : Action σ ε α).Yields w a w' ↔
      (f w.heap).1 = a ∧ { w with heap := (f w.heap).2 } = w' :=
  and_congr_left' ⟨Outcome.ok.inj, congrArg _⟩

@[simp] theorem yields_ofExcept {x : Except ε α} {a : α} {w w' : World σ} :
    (ofExcept x : Action σ ε α).Yields w a w' ↔ x = .ok a ∧ w = w' := by
  cases x with
  | ok b => exact yields_pure.trans (and_congr_left' ⟨congrArg _, Except.ok.inj⟩)
  | error e => exact ⟨fun h => (nomatch h.1), fun h => (nomatch h.1)⟩

theorem yields_bind {x : Action σ ε α} {f : α → Action σ ε β} {b : β} {w w'' : World σ} :
    (x >>= f).Yields w b w'' ↔ ∃ a w', x.Yields w a w' ∧ (f a).Yields w' b w'' := by
  change (Action.bind x f).Yields w b w'' ↔ _
  unfold Yields Action.bind
  generalize x w = r
  rcases r with ⟨a | e | _, w', events⟩
  case ok =>
    constructor
    · exact fun h => ⟨a, w', ⟨rfl, rfl⟩, h⟩
    · rintro ⟨_, _, ⟨⟨⟩, ⟨⟩⟩, h⟩
      exact h
  case failed =>
    exact ⟨fun h => (nomatch h.1), fun ⟨_, _, h, _⟩ => (nomatch h.1)⟩
  case exhausted =>
    exact ⟨fun h => (nomatch h.1), fun ⟨_, _, h, _⟩ => (nomatch h.1)⟩

theorem yields_map {f : α → β} {x : Action σ ε α} {b : β} {w w' : World σ} :
    (f <$> x).Yields w b w' ↔ ∃ a, x.Yields w a w' ∧ f a = b := by
  rw [map_eq_pure_bind, yields_bind]
  constructor
  · rintro ⟨a, w₁, ha, h⟩
    obtain ⟨rfl, rfl⟩ := yields_pure.mp h
    exact ⟨a, ha, rfl⟩
  · rintro ⟨a, ha, rfl⟩
    exact ⟨a, w', ha, yields_pure.mpr ⟨rfl, rfl⟩⟩

theorem yields_heap_bind {f : Heap → Action σ ε α} {a : α} {w w' : World σ} :
    (heap >>= f).Yields w a w' ↔ (f w.heap).Yields w a w' := Iff.rfl

theorem yields_emit_bind {event : Event} {f : Unit → Action σ ε α} {a : α} {w w' : World σ} :
    (emit event >>= f).Yields w a w' ↔ (f ()).Yields w a w' := Iff.rfl

theorem yields_report_bind {r : Report} {f : Unit → Action σ ε α} {a : α} {w w' : World σ} :
    (report r >>= f).Yields w a w' ↔ (f ()).Yields w a w' := Iff.rfl

@[simp] theorem yields_mapFault {f : Heap → ε → ε'} {x : Action σ ε α} {a : α} {w w' : World σ} :
    (x.mapFault f).Yields w a w' ↔ x.Yields w a w' := by
  unfold Yields mapFault
  generalize x w = r
  rcases r with ⟨a | e | _, w', events⟩
  case ok => simp
  case failed => simp
  case exhausted => simp

end Decoration.Action
