import Decoration.Action

/-! What holds of runs from one world through some events to another, and goes on from run to run. -/

namespace Decoration

variable {σ ε ε' α β : Type}

/-- A relation between the world where a run starts, what happens in it and the world where it ends.
It holds where nothing happens, and runs after each other can be put together. -/
class Trail (R : World σ → List Moment → World σ → Prop) : Prop where
  still : ∀ w, R w [] w
  append : ∀ {w w' w'' t t'}, R w t w' → R w' t' w'' → R w (t ++ t') w''

def Run.Follows (R : World σ → List Moment → World σ → Prop) (w : World σ) (r : Run σ ε α) : Prop :=
  R w r.events r.world

def Action.Follows (R : World σ → List Moment → World σ → Prop) (x : Action σ ε α) : Prop :=
  ∀ w, (x w).Follows R w

def Caller.Follows (R : World σ → List Moment → World σ → Prop) (caller : Caller σ) : Prop :=
  ∀ capability request arguments, (caller capability request arguments).Follows R

theorem Run.Follows.still {R : World σ → List Moment → World σ → Prop} [Trail R]
    {outcome : Outcome ε α} {w : World σ} : Follows R w ⟨outcome, w, []⟩ := Trail.still w

theorem Run.Follows.heap_bind {R : World σ → List Moment → World σ → Prop} {f : Heap → Action σ ε α}
    {w : World σ} (h : (f w.heap w).Follows R w) : Follows R w ((Action.heap >>= f) w) := h

namespace Action.Follows

variable {R : World σ → List Moment → World σ → Prop} [Trail R]

protected theorem pure (a : α) : Follows R (pure a : Action σ ε α) := fun _ => .still

protected theorem fail (e : ε) : Follows R (fail e : Action σ ε α) := fun _ => .still

protected theorem exhausted : Follows R (exhausted : Action σ ε α) := fun _ => .still

protected theorem heap : Follows R (heap : Action σ ε Heap) := fun _ => .still

protected theorem ofExcept (x : Except ε α) : Follows R (ofExcept x : Action σ ε α) := by
  cases x with
  | ok a => exact Follows.pure a
  | error e => exact Follows.fail e

protected theorem bind {x : Action σ ε α} {f : α → Action σ ε β} (hx : Follows R x)
    (hf : ∀ a, Follows R (f a)) : Follows R (x >>= f) := by
  intro w
  have h := hx w
  change (Action.bind x f w).Follows R w
  unfold Action.bind
  generalize x w = r at h ⊢
  rcases r with ⟨a | e | _, w', events⟩
  case ok => exact Trail.append h (hf a w')
  case failed => exact h
  case exhausted => exact h

protected theorem map (f : α → β) {x : Action σ ε α} (hx : Follows R x) : Follows R (f <$> x) := by
  rw [map_eq_pure_bind]
  exact hx.bind fun a => Follows.pure (f a)

omit [Trail R] in
protected theorem mapFault (f : Heap → ε → ε') {x : Action σ ε α} (hx : Follows R x) :
    Follows R (x.mapFault f) := by
  intro w
  have h := hx w
  unfold mapFault
  generalize x w = r at h ⊢
  rcases r with ⟨a | e | _, w', events⟩ <;> exact h

theorem checked {p : Prop} [Decidable p] {e : ε} {rest : Unit → Action σ ε α}
    (h : ∀ u, Follows R (rest u)) : Follows R (if p then fail e >>= rest else rest ()) := by
  split
  · exact (Follows.fail e).bind h
  · exact h ()

protected theorem mapM {f : α → Action σ ε β} (hf : ∀ a, Follows R (f a)) (list : List α) :
    Follows R (list.mapM f) := by
  induction list with
  | nil => exact Follows.pure []
  | cons a rest ih =>
    rw [List.mapM_cons]
    exact (hf a).bind fun b => ih.bind fun bs => Follows.pure (b :: bs)

theorem mapM_option {f : α → Action σ ε β} (hf : ∀ a, Follows R (f a)) (o : Option α) :
    Follows R (o.mapM f) := by
  cases o with
  | none => exact Follows.pure none
  | some a => exact (hf a).map some

end Action.Follows
end Decoration
