import Decoration.Action

/-! What can be told of a run from outside: the steps that it took, the world in which it ended, and
its result. Reports and remarks are no steps. -/

namespace Decoration

variable {σ ε ε' α β : Type}

/-- Observer records, constructions, definitions and read-backs are the steps of an evaluation. -/
@[simp] def Event.isStep : Event → Bool
  | .invocation _ | .construction .. | .definition .. | .readBack .. => true
  | .report _ | .remark .. => false

/-- A value, or what stopped the action: a fault, or none if calls were nested too deep. -/
def Outcome.result : Outcome ε α → Except (Option ε) α
  | .ok a => .ok a
  | .failed e => .error (some e)
  | .exhausted => .error none

structure Account (σ ε α : Type) where
  steps : List Moment
  world : World σ
  result : Except (Option ε) α

def Run.account (r : Run σ ε α) : Account σ ε α :=
  ⟨r.events.filter (·.event.isStep), r.world, r.outcome.result⟩

namespace Account

def andThen (a : Account σ ε α) (f : α → World σ → Account σ ε β) : Account σ ε β :=
  match a.result with
  | .ok v => ⟨a.steps ++ (f v a.world).steps, (f v a.world).world, (f v a.world).result⟩
  | .error s => ⟨a.steps, a.world, .error s⟩

def map (f : α → β) (a : Account σ ε α) : Account σ ε β := ⟨a.steps, a.world, a.result.map f⟩

def blame (f : Heap → ε → ε') (a : Account σ ε α) : Account σ ε' α :=
  ⟨a.steps, a.world, a.result.mapError (Option.map (f a.world.heap))⟩

@[simp] theorem andThen_ok (t : List Moment) (w : World σ) (v : α)
    (f : α → World σ → Account σ ε β) :
    (⟨t, w, .ok v⟩ : Account σ ε α).andThen f =
      ⟨t ++ (f v w).steps, (f v w).world, (f v w).result⟩ := rfl

@[simp] theorem andThen_error (t : List Moment) (w : World σ) (s : Option ε)
    (f : α → World σ → Account σ ε β) :
    (⟨t, w, .error s⟩ : Account σ ε α).andThen f = ⟨t, w, .error s⟩ := rfl

@[simp] theorem map_ok (f : α → β) (t : List Moment) (w : World σ) (v : α) :
    (⟨t, w, .ok v⟩ : Account σ ε α).map f = ⟨t, w, .ok (f v)⟩ := rfl

@[simp] theorem map_error (f : α → β) (t : List Moment) (w : World σ) (s : Option ε) :
    (⟨t, w, .error s⟩ : Account σ ε α).map f = ⟨t, w, .error s⟩ := rfl

theorem map_eq_ok {f : α → β} {a : Account σ ε α} {t : List Moment} {w : World σ} {b : β}
    (h : a.map f = ⟨t, w, .ok b⟩) : ∃ v, a = ⟨t, w, .ok v⟩ ∧ f v = b := by
  obtain ⟨t', w', s | v⟩ := a
  · cases h
  · cases h
    exact ⟨v, rfl, rfl⟩

theorem map_eq_error {f : α → β} {a : Account σ ε α} {t : List Moment} {w : World σ} {s : Option ε}
    (h : a.map f = ⟨t, w, .error s⟩) : a = ⟨t, w, .error s⟩ := by
  obtain ⟨t', w', s' | v⟩ := a
  · cases h
    rfl
  · cases h

@[simp] theorem blame_ok (f : Heap → ε → ε') (t : List Moment) (w : World σ) (v : α) :
    (⟨t, w, .ok v⟩ : Account σ ε α).blame f = ⟨t, w, .ok v⟩ := rfl

@[simp] theorem blame_error (f : Heap → ε → ε') (t : List Moment) (w : World σ) (s : Option ε) :
    (⟨t, w, .error s⟩ : Account σ ε α).blame f = ⟨t, w, .error (s.map (f w.heap))⟩ := rfl

end Account

namespace Action

theorem account_bind (x : Action σ ε α) (f : α → Action σ ε β) (w : World σ) :
    ((x >>= f) w).account = (x w).account.andThen fun a w' => (f a w').account := by
  change (Action.bind x f w).account = _
  unfold Action.bind
  rcases x w with ⟨outcome, w', events⟩
  cases outcome with
  | ok a => simp only [Run.account, Outcome.result, Account.andThen_ok, List.filter_append]
  | failed e => rfl
  | exhausted => rfl

@[simp] theorem account_map (f : α → β) (x : Action σ ε α) (w : World σ) :
    ((f <$> x) w).account = (x w).account.map f := by
  rw [map_eq_pure_bind, account_bind]
  rcases (x w).account with ⟨t, w', s | v⟩
  · rfl
  · exact congrArg (Account.mk · w' (.ok (f v))) (List.append_nil t)

theorem account_mapFault (f : Heap → ε → ε') (x : Action σ ε α) (w : World σ) :
    ((x.mapFault f) w).account = (x w).account.blame f := by
  unfold mapFault
  rcases x w with ⟨outcome, w', events⟩
  cases outcome <;> rfl

@[simp] theorem account_pure (a : α) (w : World σ) :
    ((pure a : Action σ ε α) w).account = ⟨[], w, .ok a⟩ := rfl

@[simp] theorem account_fail (e : ε) (w : World σ) :
    ((fail e : Action σ ε α) w).account = ⟨[], w, .error (some e)⟩ := rfl

@[simp] theorem account_heap (w : World σ) :
    ((heap : Action σ ε Heap) w).account = ⟨[], w, .ok w.heap⟩ := rfl

@[simp] theorem account_report (r : Report) (w : World σ) :
    ((report r : Action σ ε Unit) w).account = ⟨[], w, .ok ()⟩ := rfl

@[simp] theorem account_onHeap (f : Heap → α × Heap) (w : World σ) :
    ((onHeap f : Action σ ε α) w).account = ⟨[], { w with heap := (f w.heap).2 }, .ok (f w.heap).1⟩ :=
  rfl

@[simp] theorem account_emit (event : Event) (w : World σ) :
    ((emit event : Action σ ε Unit) w).account =
      ⟨if event.isStep then [⟨w.heap, event⟩] else [], w, .ok ()⟩ := by
  cases event <;> rfl

end Action

inductive SequenceTrace {ι : Type} (item : ι → World σ → Account σ ε Unit → Prop) :
    List ι → World σ → Account σ ε Unit → Prop
  | done {w : World σ} : SequenceTrace item [] w ⟨[], w, .ok ()⟩
  | stopped {i : ι} {rest : List ι} {w w' : World σ} {t : List Moment} {s : Option ε}
    (first : item i w ⟨t, w', .error s⟩) : SequenceTrace item (i :: rest) w ⟨t, w', .error s⟩
  | next {i : ι} {rest : List ι} {w w' : World σ} {t : List Moment} {a : Account σ ε Unit}
    (first : item i w ⟨t, w', .ok ()⟩) (others : SequenceTrace item rest w' a) :
    SequenceTrace item (i :: rest) w ⟨t ++ a.steps, a.world, a.result⟩

namespace SequenceTrace

variable {ι : Type} {item : ι → World σ → Account σ ε Unit → Prop}

theorem total (h : ∀ i w, ∃ a, item i w a) (list : List ι) (w : World σ) :
    ∃ a, SequenceTrace item list w a := by
  induction list generalizing w with
  | nil => exact ⟨_, .done⟩
  | cons i rest ih =>
    obtain ⟨⟨t, w', s | ⟨⟩⟩, first⟩ := h i w
    · exact ⟨_, .stopped first⟩
    · obtain ⟨a, others⟩ := ih w'
      exact ⟨_, .next first others⟩

theorem account {one : ι → Action σ ε Unit} {all : List ι → Action σ ε Unit}
    (hone : ∀ i w a, item i w a → (one i w).account = a) (hnil : all [] = pure ())
    (hcons : ∀ i rest, all (i :: rest) = one i >>= fun _ => all rest) {list : List ι} {w : World σ}
    {a : Account σ ε Unit} (h : SequenceTrace item list w a) : (all list w).account = a := by
  induction h with
  | done => rw [hnil, Action.account_pure]
  | stopped first => rw [hcons, Action.account_bind, hone _ _ _ first, Account.andThen_error]
  | next first _ ih => rw [hcons, Action.account_bind, hone _ _ _ first, Account.andThen_ok, ih]

end SequenceTrace
end Decoration
