import Decoration.Chain
import Decoration.Proofs.Account

/-! The steps of evaluating a decorator list. The decorators come in their written order, and each has
its callee evaluated before its arguments. The first that cannot be evaluated is the last. -/

namespace Decoration

variable {σ ε α : Type}

/-- Items one after another with what they yield, up to the first that is stopped. -/
inductive ListTrace {ι : Type} (item : ι → World σ → Account σ ε α → Prop) :
    List ι → World σ → Account σ ε (List α) → Prop
  | done {w : World σ} : ListTrace item [] w ⟨[], w, .ok []⟩
  | stopped {i : ι} {rest : List ι} {w w' : World σ} {t : List Moment} {s : Option ε}
    (first : item i w ⟨t, w', .error s⟩) : ListTrace item (i :: rest) w ⟨t, w', .error s⟩
  | next {i : ι} {rest : List ι} {w w' : World σ} {t : List Moment} {v : α}
    {a : Account σ ε (List α)} (first : item i w ⟨t, w', .ok v⟩) (others : ListTrace item rest w' a) :
    ListTrace item (i :: rest) w ⟨t ++ a.steps, a.world, a.result.map (v :: ·)⟩

namespace ListTrace

variable {ι : Type} {item : ι → World σ → Account σ ε α → Prop}

theorem total (h : ∀ i w, ∃ a, item i w a) (list : List ι) (w : World σ) :
    ∃ a, ListTrace item list w a := by
  induction list generalizing w with
  | nil => exact ⟨_, .done⟩
  | cons i rest ih =>
    obtain ⟨⟨t, w', s | v⟩, first⟩ := h i w
    · exact ⟨_, .stopped first⟩
    · obtain ⟨a, others⟩ := ih w'
      exact ⟨_, .next first others⟩

theorem account {one : ι → Action σ ε α} (hone : ∀ i w a, item i w a → (one i w).account = a)
    {list : List ι} {w : World σ} {a : Account σ ε (List α)} (h : ListTrace item list w a) :
    (list.mapM one w).account = a := by
  induction h with
  | done => rw [List.mapM_nil, Action.account_pure]
  | stopped first => rw [List.mapM_cons, Action.account_bind, hone _ _ _ first, Account.andThen_error]
  | @next _ _ _ _ t v a first _ ih =>
    rw [List.mapM_cons, Action.account_bind, hone _ _ _ first, Account.andThen_ok,
      Action.account_bind, ih]
    rcases a with ⟨t', w'', s | values⟩
    · rfl
    · simp [Except.map]

theorem length_eq {list : List ι} {w w' : World σ} {t : List Moment} {values : List α}
    (h : ListTrace item list w ⟨t, w', .ok values⟩) : values.length = list.length := by
  generalize ha : (⟨t, w', .ok values⟩ : Account σ ε (List α)) = a at h
  induction h generalizing t w' values with
  | done =>
    cases ha
    rfl
  | stopped => cases ha
  | @next _ _ _ _ _ _ a _ _ ih =>
    rcases a with ⟨t', w'', s | others⟩
    · cases ha
    · cases ha
      exact congrArg (· + 1) (ih rfl)

end ListTrace

inductive DecoratorTrace (caller : Caller σ) (env : Environment) (x : DecoratorExpr) (w : World σ) :
    Account σ DecorationFault Decorator → Prop
  | unevaluated {t : List Moment} {w' : World σ} {s : Option Fault}
    (callee : (x.callee.evaluate caller env w).account = ⟨t, w', .error s⟩) :
    DecoratorTrace caller env x w ⟨t, w', .error (s.map (.evaluation x.label))⟩
  | notConstructor {t : List Moment} {w' : World σ} {v : Value}
    (callee : (x.callee.evaluate caller env w).account = ⟨t, w', .ok v⟩)
    (plain : w'.heap.capability? v = none) :
    DecoratorTrace caller env x w
      ⟨t, w', .error (some (.evaluation x.label (.type (.notConstructor x.callee.text))))⟩
  | unargued {t t' : List Moment} {w' w'' : World σ} {v : Value} {c : Capability} {s : Option Fault}
    (callee : (x.callee.evaluate caller env w).account = ⟨t, w', .ok v⟩)
    (function : w'.heap.capability? v = some c)
    (arguments : ListTrace (fun y w a => (y.evaluate caller env w).account = a) x.arguments w'
      ⟨t', w'', .error s⟩) :
    DecoratorTrace caller env x w ⟨t ++ t', w'', .error (s.map (.evaluation x.label))⟩
  | collected {t t' : List Moment} {w' w'' : World σ} {v : Value} {c : Capability}
    {extra : List Value} (callee : (x.callee.evaluate caller env w).account = ⟨t, w', .ok v⟩)
    (function : w'.heap.capability? v = some c)
    (arguments : ListTrace (fun y w a => (y.evaluate caller env w).account = a) x.arguments w'
      ⟨t', w'', .ok extra⟩) :
    DecoratorTrace caller env x w ⟨t ++ t', w'', .ok ⟨x.label, c, extra⟩⟩

def CollectionTrace (caller : Caller σ) (env : Environment) :
    List DecoratorExpr → World σ → Account σ DecorationFault (List Decorator) → Prop :=
  ListTrace (DecoratorTrace caller env)

theorem DecoratorTrace.total (caller : Caller σ) (env : Environment) (x : DecoratorExpr)
    (w : World σ) : ∃ a, DecoratorTrace caller env x w a := by
  rcases callee : (x.callee.evaluate caller env w).account with ⟨t, w', s | v⟩
  · exact ⟨_, .unevaluated callee⟩
  cases function : w'.heap.capability? v with
  | none => exact ⟨_, .notConstructor callee function⟩
  | some c =>
    have htotal : ∃ a, ListTrace (fun y w a => (Expr.evaluate caller env y w).account = a)
        x.arguments w' a := ListTrace.total (fun _ _ => ⟨_, rfl⟩) x.arguments w'
    obtain ⟨⟨t', w'', s | extra⟩, arguments⟩ := htotal
    · exact ⟨_, .unargued callee function arguments⟩
    · exact ⟨_, .collected callee function arguments⟩

theorem DecoratorTrace.account {caller : Caller σ} {env : Environment} {x : DecoratorExpr}
    {w : World σ} {a : Account σ DecorationFault Decorator} (h : DecoratorTrace caller env x w a) :
    (Decorator.collectOne caller env x w).account = a := by
  unfold Decorator.collectOne
  cases h with
  | unevaluated callee => simp [Action.account_bind, Action.account_mapFault, callee]
  | notConstructor callee plain =>
    simp [Action.account_bind, Action.account_mapFault, callee, plain]
  | unargued callee function arguments =>
    have harguments := arguments.account fun _ _ _ h => h
    simp [Action.account_bind, Action.account_mapFault, callee, function, harguments]
  | collected callee function arguments =>
    have harguments := arguments.account fun _ _ _ h => h
    simp [Action.account_bind, Action.account_mapFault, callee, function, harguments]

theorem CollectionTrace.total (caller : Caller σ) (env : Environment) (list : List DecoratorExpr)
    (w : World σ) : ∃ a, CollectionTrace caller env list w a :=
  ListTrace.total (DecoratorTrace.total caller env) list w

theorem CollectionTrace.account {caller : Caller σ} {env : Environment} {list : List DecoratorExpr}
    {w : World σ} {a : Account σ DecorationFault (List Decorator)}
    (h : CollectionTrace caller env list w a) : (Decorator.collect caller env list w).account = a :=
  ListTrace.account (fun _ _ _ one => one.account) h

theorem CollectionTrace.ne_nil {caller : Caller σ} {env : Environment} {list : List DecoratorExpr}
    {w w' : World σ} {t : List Moment} {ds : List Decorator} (written : list ≠ [])
    (h : CollectionTrace caller env list w ⟨t, w', .ok ds⟩) : ds ≠ [] := by
  have hlength : ds.length = list.length := ListTrace.length_eq h
  rintro rfl
  exact written (List.length_eq_zero_iff.mp hlength.symm)

end Decoration
