import Decoration.Engine
import Decoration.Proofs.Trace.Collection

/-! The steps of a decorator chain. From the bottom up, each decorator is observed and then
constructed, and the first one that does not answer is the last. The steps that a capability takes on
its own account stand between its construction and the next decorator, and those of a store after its
definition. -/

namespace Decoration

variable {σ : Type}

inductive ChainForm where
  | member (target : Target) (name : String) (handle : Handle)
  | classLevel (target : Target)
  | fallback (target : Target) (name : String)

def latestTruthy (results : List Value) : Value := (results.find? Value.isTruthy).getD .undefined

theorem latestTruthy_cons (result : Value) (results : List Value) :
    latestTruthy (result :: results) =
      if result.isTruthy then result else latestTruthy results := by
  by_cases h : result.isTruthy
  · rw [if_pos h, latestTruthy, List.find?_cons_of_pos h, Option.getD_some]
  · rw [if_neg h, latestTruthy, List.find?_cons_of_neg h, latestTruthy]

theorem Value.isUndefined_of_isTruthy {v : Value} (h : v.isTruthy) : v.isUndefined = false := by
  cases v with
  | undefined => cases h
  | _ => rfl

theorem isUndefined_latestTruthy (results : List Value) :
    (latestTruthy results).isUndefined = !results.any Value.isTruthy := by
  induction results with
  | nil => rfl
  | cons result results ih =>
    rw [latestTruthy_cons, List.any_cons]
    by_cases h : result.isTruthy
    · rw [if_pos h, Value.isUndefined_of_isTruthy h, h, Bool.true_or, Bool.not_true]
    · rw [if_neg h, ih, Bool.of_not_eq_true h, Bool.false_or]

namespace ChainForm

def target : ChainForm → Target
  | member target .. | classLevel target | fallback target _ => target

def name? : ChainForm → Option String
  | member _ name _ | fallback _ name => some name
  | classLevel _ => none

def arguments (results : List Value) : ChainForm → List Value
  | member target name handle => [target.value, .string name, .descriptor handle]
  | classLevel target => [target.value]
  | fallback target name => [target.value, .string name, latestTruthy results]

def record (h : Heap) (results : List Value) (d : Decorator) (position : Nat) :
    ChainForm → Invocation
  | member target name handle =>
    { decorator := d, target, name := some name, descriptor := some (h.content handle),
      accumulator := none, discipline := .mutation, position }
  | classLevel target =>
    { decorator := d, target, name := none, descriptor := none, accumulator := none,
      discipline := .mutation, position }
  | fallback target name =>
    { decorator := d, target, name := some name, descriptor := none,
      accumulator := some (latestTruthy results), discipline := .fallback, position }

def opening (form : ChainForm) (h : Heap) (results : List Value) (d : Decorator) (position : Nat) :
    List Moment :=
  [⟨h, .invocation (form.record h results d position)⟩,
    ⟨h, .construction d (form.arguments results ++ d.extra)⟩]

end ChainForm

/-- The account of a chain over the decorators that are left, after the results so far. -/
inductive ChainTrace (caller : Caller σ) (form : ChainForm) : List (Decorator × Nat) →
    List Value → World σ → Account σ DecorationFault (List Value) → Prop
  | done {results : List Value} {w : World σ} :
    ChainTrace caller form [] results w ⟨[], w, .ok results⟩
  | stopped {d : Decorator} {position : Nat} {rest : List (Decorator × Nat)}
    {results : List Value} {w w' : World σ} {t : List Moment} {s : Option Fault}
    (response : (caller d.capability .construct (form.arguments results ++ d.extra) w).account =
      ⟨t, w', .error s⟩) :
    ChainTrace caller form ((d, position) :: rest) results w
      ⟨form.opening w.heap results d position ++ t, w',
        .error (s.map (.invocation d.label (Decorator.site w'.heap form.target form.name?)))⟩
  | answered {d : Decorator} {position : Nat} {rest : List (Decorator × Nat)}
    {results : List Value} {result : Value} {w w' : World σ} {t : List Moment}
    {a : Account σ DecorationFault (List Value)}
    (response : (caller d.capability .construct (form.arguments results ++ d.extra) w).account =
      ⟨t, w', .ok result⟩)
    (others : ChainTrace caller form rest (result :: results) w' a) :
    ChainTrace caller form ((d, position) :: rest) results w
      ⟨form.opening w.heap results d position ++ t ++ a.steps, a.world, a.result⟩

theorem ChainTrace.total (caller : Caller σ) (form : ChainForm) (list : List (Decorator × Nat))
    (results : List Value) (w : World σ) : ∃ a, ChainTrace caller form list results w a := by
  induction list generalizing results w with
  | nil => exact ⟨_, .done⟩
  | cons entry rest ih =>
    obtain ⟨d, position⟩ := entry
    rcases response : (caller d.capability .construct (form.arguments results ++ d.extra) w).account
      with ⟨t, w', s | result⟩
    · exact ⟨_, .stopped response⟩
    · obtain ⟨a, others⟩ := ih (result :: results) w'
      exact ⟨_, .answered response others⟩

section

variable {caller : Caller σ} {d : Decorator} {arguments : List Value} {w w' : World σ}
  {t : List Moment}

theorem account_construct_error {s : Option Fault}
    (h : (caller d.capability .construct (arguments ++ d.extra) w).account = ⟨t, w', .error s⟩)
    (target : Target) (name : Option String) :
    (d.construct caller target name arguments w).account =
      ⟨⟨w.heap, .construction d (arguments ++ d.extra)⟩ :: t, w',
        .error (s.map (.invocation d.label (Decorator.site w'.heap target name)))⟩ := by
  unfold Decorator.construct
  simp [Action.account_bind, Action.account_mapFault, h]

theorem account_construct_ok {result : Value}
    (h : (caller d.capability .construct (arguments ++ d.extra) w).account = ⟨t, w', .ok result⟩)
    (target : Target) (name : Option String) :
    (d.construct caller target name arguments w).account =
      ⟨⟨w.heap, .construction d (arguments ++ d.extra)⟩ :: t, w', .ok result⟩ := by
  unfold Decorator.construct
  simp [Action.account_bind, Action.account_mapFault, h]

end

namespace ChainTrace

variable {caller : Caller σ} {target : Target} {name : String} {list : List (Decorator × Nat)}
  {results : List Value} {w : World σ} {a : Account σ DecorationFault (List Value)}

theorem account_member {handle : Handle}
    (h : ChainTrace caller (.member target name handle) list results w a) :
    (Chain.member caller target name handle list w).account = a.map fun _ => () := by
  induction h with
  | done => rfl
  | stopped response =>
    have hc := account_construct_error response target (some name)
    simp only [ChainForm.arguments] at hc
    simp only [Chain.member, Action.account_bind, hc, Action.account_heap, Action.account_emit,
      Action.account_report, Account.andThen_ok, Account.andThen_error]
    rfl
  | answered response others ih =>
    have hc := account_construct_ok response target (some name)
    simp only [ChainForm.arguments] at hc
    simp only [Chain.member, Action.account_bind, hc, ih, Action.account_heap, Action.account_emit,
      Action.account_report, Account.andThen_ok]
    rfl

theorem account_classLevel (h : ChainTrace caller (.classLevel target) list results w a) :
    (Chain.classLevel caller target list w).account = a.map fun _ => () := by
  induction h with
  | done => rfl
  | stopped response =>
    have hc := account_construct_error response target none
    simp only [ChainForm.arguments] at hc
    simp only [Chain.classLevel, Action.account_bind, hc, Action.account_emit,
      Action.account_report, Account.andThen_ok, Account.andThen_error]
    rfl
  | answered response others ih =>
    have hc := account_construct_ok response target none
    simp only [ChainForm.arguments] at hc
    simp only [Chain.classLevel, Action.account_bind, hc, ih, Action.account_emit,
      Action.account_report, Account.andThen_ok]
    rfl

theorem account_fallback (h : ChainTrace caller (.fallback target name) list results w a) :
    (Chain.fallback caller target name (latestTruthy results) list w).account =
      a.map latestTruthy := by
  induction h with
  | done => rfl
  | stopped response =>
    have hc := account_construct_error response target (some name)
    simp only [ChainForm.arguments] at hc
    simp only [Chain.fallback, Action.account_bind, hc, Action.account_emit,
      Action.account_report, Account.andThen_ok, Account.andThen_error]
    rfl
  | answered response others ih =>
    have hc := account_construct_ok response target (some name)
    simp only [ChainForm.arguments] at hc
    rw [latestTruthy_cons] at ih
    simp only [Chain.fallback, Action.account_bind, hc, ih, Action.account_emit,
      Action.account_report, Account.andThen_ok]
    rfl

/-! The chains of a decorator list start with its last decorator and end with its first. -/

variable {ds : List Decorator}

theorem account_applyMemberChain {handle : Handle}
    (h : ChainTrace caller (.member target name handle) ds.zipIdx.reverse [] w a) :
    (applyMemberChain caller ds target name handle w).account = a.map fun _ => () := by
  rw [applyMemberChain, bottomUp_eq]
  exact h.account_member

theorem account_applyClassChain (h : ChainTrace caller (.classLevel target) ds.zipIdx.reverse [] w a) :
    (applyClassChain caller ds target w).account = a.map fun _ => () := by
  rw [applyClassChain, bottomUp_eq]
  exact h.account_classLevel

theorem account_applyFallbackChain
    (h : ChainTrace caller (.fallback target name) ds.zipIdx.reverse [] w a) :
    (applyFallbackChain caller ds target name w).account = a.map latestTruthy := by
  rw [applyFallbackChain, bottomUp_eq]
  exact h.account_fallback

end ChainTrace

/-! The steps that go through a store. -/

def Store.defining (store : Store σ) (target : Target) (name : String) (d : Descriptor)
    (w : World σ) : Account σ DecorationFault Unit :=
  let a := (store.define target.object name d w).account
  ⟨⟨w.heap, .definition target.object name d⟩ :: a.steps, a.world,
    a.result.mapError (Option.map (.installRejected name (a.world.heap.describe target.object)))⟩

theorem Store.account_install (store : Store σ) (target : Target) (name : String) (d : Descriptor)
    (w : World σ) : (store.install target name d w).account = store.defining target name d w := by
  simp [Store.install, Store.defining, Action.account_bind, Action.account_mapFault, Account.blame]

theorem Store.account_readBack (store : Store σ) (target : ObjectId) (name : String) (w : World σ) :
    ((store.readBack target name : Action σ DecorationFault (Option Descriptor)) w).account =
      ⟨[⟨w.heap, .readBack target name⟩], (store.read target name w).2,
        .ok (store.read target name w).1⟩ := by
  simp only [Store.readBack, Action.account_bind, Action.account_emit, Account.andThen_ok]
  rfl

end Decoration
