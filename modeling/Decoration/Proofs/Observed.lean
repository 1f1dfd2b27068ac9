import Decoration.Engine.Literal
import Decoration.Proofs.Stepwise.Engine
import Decoration.Proofs.Stepwise.Library
import Decoration.Proofs.Written

/-! What observers are told of decorators. A chain is observed from the bottom up, each decorator once
and right before its construction; up to the first failure these are the decorators as they are
written. -/

namespace Decoration

open Decoration.Action

variable {σ ε ε' α β : Type}

def Invocation.written (i : Invocation) : Written :=
  ⟨i.decorator.label, i.name, i.target.kind, i.discipline, i.position⟩

namespace Moment

def observed? (m : Moment) : Option Invocation :=
  match m.event with
  | .invocation record => some record
  | _ => none

def constructed? (m : Moment) : Option Decorator :=
  match m.event with
  | .construction d _ => some d
  | _ => none

end Moment

def observed (events : List Moment) : List Invocation := events.filterMap Moment.observed?

def constructed (events : List Moment) : List Decorator := events.filterMap Moment.constructed?

theorem observed_append (a b : List Moment) : observed (a ++ b) = observed a ++ observed b :=
  List.filterMap_append

theorem constructed_append (a b : List Moment) :
    constructed (a ++ b) = constructed a ++ constructed b :=
  List.filterMap_append

def onlyReports (_ : World σ) (events : List Moment) (_ : World σ) : Prop :=
  ∀ m ∈ events, ∃ r, m.event = .report r

instance : StepTrail (onlyReports : World σ → List Moment → World σ → Prop) where
  still _ := by simp [onlyReports]
  append h h' := List.forall_mem_append.mpr ⟨h, h'⟩
  report _ r := by simp [onlyReports]
  change _ := by simp [onlyReports]

theorem observed_of_onlyReports {w w' : World σ} {events : List Moment}
    (h : onlyReports w events w') : observed events = [] := by
  refine List.filterMap_eq_nil_iff.mpr fun m hm => ?_
  obtain ⟨r, hr⟩ := h m hm
  rw [Moment.observed?, hr]

theorem constructed_of_onlyReports {w w' : World σ} {events : List Moment}
    (h : onlyReports w events w') : constructed events = [] := by
  refine List.filterMap_eq_nil_iff.mpr fun m hm => ?_
  obtain ⟨r, hr⟩ := h m hm
  rw [Moment.constructed?, hr]

/-- Constructions are observed as they come, the observed decorators are the first of those written, and
if a value comes out they are all of them and it is as told. -/
structure Run.Records (r : Run σ ε α) (written : List Written) (post : α → Prop) : Prop where
  faithful : (observed r.events).map (·.decorator) = constructed r.events
  short : (observed r.events).map Invocation.written <+: written
  done : ∀ a, r.outcome = .ok a → (observed r.events).map Invocation.written = written ∧ post a

namespace Action

def Records (x : Action σ ε α) (written : List Written) (post : α → Prop) : Prop :=
  ∀ w, (x w).Records written post

namespace Records

variable {x : Action σ ε α} {written written' : List Written} {P : α → Prop} {Q : β → Prop}

protected theorem pure {a : α} (ha : P a) : (pure a : Action σ ε α).Records [] P :=
  fun _ => ⟨rfl, List.prefix_rfl, fun _ hb => ⟨rfl, Outcome.ok.inj hb ▸ ha⟩⟩

protected theorem fail (e : ε) : (fail e : Action σ ε α).Records written P :=
  fun _ => ⟨rfl, List.nil_prefix, fun _ ha => nomatch ha⟩

protected theorem bind {f : α → Action σ ε β} (hx : x.Records written P)
    (hf : ∀ a, P a → (f a).Records written' Q) : (x >>= f).Records (written ++ written') Q := by
  intro w
  have h := hx w
  change (Action.bind x f w).Records (written ++ written') Q
  unfold Action.bind
  generalize x w = r at h ⊢
  rcases r with ⟨a | e | _, w', events⟩
  case ok =>
    obtain ⟨hwritten, ha⟩ := h.done a rfl
    have h' := hf a ha w'
    refine ⟨?_, ?_, fun b hb => ?_⟩
    · simp only [observed_append, constructed_append, List.map_append, h.faithful, h'.faithful]
    · simp only [observed_append, List.map_append, hwritten]
      exact (List.prefix_append_right_inj _).mpr h'.short
    · simp only [observed_append, List.map_append, hwritten]
      exact ⟨congrArg _ (h'.done b hb).1, (h'.done b hb).2⟩
  case failed => exact ⟨h.faithful, h.short.trans (List.prefix_append _ _), fun _ hb => nomatch hb⟩
  case exhausted => exact ⟨h.faithful, h.short.trans (List.prefix_append _ _), fun _ hb => nomatch hb⟩

theorem before {f : α → Action σ ε β} (hx : x.Records [] P)
    (hf : ∀ a, P a → (f a).Records written Q) : (x >>= f).Records written Q := hx.bind hf

theorem andThen {f : α → Action σ ε β} (hx : x.Records written P)
    (hf : ∀ a, P a → (f a).Records [] Q) : (x >>= f).Records written Q := by
  have h := hx.bind hf
  rwa [List.append_nil] at h

protected theorem mapFault (f : Heap → ε → ε') (hx : x.Records written P) :
    (x.mapFault f).Records written P := by
  intro w
  have h := hx w
  unfold mapFault
  generalize x w = r at h ⊢
  rcases r with ⟨a | e | _, w', events⟩
  case ok =>
    refine ⟨h.faithful, h.short, fun b hb => ?_⟩
    exact h.done b (congrArg Outcome.ok (Outcome.ok.inj hb))
  case failed => exact ⟨h.faithful, h.short, fun _ ha => nomatch ha⟩
  case exhausted => exact ⟨h.faithful, h.short, fun _ ha => nomatch ha⟩

theorem ofReports (hx : x.Follows onlyReports) : x.Records [] fun _ => True := by
  intro w
  have hobserved := observed_of_onlyReports (hx w)
  have hconstructed := constructed_of_onlyReports (hx w)
  refine ⟨?_, ?_, fun _ _ => ⟨?_, trivial⟩⟩
  · rw [hobserved, hconstructed]
    rfl
  · rw [hobserved]
    exact List.prefix_rfl
  · rw [hobserved]
    rfl

protected theorem report (r : Report) : (report r : Action σ ε Unit).Records [] fun _ => True :=
  ofReports (Follows.report r)

protected theorem heap : (heap : Action σ ε Heap).Records [] fun _ => True := ofReports Follows.heap

protected theorem onHeap (f : Heap → α × Heap) : (onHeap f : Action σ ε α).Records [] fun _ => True :=
  fun _ => ⟨rfl, List.prefix_rfl, fun _ _ => ⟨rfl, trivial⟩⟩

protected theorem definition (target : ObjectId) (key : String) (d : Descriptor) :
    (emit (.definition target key d) : Action σ ε Unit).Records [] fun _ => True :=
  fun _ => ⟨rfl, List.prefix_rfl, fun _ _ => ⟨rfl, trivial⟩⟩

end Records
end Action

variable {caller : Caller σ} {env : Environment}

namespace Decorator

end Decorator

namespace Chain

end Chain

namespace Store

end Store

namespace Engine

variable {e : Engine σ}

end Engine
end Decoration
