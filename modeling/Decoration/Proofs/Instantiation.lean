import Decoration.Proofs.Evolution
import Decoration.Proofs.Success.Engine
import Decoration.Proofs.Trace.Class
import Decoration.Proofs.Undecorated.Pair

/-! A class can be instantiated from the moment it is evaluated. Whatever is written to its constructor,
the link to the prototype that its members were defined on is the one it began with. -/

namespace Decoration

open Decoration.Action

variable {σ ε α : Type}

namespace Heap

structure Links (h : Heap) (constructor prototype : ObjectId) : Prop where
  isClass : ∃ name, (h.object constructor).className? = some name
  link : h.own? constructor "prototype" = some (.data (.object prototype) false false false)

variable {h h' : Heap} {constructor prototype : ObjectId}

theorem Links.find? (hl : h.Links constructor prototype) :
    h.find? constructor "prototype" = some (.data (.object prototype) false false false) :=
  find?_of_own? hl.link

theorem Links.evolves (hl : h.Links constructor prototype) (he : h.Evolves h') :
    h'.Links constructor prototype := by
  have hobject := he.objects constructor (lt_size_of_own? hl.link)
  refine ⟨?_, ?_⟩
  · obtain ⟨name, hname⟩ := hl.isClass
    refine ⟨name, ?_⟩
    rw [Object.className?] at hname ⊢
    rwa [hobject.kind]
  · obtain ⟨d, hd, hconfigurable, henumerable, hvalue⟩ := hobject.settled "prototype" _ hl.link rfl
    rw [own?, hd]
    cases d with
    | accessor getter setter e c => exact hvalue.elim
    | data v w e c =>
      rcases hvalue with hw | ⟨rfl, hv⟩
      · cases hw
      · obtain rfl := of_decide_eq_true hv
        cases hconfigurable
        cases henumerable
        rfl

end Heap

theorem Action.Stepwise.evolves_history {x : Action σ ε α} (hx : x.Stepwise Heap.Step) {w : World σ}
    {h : Heap} (hh : h ∈ x.history w) : w.heap.Evolves h := by
  have hhistory := hx.pairwise_history Heap.Evolves.refl (fun _ _ _ => Heap.Evolves.trans)
    (fun _ _ => Heap.Step.evolves) w
  rw [history, List.cons_append, List.pairwise_cons] at hhistory
  rcases List.mem_cons.mp hh with rfl | hh
  · exact .refl _
  · exact hhistory.1 h hh

theorem Action.last_mem_history (x : Action σ ε α) (w : World σ) : (x w).world.heap ∈ x.history w :=
  List.mem_append_right _ (List.mem_singleton_self _)

theorem Action.Stepwise.evolves {x : Action σ ε α} (hx : x.Stepwise Heap.Step) (w : World σ) :
    w.heap.Evolves (x w).world.heap :=
  hx.evolves_history (x.last_mem_history w)

theorem ClassPair.links_of_yields {className : String} {pair : ClassPair} {w w' : World σ}
    (hcreate : (create className : Action σ ε ClassPair).Yields w pair w') :
    w'.heap.Links pair.constructor pair.prototype := by
  refine ⟨⟨className, ?_⟩, (underway_of_create hcreate).link⟩
  rw [(objects_of_create hcreate).2.1]
  rfl

theorem ObjectId.yields_instantiate {constructor prototype : ObjectId} {w : World σ}
    (hl : w.heap.Links constructor prototype) (caller : Caller σ) :
    (constructor.instantiate caller).Yields w ⟨w.heap.objects.size⟩
      { w with heap := (w.heap.addObject { prototype := some prototype }).2 } := by
  obtain ⟨name, hname⟩ := hl.isClass
  refine yields_heap_bind.mpr ?_
  rw [hname]
  refine yields_bind.mpr ⟨.object prototype, w, ?_, yields_onHeap.mpr ⟨rfl, rfl⟩⟩
  refine yields_heap_bind.mpr ?_
  rw [hl.find?]
  exact yields_pure.mpr ⟨rfl, rfl⟩

namespace Engine

variable {e : Engine σ} {decl : ClassDecl} {env : Environment} {w w' : World σ} {id : ObjectId}

theorem links_of_evaluateClass (hc : e.caller.Stepwise Heap.Step) (hs : e.store = .ordinary σ)
    (h : (e.evaluateClass decl env).Yields w id w') :
    ∃ pair w₀, (ClassPair.create decl.name : Action σ DecorationFault ClassPair).Yields w pair w₀ ∧
      pair.constructor = id ∧ w'.heap.Links pair.constructor pair.prototype := by
  obtain ⟨⟨pair, units⟩, w₁, ds, hmembers, hclass, rfl⟩ := yields_evaluateClass.mp h
  obtain ⟨w₀, hcreate, -, hunits⟩ := yields_evaluateMembers.mp hmembers
  refine ⟨pair, w₀, hcreate, rfl, ?_⟩
  have hlinks := ClassPair.links_of_yields hcreate
  have hfirst := (stepwise_evaluateUnits hc hs pair env units).evolves w₀
  have hlast := (stepwise_decorateClass hc pair env decl.decorators).evolves w₁
  rw [hunits.2] at hfirst
  rw [hclass.2] at hlast
  exact (hlinks.evolves hfirst).evolves hlast

theorem unitsTrace_of_evaluateClass {pair : ClassPair} {w₀ : World σ}
    (hcreate : (ClassPair.create decl.name : Action σ DecorationFault ClassPair).Yields w pair w₀)
    (h : (e.evaluateClass decl env).Yields w id w') :
    ∃ units t w₁, ElementUnit.ofElements decl.elements = .ok units ∧
      UnitsTrace e pair env units w₀ ⟨t, w₁, .ok ()⟩ ∧
      t <+: (e.evaluateClass decl env w).account.steps := by
  have hcreated : (ClassPair.create decl.name w : Run σ DecorationFault ClassPair) =
      ⟨.ok pair, w₀, []⟩ := by
    obtain ⟨rfl, rfl⟩ := yields_onHeap.mp hcreate
    rfl
  obtain ⟨a, trace⟩ := ClassTrace.total e decl env pair w₀
  have haccount := trace.account hcreated
  have hresult : a.result = .ok id := by
    rw [← haccount, Run.account, h.1]
    rfl
  rw [haccount]
  cases trace with
  | unplanned plan => cases hresult
  | stopped plan members => cases hresult
  | uncollected plan members collected => cases hresult
  | classLevel plan members collected chain =>
    refine ⟨_, _, _, plan, members, ?_⟩
    rw [List.append_assoc]
    exact List.prefix_append _ _

/-- Once a class is evaluated, every moment of whatever comes next lets it be instantiated, and the
prototype of the instance is the object that the members which are not static were decorated and
defined on. -/
theorem instantiate_of_evaluateClass (programs : Nat → Value → List Value → Program σ) (depth : Nat)
    (config : Config) (decl : ClassDecl) (env : Environment) (w w' : World σ) (id : ObjectId)
    (h : (evaluateClass ⟨Caller.nested (Host.ofPrograms programs) depth, .ordinary σ, config⟩ decl
      env).Yields w id w') :
    ∃ prototype,
      (∃ w₀ units t w₁,
        (ClassPair.create decl.name : Action σ DecorationFault ClassPair).Yields w
          ⟨id, prototype⟩ w₀ ∧
        ElementUnit.ofElements decl.elements = .ok units ∧
        SequenceTrace (fun u => UnitTrace
          ⟨Caller.nested (Host.ofPrograms programs) depth, .ordinary σ, config⟩
          (if u.isStatic then ⟨.constructor, id⟩ else ⟨.prototype, prototype⟩) env u) units w₀
          ⟨t, w₁, .ok ()⟩ ∧
        t <+: (evaluateClass ⟨Caller.nested (Host.ofPrograms programs) depth, .ordinary σ, config⟩
          decl env w).account.steps) ∧
      ∀ (programs' : Nat → Value → List Value → Program σ) (depth' : Nat) (p : Program σ),
        ∀ moment ∈ (p.run (Caller.nested (Host.ofPrograms programs') depth')).history w',
        ∀ (caller : Caller σ) (host : σ), ∃ fresh later,
          (id.instantiate caller).Yields ⟨moment, host⟩ fresh later ∧
          fresh.index = moment.objects.size ∧
          (later.heap.object fresh).prototype = some prototype := by
  have hcaller : ∀ (programs : Nat → Value → List Value → Program σ) (depth : Nat),
      Caller.Stepwise Heap.Step (Caller.nested (Host.ofPrograms programs) depth) :=
    fun programs => Caller.stepwise_nested (Host.stepwise_ofPrograms programs)
  obtain ⟨⟨constructor, prototype⟩, w₀, hcreate, rfl, hlinks⟩ :=
    links_of_evaluateClass (hcaller _ _) rfl h
  obtain ⟨units, t, w₁, hplan, htrace, hsteps⟩ := unitsTrace_of_evaluateClass hcreate h
  refine ⟨prototype, ⟨w₀, units, t, w₁, hcreate, hplan, htrace, hsteps⟩, ?_⟩
  intro programs' depth' p moment hmoment caller host
  have hlater : moment.Links constructor prototype :=
    hlinks.evolves ((p.stepwise_run (hcaller programs' depth')).evolves_history hmoment)
  refine ⟨_, _, ObjectId.yields_instantiate (w := ⟨moment, host⟩) hlater caller, rfl, ?_⟩
  rw [Heap.object_addObject]
  exact congrArg Object.prototype (if_pos rfl)

def meddling (_ : Nat) (_ : Value) (arguments : List Value) : Program Unit :=
  match arguments with
  | .object id :: _ =>
    .perform (.put id "prototype" .null) fun _ =>
      .perform (.define id "prototype" (.ordinary .null)) fun _ => .finish (.ok .undefined)
  | _ => .finish (.ok .undefined)

def meddledClass : ClassDecl where
  name := "Point"
  decorators := [⟨.identifier "meddle", []⟩]
  elements := [
    { name := "move", decorators := [⟨.identifier "meddle", []⟩],
      kind := .method (.constant "move" .null) },
    { name := "origin", isStatic := true, decorators := [⟨.identifier "meddle", []⟩],
      kind := .field none }]

def meddledScope : Environment := ⟨[[("meddle", .object ⟨0⟩)]]⟩

def meddledWorld : World Unit := ⟨{ objects := #[{ kind := .function (.native "meddle" 0) }] }, ()⟩

def meddledLater : Program Unit :=
  .perform (.put ⟨2⟩ "prototype" .null) fun _ =>
    .perform (.preventExtensions ⟨2⟩) fun _ => .finish (.ok .undefined)

theorem instantiate_of_evaluateClass_meddledClass :
    ∃ moment ∈ (meddledLater.run (Caller.nested (Host.ofPrograms meddling) 1)).history
        (evaluateClass ⟨Caller.nested (Host.ofPrograms meddling) 1, .ordinary Unit, {}⟩ meddledClass
          meddledScope meddledWorld).world,
      (moment.object ⟨2⟩).extensible = false ∧ ∃ fresh later,
        (ObjectId.instantiate (Caller.nested (Host.ofPrograms meddling) 1) ⟨2⟩).Yields ⟨moment, ()⟩
          fresh later ∧
        (later.heap.object fresh).prototype = some ⟨1⟩ := by
  obtain ⟨prototype, ⟨w₀, units, t, w₁, hcreate, -⟩, hlater⟩ :=
    instantiate_of_evaluateClass meddling 1 {} meddledClass meddledScope meddledWorld _ ⟨2⟩ ⟨rfl, rfl⟩
  obtain ⟨hpair, -⟩ := yields_onHeap.mp hcreate
  have hend := (meddledLater.run (Caller.nested (Host.ofPrograms meddling) 1)).last_mem_history
    (evaluateClass ⟨Caller.nested (Host.ofPrograms meddling) 1, .ordinary Unit, {}⟩ meddledClass
      meddledScope meddledWorld).world
  obtain ⟨fresh, later, hyields, -, hprototype⟩ := hlater meddling 1 meddledLater _ hend
    (Caller.nested (Host.ofPrograms meddling) 1) ()
  exact ⟨_, hend, rfl, fresh, later, hyields,
    hprototype.trans (congrArg (some ·.prototype) hpair).symm⟩

end Engine
end Decoration
