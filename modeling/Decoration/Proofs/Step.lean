import Decoration.Proofs.Trail

/-! The changes that the object model makes to a heap, one at a time, and the actions that are made of
such changes. -/

namespace Decoration

variable {σ ε ε' α β : Type}

namespace Heap

/-- One change. A write to a property in place needs it to be writable; everything else that happens to
objects is a definition, a new object, or the end of extensions. -/
inductive Step : Heap → Heap → Prop
  | defined {h h' : Heap} {id : ObjectId} {key : String} {d : Descriptor}
    (accepted : h.define id key d = .ok h') : Step h h'
  | written {h : Heap} {id : ObjectId} {key : String} {v v' : Value} {e c : Bool}
    (found : h.own? id key = some (.data v true e c)) :
    Step h (h.setObject id ((h.object id).insert key (.data v' true e c)))
  | sealed {h : Heap} {id : ObjectId} : Step h (h.preventExtensions id)
  | created {h : Heap} {o : Object} (empty : o.properties = {}) : Step h (h.addObject o).2
  | beside {h h' : Heap} (same : h'.objects = h.objects) : Step h h'

/-- A relation that holds along every step, and perhaps along other changes. -/
class Coarse (S : Heap → Heap → Prop) : Prop where
  of_step : ∀ {h h' : Heap}, Step h h' → S h h'

instance : Coarse Step := ⟨id⟩

/-- From a heap to another along the relation, with the given heaps seen on the way, in order. -/
inductive Progress (S : Heap → Heap → Prop) : Heap → List Heap → Heap → Prop
  | done {h : Heap} : Progress S h [] h
  | seen {h h' : Heap} {moments : List Heap} (rest : Progress S h moments h') :
    Progress S h (h :: moments) h'
  | step {h h' h'' : Heap} {moments : List Heap} (first : S h h')
    (rest : Progress S h' moments h'') : Progress S h moments h''

variable {S : Heap → Heap → Prop}

theorem Step.progress [Coarse S] {h h' : Heap} (s : Step h h') : Progress S h [] h' :=
  .step (Coarse.of_step s) .done

theorem Progress.append {h h' h'' : Heap} {moments moments' : List Heap}
    (p : Progress S h moments h') (q : Progress S h' moments' h'') :
    Progress S h (moments ++ moments') h'' := by
  induction p with
  | done => exact q
  | seen _ ih => exact .seen (ih q)
  | step first _ ih => exact .step first (ih q)

theorem Progress.pairwise {R : Heap → Heap → Prop} (refl : ∀ h, R h h)
    (trans : ∀ h h' h'', R h h' → R h' h'' → R h h'') (along : ∀ h h', S h h' → R h h')
    {h h' : Heap} {moments : List Heap} (p : Progress S h moments h') :
    (h :: moments ++ [h']).Pairwise R := by
  induction p with
  | done => simp [refl]
  | @seen h h' moments _ ih =>
    obtain ⟨hfirst, -⟩ := List.pairwise_cons.mp ih
    refine List.pairwise_cons.mpr ⟨fun x hx => ?_, ih⟩
    rcases List.mem_cons.mp hx with rfl | hx
    · exact refl _
    · exact hfirst x hx
  | @step h h' h'' moments first _ ih =>
    obtain ⟨hfirst, hrest⟩ := List.pairwise_cons.mp ih
    refine List.pairwise_cons.mpr ⟨fun x hx => ?_, hrest⟩
    exact trans h h' x (along h h' first) (hfirst x hx)

end Heap

variable {S : Heap → Heap → Prop}

def Heap.along (S : Heap → Heap → Prop) (w : World σ) (events : List Moment) (w' : World σ) : Prop :=
  Heap.Progress S w.heap (events.map (·.heap)) w'.heap

instance : Trail (Heap.along S : World σ → List Moment → World σ → Prop) where
  still _ := .done
  append h h' := by
    rw [Heap.along, List.map_append]
    exact Heap.Progress.append h h'

class StepTrail (R : World σ → List Moment → World σ → Prop) : Prop extends Trail R where
  report : ∀ w r, R w [⟨w.heap, .report r⟩] w
  change : ∀ {w h}, Heap.Step w.heap h → R w [] { w with heap := h }

instance [Heap.Coarse S] : StepTrail (Heap.along S : World σ → List Moment → World σ → Prop) where
  report _ _ := .seen .done
  change s := s.progress

theorem Run.Follows.change {R : World σ → List Moment → World σ → Prop} [StepTrail R]
    {outcome : Outcome ε α} {w : World σ} {h : Heap} (s : Heap.Step w.heap h) :
    Follows R w ⟨outcome, { w with heap := h }, []⟩ := StepTrail.change s

namespace Action.Follows

variable {R : World σ → List Moment → World σ → Prop} [StepTrail R]

protected theorem report (r : Report) : Follows R (report r : Action σ ε Unit) :=
  fun w => StepTrail.report w r

protected theorem onHeap {f : Heap → α × Heap} (h : ∀ heap, Heap.Step heap (f heap).2) :
    Follows R (onHeap f : Action σ ε α) := fun w => StepTrail.change (h w.heap)

theorem onHeap_beside {f : Heap → α × Heap} (h : ∀ heap, (f heap).2.objects = heap.objects) :
    Follows R (onHeap f : Action σ ε α) := Follows.onHeap fun heap => .beside (h heap)

end Action.Follows

namespace Run

def Stepwise (S : Heap → Heap → Prop) (w : World σ) (r : Run σ ε α) : Prop :=
  Heap.Progress S w.heap (r.events.map (·.heap)) r.world.heap

theorem Stepwise.still {outcome : Outcome ε α} {w : World σ} :
    Stepwise S w ⟨outcome, w, []⟩ := .done

end Run

namespace Action

def Stepwise (S : Heap → Heap → Prop) (x : Action σ ε α) : Prop := ∀ w, (x w).Stepwise S w

namespace Stepwise

protected theorem pure (a : α) : Stepwise S (pure a : Action σ ε α) := fun _ => .still

protected theorem fail (e : ε) : Stepwise S (fail e : Action σ ε α) := fun _ => .still

protected theorem heap : Stepwise S (heap : Action σ ε Heap) := fun _ => .still

protected theorem emit (event : Event) : Stepwise S (emit event : Action σ ε Unit) :=
  fun _ => .seen .done

protected theorem report (r : Report) : Stepwise S (report r : Action σ ε Unit) :=
  Stepwise.emit (.report r)

protected theorem ofExcept (x : Except ε α) : Stepwise S (ofExcept x : Action σ ε α) :=
  Follows.ofExcept (R := Heap.along S) x

protected theorem onHeap {f : Heap → α × Heap} (h : ∀ heap, Heap.Progress S heap [] (f heap).2) :
    Stepwise S (onHeap f : Action σ ε α) := fun w => h w.heap

theorem onHeap_beside [Heap.Coarse S] {f : Heap → α × Heap}
    (h : ∀ heap, (f heap).2.objects = heap.objects) : Stepwise S (onHeap f : Action σ ε α) :=
  Stepwise.onHeap fun heap => (Heap.Step.beside (h heap)).progress

protected theorem bind {x : Action σ ε α} {f : α → Action σ ε β} (hx : Stepwise S x)
    (hf : ∀ a, Stepwise S (f a)) : Stepwise S (x >>= f) :=
  Follows.bind (R := Heap.along S) hx hf

protected theorem mapFault (f : Heap → ε → ε') {x : Action σ ε α} (hx : Stepwise S x) :
    Stepwise S (x.mapFault f) :=
  Follows.mapFault (R := Heap.along S) f hx

theorem checked {p : Prop} [Decidable p] {e : ε} {rest : Unit → Action σ ε α}
    (h : ∀ u, Stepwise S (rest u)) : Stepwise S (if p then fail e >>= rest else rest ()) :=
  Follows.checked (R := Heap.along S) h

protected theorem mapM {f : α → Action σ ε β} (hf : ∀ a, Stepwise S (f a)) (list : List α) :
    Stepwise S (list.mapM f) :=
  Follows.mapM (R := Heap.along S) hf list

end Stepwise

def history (x : Action σ ε α) (w : World σ) : List Heap :=
  w.heap :: (x w).events.map (·.heap) ++ [(x w).world.heap]

theorem Stepwise.pairwise_history {R : Heap → Heap → Prop} (refl : ∀ h, R h h)
    (trans : ∀ h h' h'', R h h' → R h' h'' → R h h'') (along : ∀ h h', S h h' → R h h')
    {x : Action σ ε α} (hx : Stepwise S x) (w : World σ) : (x.history w).Pairwise R :=
  Heap.Progress.pairwise refl trans along (hx w)

end Action

def Caller.Stepwise (S : Heap → Heap → Prop) (caller : Caller σ) : Prop :=
  ∀ capability request arguments, (caller capability request arguments).Stepwise S

end Decoration
