import Decoration.Proofs.Renaming
import Decoration.Proofs.Untouched

/-! Expressions that are settled before a class begins, and decorators that work with their handle
alone. Those of the library do. -/

namespace Decoration

open Decoration.Action

variable {σ ε ε' α β : Type} {S : σ → Array Memo → Prop} {w v v' v₁ v₁' v₂ : World σ}

def Handle.Since (handle : Handle) (h h' : Heap) : Prop :=
  h.cells.size ≤ handle.index ∧ handle.index < h'.cells.size

namespace Heap

structure Edits (h : Heap) (handle : Handle) (h' : Heap) : Prop where
  grows : h.Grows h'
  cells : h.cells.size ≤ h'.cells.size
  content : ∀ other, other.index < h.cells.size → other ≠ handle → h'.content other = h.content other

theorem edits_of_cells {h h' : Heap} (g : h.Grows h') (same : h'.cells = h.cells) (handle : Handle) :
    h.Edits handle h' :=
  ⟨g, Nat.le_of_eq (congrArg Array.size same.symm), fun other _ _ => by rw [content, content, same]⟩

theorem Edits.trans {h h' h'' : Heap} {handle : Handle} (first : h.Edits handle h')
    (second : h'.Edits handle h'') : h.Edits handle h'' := by
  refine ⟨first.grows.trans second.grows, Nat.le_trans first.cells second.cells,
    fun other hother hne => ?_⟩
  rw [second.content other (Nat.lt_of_lt_of_le hother first.cells) hne, first.content other hother hne]

theorem edits_addCell (h : Heap) (d : Descriptor) (handle : Handle) :
    h.Edits handle (h.addCell d).2 := by
  refine ⟨grows_of_objects rfl, by simp [addCell], fun other hother _ => ?_⟩
  rw [content_addCell, if_neg]
  rintro rfl
  exact absurd hother (Nat.lt_irrefl _)

theorem grows_setContent (h : Heap) (handle : Handle) (d : Descriptor) :
    h.Grows (h.setContent handle d) := grows_of_objects rfl

theorem edits_setContent {h h' : Heap} {handle : Handle} (he : h.Edits handle h') (d : Descriptor) :
    h.Edits handle (h'.setContent handle d) := by
  refine ⟨he.grows.trans (h'.grows_setContent handle d), Nat.le_trans he.cells (by simp [setContent]),
    fun other hother hne => ?_⟩
  rw [← he.content other hother hne]
  have hindex : handle.index ≠ other.index := fun heq => hne (by cases handle; cases other; simp_all)
  simp [content, setContent, hindex]

end Heap

namespace World

structure Later (S : σ → Array Memo → Prop) (w v : World σ) : Prop where
  grows : w.heap.Grows v.heap
  cells : w.heap.cells.size ≤ v.heap.cells.size
  content : ∀ handle : Handle, handle.index < w.heap.cells.size →
    v.heap.content handle = w.heap.content handle
  hidden : S v.host v.heap.memos

structure Still (S : σ → Array Memo → Prop) (v v₁ : World σ) : Prop where
  objects : v₁.heap.objects = v.heap.objects
  cells : v₁.heap.cells = v.heap.cells
  hidden : S v₁.host v₁.heap.memos

theorem Still.trans (first : v.Still S v₁) (second : v₁.Still S v₂) : v.Still S v₂ :=
  ⟨second.objects.trans first.objects, second.cells.trans first.cells, second.hidden⟩

theorem Later.refl (h : S w.host w.heap.memos) : w.Later S w :=
  ⟨.refl _, Nat.le_refl _, fun _ _ => rfl, h⟩

theorem Later.edits (hl : w.Later S v) {handle : Handle} (fresh : w.heap.cells.size ≤ handle.index)
    (he : v.heap.Edits handle v₁.heap) (hidden : S v₁.host v₁.heap.memos) : w.Later S v₁ := by
  refine ⟨hl.grows.trans he.grows, Nat.le_trans hl.cells he.cells, fun other hother => ?_, hidden⟩
  have hne : other ≠ handle := by
    rintro rfl
    exact Nat.not_lt_of_le fresh hother
  rw [he.content other (Nat.lt_of_lt_of_le hother hl.cells) hne, hl.content other hother]

theorem Still.edits (hs : v.Still S v₁) (handle : Handle) : v.heap.Edits handle v₁.heap :=
  Heap.edits_of_cells (Heap.grows_of_objects hs.objects) hs.cells handle

theorem Later.still (hl : w.Later S v) (hs : v.Still S v₁) : w.Later S v₁ :=
  hl.edits (Nat.le_refl (Handle.mk w.heap.cells.size).index) (hs.edits _) hs.hidden

end World

/-- In all that comes later the action touches neither an object nor a shared descriptor, and has the
same value everywhere, if it has one. -/
structure Action.Settled (S : σ → Array Memo → Prop) (w : World σ) (x : Action σ ε α) : Prop where
  still : ∀ {v a v₁}, w.Later S v → x.Yields v a v₁ → v.Still S v₁
  same : ∀ {v v' a v₁}, w.Later S v → w.Later S v' → x.Yields v a v₁ → ∃ v₁', x.Yields v' a v₁'

namespace Action.Settled

protected theorem pure (a : α) : Settled S w (pure a : Action σ ε α) := by
  refine ⟨fun hl h => ?_, fun hl hl' h => ?_⟩
  · obtain ⟨rfl, rfl⟩ := yields_pure.mp h
    exact ⟨rfl, rfl, hl.hidden⟩
  · obtain ⟨rfl, rfl⟩ := yields_pure.mp h
    exact ⟨_, yields_pure.mpr ⟨rfl, rfl⟩⟩

protected theorem fail (e : ε) : Settled S w (fail e : Action σ ε α) :=
  ⟨fun _ h => (yields_fail.mp h).elim, fun _ _ h => (yields_fail.mp h).elim⟩

protected theorem bind {x : Action σ ε α} {f : α → Action σ ε β} (hx : Settled S w x)
    (hf : ∀ v a v₁, w.Later S v → x.Yields v a v₁ → Settled S w (f a)) : Settled S w (x >>= f) := by
  refine ⟨fun hl h => ?_, fun hl hl' h => ?_⟩
  · obtain ⟨a, v₁, hfirst, hrest⟩ := yields_bind.mp h
    have hstill := hx.still hl hfirst
    exact hstill.trans ((hf _ a v₁ hl hfirst).still (hl.still hstill) hrest)
  · obtain ⟨a, v₁, hfirst, hrest⟩ := yields_bind.mp h
    obtain ⟨v₁', hfirst'⟩ := hx.same hl hl' hfirst
    obtain ⟨v₂', hrest'⟩ := (hf _ a v₁ hl hfirst).same (hl.still (hx.still hl hfirst))
      (hl'.still (hx.still hl' hfirst')) hrest
    exact ⟨v₂', yields_bind.mpr ⟨a, v₁', hfirst', hrest'⟩⟩

protected theorem mapFault (f : Heap → ε → ε') {x : Action σ ε α} (hx : Settled S w x) :
    Settled S w (x.mapFault f) := by
  refine ⟨fun hl h => hx.still hl (yields_mapFault.mp h), fun hl hl' h => ?_⟩
  obtain ⟨v₁', h'⟩ := hx.same hl hl' (yields_mapFault.mp h)
  exact ⟨v₁', yields_mapFault.mpr h'⟩

theorem heap_bind {f : Heap → Action σ ε α} (hsame : ∀ v : World σ, w.Later S v → f v.heap = f w.heap)
    (hf : Settled S w (f w.heap)) : Settled S w (heap >>= f) := by
  refine ⟨fun {v a v₁} hl h => ?_, fun {v v' a v₁} hl hl' h => ?_⟩
  · have h := yields_heap_bind.mp h
    rw [hsame v hl] at h
    exact hf.still hl h
  · have h := yields_heap_bind.mp h
    rw [hsame v hl] at h
    obtain ⟨v₁', h'⟩ := hf.same hl hl' h
    rw [← hsame v' hl'] at h'
    exact ⟨v₁', yields_heap_bind.mpr h'⟩

theorem report_bind {r : Report} {f : Unit → Action σ ε α} (hf : Settled S w (f ())) :
    Settled S w (report r >>= f) :=
  ⟨fun hl h => hf.still hl (yields_report_bind.mp h),
    fun hl hl' h => hf.same hl hl' (yields_report_bind.mp h)⟩

protected theorem mapM {ι : Type} {f : ι → Action σ ε β} {list : List ι}
    (hf : ∀ i ∈ list, Settled S w (f i)) : Settled S w (list.mapM f) := by
  induction list with
  | nil => exact Settled.pure []
  | cons i rest ih =>
    rw [List.forall_mem_cons] at hf
    rw [List.mapM_cons]
    exact hf.1.bind fun _ b _ _ _ => (ih hf.2).bind fun _ bs _ _ _ => Settled.pure (b :: bs)

theorem leads {x : Action σ ε α} {a : α} {n : Nat} {ρ : Renaming} (hx : Settled S w x)
    (hl : w.Later S v) (hl' : w.Later S v') (j : ρ.Joins n v.heap v'.heap) (h : x.Yields v a v₁) :
    ∃ v₁', x.Yields v' a v₁' ∧ v.Still S v₁ ∧ v'.Still S v₁' ∧
      ρ.Leads ρ n v.heap v'.heap v₁.heap v₁'.heap := by
  have hstill := hx.still hl h
  obtain ⟨v₁', h'⟩ := hx.same hl hl' h
  have hstill' := hx.still hl' h'
  exact ⟨v₁', h', hstill, hstill', .keepsKinds j (Heap.grows_of_objects hstill.objects).keepsKinds
    (Heap.grows_of_objects hstill'.objects).keepsKinds⟩

end Action.Settled

structure Expr.Settled (caller : Caller σ) (env : Environment) (S : σ → Array Memo → Prop)
    (w : World σ) (x : Expr) : Prop where
  evaluate : (x.evaluate caller env).Settled S w
  within : ∀ {v value v₁}, w.Later S v → (x.evaluate caller env).Yields v value v₁ →
    value.Within w.heap.objects.size

theorem Expr.Settled.leads {caller : Caller σ} {env : Environment} {x : Expr} {value : Value}
    {n : Nat} {ρ : Renaming} (hx : x.Settled caller env S w) (hl : w.Later S v) (hl' : w.Later S v')
    (hn : w.heap.objects.size ≤ n) (j : ρ.Joins n v.heap v'.heap)
    (h : (x.evaluate caller env).Yields v value v₁) :
    ∃ v₁', (x.evaluate caller env).Yields v' value v₁' ∧
      ρ.Leads ρ n v.heap v'.heap v₁.heap v₁'.heap ∧ value.Match ρ value := by
  obtain ⟨v₁', h', -, -, hleads⟩ := hx.evaluate.leads hl hl' j h
  exact ⟨v₁', h', hleads, ((hx.within hl h).mono hn).match_self j.fixed⟩

theorem Expr.settled_of_isSimple {x : Expr} (hx : x.isSimple = true) {caller : Caller σ}
    {env : Environment}
    (henv : ∀ name value, env.lookup? name = some value → value.Within w.heap.objects.size) :
    x.Settled caller env S w := by
  cases x with
  | literal value =>
    refine ⟨Settled.pure value.value, fun _ h => ?_⟩
    obtain ⟨rfl, -⟩ := yields_pure.mp h
    cases value <;> exact fun id hid => nomatch hid
  | identifier name =>
    cases hfound : env.lookup? name with
    | none =>
      have heval : (identifier name).evaluate caller env = fail (.reference (.unbound name)) := by
        rw [evaluate, hfound]
      refine ⟨heval ▸ Settled.fail _, fun _ h => ?_⟩
      rw [heval] at h
      exact (yields_fail.mp h).elim
    | some value =>
      have heval : (identifier name).evaluate caller env = pure value := by rw [evaluate, hfound]
      refine ⟨heval ▸ Settled.pure value, fun _ h => ?_⟩
      rw [heval] at h
      obtain ⟨rfl, -⟩ := yields_pure.mp h
      exact henv name value hfound
  | member => cases hx

namespace Decorator

theorem settled_collectOne {caller : Caller σ} {env : Environment} {written : DecoratorExpr}
    (hx : ∀ x ∈ written.expressions, x.Settled caller env S w) :
    (collectOne caller env written).Settled S w := by
  rw [DecoratorExpr.expressions, List.forall_mem_cons] at hx
  refine (hx.1.evaluate.mapFault _).bind fun v callee v₁ hl hcallee => ?_
  have hwithin := hx.1.within hl (yields_mapFault.mp hcallee)
  refine Settled.heap_bind (fun v' hl' => ?_) ?_
  · have hsame : v'.heap.capability? callee = w.heap.capability? callee := by
      cases callee with
      | object id => exact hl'.grows.keepsKinds.capability? (hwithin id rfl)
      | _ => rfl
    rw [hsame]
  · split
    · exact Settled.fail _
    · refine ((Settled.mapM fun x hmem => (hx.2 x hmem).evaluate).mapFault _).bind ?_
      exact fun _ extra _ _ _ => Settled.report_bind (Settled.pure _)

theorem settled_collect {caller : Caller σ} {env : Environment} {list : List DecoratorExpr}
    (hx : ∀ written ∈ list, ∀ x ∈ written.expressions, x.Settled caller env S w) :
    (collect caller env list).Settled S w :=
  Settled.mapM fun written hmem => settled_collectOne (hx written hmem)

theorem exists_of_mem_collect {caller : Caller σ} {env : Environment} {list : List DecoratorExpr}
    (hx : ∀ written ∈ list, ∀ x ∈ written.expressions, x.Settled caller env S w)
    (hstart : S w.host w.heap.memos) {ds : List Decorator} (hl : w.Later S v)
    (h : (collect caller env list).Yields v ds v₁) {d : Decorator} (hd : d ∈ ds) :
    ∃ written ∈ list, ∃ w', (collectOne caller env written).Yields w d w' := by
  induction list generalizing v ds with
  | nil =>
    obtain ⟨rfl, -⟩ := yields_pure.mp h
    exact nomatch hd
  | cons written rest ih =>
    rw [List.forall_mem_cons] at hx
    rw [collect, List.mapM_cons] at h
    obtain ⟨first, v₂, hfirst, h⟩ := yields_bind.mp h
    obtain ⟨others, v₃, hrest, h⟩ := yields_bind.mp h
    obtain ⟨rfl, rfl⟩ := yields_pure.mp h
    have hwritten := settled_collectOne hx.1
    rcases List.mem_cons.mp hd with rfl | hd
    · exact ⟨written, List.mem_cons_self, hwritten.same hl (.refl hstart) hfirst⟩
    · obtain ⟨other, hmem, hother⟩ := ih hx.2 (hl.still (hwritten.still hl hfirst)) hrest hd
      exact ⟨other, List.mem_cons_of_mem _ hmem, hother⟩

def edit (caller : Caller σ) (target : Target) (name : String) (handle : Handle) (d : Decorator) :
    Action σ Fault Value :=
  caller d.capability .construct ([target.value, .string name, .descriptor handle] ++ d.extra)

/-- In all that comes later the decorator touches nothing but a handle that is new. What it leaves in
the handle follows from what it finds there, from the name and from its own arguments: between heaps
that are joined, and from contents that match, it comes to contents that match. -/
structure Local (caller : Caller σ) (S : σ → Array Memo → Prop) (w : World σ) (d : Decorator) :
    Prop where
  touches : ∀ {target name handle v result v₁}, w.Later S v → handle.Since w.heap v.heap →
    (d.edit caller target name handle).Yields v result v₁ →
    v.heap.Edits handle v₁.heap ∧ S v₁.host v₁.heap.memos
  determines : ∀ {n ρ target name handle handle' v v' result v₁}, w.Later S v → w.Later S v' →
    w.heap.objects.size ≤ n → ρ.Joins n v.heap v'.heap →
    handle.Since w.heap v.heap → handle'.Since w.heap v'.heap →
    (v.heap.content handle).Match ρ (v'.heap.content handle') →
    (d.edit caller target name handle).Yields v result v₁ →
    ∃ result' v₁' ρ', (d.edit caller target name handle').Yields v' result' v₁' ∧
      ρ.Leads ρ' n v.heap v'.heap v₁.heap v₁'.heap ∧
      (v₁.heap.content handle).Match ρ' (v₁'.heap.content handle')

end Decorator

section Chains

variable {caller : Caller σ} {target : Target} {name : String} {handle handle' : Handle} {n : Nat}
  {ρ : Renaming}

theorem Chain.yields_member_cons {d : Decorator} {position : Nat} {rest : List (Decorator × Nat)} :
    (Chain.member caller target name handle ((d, position) :: rest)).Yields v () v₁ ↔
      ∃ result v₂, (d.edit caller target name handle).Yields v result v₂ ∧
        (Chain.member caller target name handle rest).Yields v₂ () v₁ := by
  refine yields_heap_bind.trans (yields_emit_bind.trans (yields_report_bind.trans ?_))
  refine yields_bind.trans ⟨?_, ?_⟩
  · rintro ⟨result, v₂, hd, hrest⟩
    exact ⟨result, v₂, yields_construct.mp hd, hrest⟩
  · rintro ⟨result, v₂, hd, hrest⟩
    exact ⟨result, v₂, yields_construct.mpr hd, hrest⟩

theorem Handle.Since.edits {h h' h'' : Heap} {other : Handle} (hnew : handle.Since h h')
    (he : h'.Edits other h'') : handle.Since h h'' :=
  ⟨hnew.1, Nat.lt_of_lt_of_le hnew.2 he.cells⟩

theorem Chain.touches_member {list : List (Decorator × Nat)}
    (hlocal : ∀ d ∈ list, d.1.Local caller S w) (hl : w.Later S v)
    (hnew : handle.Since w.heap v.heap)
    (h : (Chain.member caller target name handle list).Yields v () v₁) :
    v.heap.Edits handle v₁.heap ∧ S v₁.host v₁.heap.memos := by
  induction list generalizing v with
  | nil =>
    obtain ⟨-, rfl⟩ := yields_pure.mp h
    exact ⟨Heap.edits_of_cells (.refl _) rfl handle, hl.hidden⟩
  | cons first rest ih =>
    rw [List.forall_mem_cons] at hlocal
    obtain ⟨result, v₂, hfirst, hrest⟩ := yields_member_cons.mp h
    obtain ⟨he, hidden⟩ := hlocal.1.touches hl hnew hfirst
    obtain ⟨he', hidden'⟩ := ih hlocal.2 (hl.edits hnew.1 he hidden) (hnew.edits he) hrest
    exact ⟨he.trans he', hidden'⟩

theorem Chain.determines_member {list : List (Decorator × Nat)}
    (hlocal : ∀ d ∈ list, d.1.Local caller S w) (hl : w.Later S v) (hl' : w.Later S v')
    (hn : w.heap.objects.size ≤ n) (j : ρ.Joins n v.heap v'.heap) (hnew : handle.Since w.heap v.heap)
    (hnew' : handle'.Since w.heap v'.heap)
    (hcontent : (v.heap.content handle).Match ρ (v'.heap.content handle'))
    (h : (Chain.member caller target name handle list).Yields v () v₁) :
    ∃ v₁' ρ', (Chain.member caller target name handle' list).Yields v' () v₁' ∧
      ρ.Leads ρ' n v.heap v'.heap v₁.heap v₁'.heap ∧
      (v₁.heap.content handle).Match ρ' (v₁'.heap.content handle') := by
  induction list generalizing ρ v v' with
  | nil =>
    obtain ⟨-, rfl⟩ := yields_pure.mp h
    exact ⟨v', ρ, yields_pure.mpr ⟨rfl, rfl⟩, .refl j, hcontent⟩
  | cons first rest ih =>
    rw [List.forall_mem_cons] at hlocal
    obtain ⟨result, v₂, hfirst, hrest⟩ := yields_member_cons.mp h
    obtain ⟨result', v₂', ρ₁, hfirst', hleads, hcontent₁⟩ :=
      hlocal.1.determines hl hl' hn j hnew hnew' hcontent hfirst
    obtain ⟨he, hidden⟩ := hlocal.1.touches hl hnew hfirst
    obtain ⟨he', hidden'⟩ := hlocal.1.touches hl' hnew' hfirst'
    obtain ⟨v₁', ρ₂, hrest', hleads', hcontent₂⟩ := ih hlocal.2 (hl.edits hnew.1 he hidden)
      (hl'.edits hnew'.1 he' hidden') hleads.joins (hnew.edits he) (hnew'.edits he') hcontent₁ hrest
    exact ⟨v₁', ρ₂, yields_member_cons.mpr ⟨result', v₂', hfirst', hrest'⟩, hleads.trans hleads',
      hcontent₂⟩

end Chains

section Library

variable {n : Nat} {ρ : Renaming}

theorem Capability.leads_function {c c' : Capability} {f : ObjectId} (j : ρ.Joins n v.heap v'.heap)
    (hc : c.Match ρ c') (h : (c.function : Action σ ε ObjectId).Yields v f v₁) :
    ∃ f' v₁' ρ', (c'.function : Action σ ε ObjectId).Yields v' f' v₁' ∧
      ρ.Leads ρ' n v.heap v'.heap v₁.heap v₁'.heap ∧ ρ' f f' := by
  obtain ⟨rfl, rfl⟩ := yields_onHeap.mp h
  exact ⟨_, _, _, yields_onHeap.mpr ⟨rfl, rfl⟩, .addFunction j hc, .inr ⟨rfl, rfl⟩⟩

def Heap.takeSite (h : Heap) (memo : MemoId) : Heap :=
  h.setMemo memo { h.memo memo with nextSite := (h.memo memo).nextSite + 1 }

theorem Heap.grows_takeSite (h : Heap) (memo : MemoId) : h.Grows (h.takeSite memo) :=
  grows_of_objects rfl

theorem MemoId.yields_wrap {memo : MemoId} {key : String} {wrapped result : Value} :
    (memo.wrap key wrapped : Action σ ε Value).Yields v result v₁ ↔
      ∃ f, ((Capability.memoized key memo (v.heap.memo memo).nextSite wrapped).function :
        Action σ ε ObjectId).Yields { v with heap := v.heap.takeSite memo } f v₁ ∧
        .object f = result := by
  refine yields_heap_bind.trans (yields_bind.trans ?_)
  constructor
  · rintro ⟨⟨⟩, v₂, htake, h⟩
    obtain ⟨-, rfl⟩ := yields_onHeap.mp htake
    obtain ⟨f, v₃, hf, h⟩ := yields_bind.mp h
    obtain ⟨rfl, rfl⟩ := yields_pure.mp h
    exact ⟨f, hf, rfl⟩
  · rintro ⟨f, hf, rfl⟩
    exact ⟨(), _, yields_onHeap.mpr ⟨rfl, rfl⟩,
      yields_bind.mpr ⟨f, v₁, hf, yields_pure.mpr ⟨rfl, rfl⟩⟩⟩

theorem MemoId.leads_wrap {memo : MemoId} {key : String} {wrapped wrapped' result : Value}
    (j : ρ.Joins n v.heap v'.heap) (hwrapped : wrapped.Match ρ wrapped')
    (h : (memo.wrap key wrapped : Action σ ε Value).Yields v result v₁) :
    ∃ result' v₁' ρ', (memo.wrap key wrapped' : Action σ ε Value).Yields v' result' v₁' ∧
      ρ.Leads ρ' n v.heap v'.heap v₁.heap v₁'.heap ∧ result.Match ρ' result' := by
  obtain ⟨f, hf, rfl⟩ := yields_wrap.mp h
  have htaken : ρ.Leads ρ n v.heap v'.heap (v.heap.takeSite memo)
      ({ v' with heap := v'.heap.takeSite memo } : World σ).heap :=
    .keepsKinds j (v.heap.grows_takeSite memo).keepsKinds (v'.heap.grows_takeSite memo).keepsKinds
  obtain ⟨f', v₁', ρ', hf', hleads, hrelated⟩ :=
    Capability.leads_function htaken.joins (.memoized hwrapped) hf
  exact ⟨_, v₁', ρ', yields_wrap.mpr ⟨f', hf', rfl⟩, htaken.trans hleads, .object hrelated⟩

namespace Edit

variable {key : String} {extra : List Value} {d d' d₁ : Descriptor}

theorem leads_wrapMemoized {memo : MemoId} (j : ρ.Joins n v.heap v'.heap) (hd : d.Match ρ d')
    (h : (wrapMemoized memo key d).Yields v d₁ v₁) :
    ∃ d₁' v₁' ρ', (wrapMemoized memo key d').Yields v' d₁' v₁' ∧
      ρ.Leads ρ' n v.heap v'.heap v₁.heap v₁'.heap ∧ d₁.Match ρ' d₁' := by
  have h := yields_heap_bind.mp h
  cases hd with
  | @data value value' w e c hvalue =>
    have hcallable := j.isCallable hvalue
    dsimp only at h
    split at h
    · rename_i hfunction
      obtain ⟨f, v₂, hf, h⟩ := yields_bind.mp h
      obtain ⟨rfl, rfl⟩ := yields_pure.mp h
      obtain ⟨f', v₂', ρ', hf', hleads, hmatch⟩ := memo.leads_wrap j hvalue hf
      refine ⟨_, v₂', ρ', yields_heap_bind.mpr ?_, hleads, .data hmatch⟩
      dsimp only
      rw [hcallable, if_pos hfunction]
      exact yields_bind.mpr ⟨f', v₂', hf', yields_pure.mpr ⟨rfl, rfl⟩⟩
    · exact (yields_fail.mp h).elim
  | accessor hgetter hsetter =>
    cases hgetter with
    | none => exact (yields_fail.mp h).elim
    | some hgetter =>
      obtain ⟨f, v₂, hf, h⟩ := yields_bind.mp h
      obtain ⟨rfl, rfl⟩ := yields_pure.mp h
      obtain ⟨f', v₂', ρ', hf', hleads, hmatch⟩ := memo.leads_wrap j hgetter hf
      exact ⟨_, v₂', ρ',
        yields_heap_bind.mpr (yields_bind.mpr ⟨f', v₂', hf', yields_pure.mpr ⟨rfl, rfl⟩⟩),
        hleads, .accessor (.some hmatch) (Value.match_half_mono hleads.old hsetter)⟩

theorem leads_wrapDeprecated {message : String} (j : ρ.Joins n v.heap v'.heap) (hd : d.Match ρ d')
    (h : (wrapDeprecated message key d).Yields v d₁ v₁) :
    ∃ d₁' v₁' ρ', (wrapDeprecated message key d').Yields v' d₁' v₁' ∧
      ρ.Leads ρ' n v.heap v'.heap v₁.heap v₁'.heap ∧ d₁.Match ρ' d₁' := by
  have h := yields_heap_bind.mp h
  cases hd with
  | @data value value' w e c hvalue =>
    have hcallable := j.isCallable hvalue
    dsimp only at h
    split at h
    · rename_i hfunction
      obtain ⟨f, v₂, hf, h⟩ := yields_bind.mp h
      obtain ⟨rfl, rfl⟩ := yields_pure.mp h
      obtain ⟨f', v₂', ρ', hf', hleads, hrelated⟩ :=
        Capability.leads_function j (.deprecated hvalue) hf
      refine ⟨_, v₂', ρ', yields_heap_bind.mpr ?_, hleads, .data (.object hrelated)⟩
      dsimp only
      rw [hcallable, if_pos hfunction]
      exact yields_bind.mpr ⟨f', v₂', hf', yields_pure.mpr ⟨rfl, rfl⟩⟩
    · exact (yields_fail.mp h).elim
  | accessor => exact (yields_fail.mp h).elim

theorem leads_apply {edit : Edit} (j : ρ.Joins n v.heap v'.heap) (hd : d.Match ρ d')
    (hextra : ∀ x ∈ extra, x.Within n) (h : (edit.apply key extra d).Yields v d₁ v₁) :
    ∃ d₁' v₁' ρ', (edit.apply key extra d').Yields v' d₁' v₁' ∧
      ρ.Leads ρ' n v.heap v'.heap v₁.heap v₁'.heap ∧ d₁.Match ρ' d₁' := by
  have hpure : ∀ {f : Descriptor → Descriptor}, (f d).Match ρ (f d') →
      (pure (f d) : Action σ Fault Descriptor).Yields v d₁ v₁ →
      ∃ d₁' v₁' ρ', (pure (f d') : Action σ Fault Descriptor).Yields v' d₁' v₁' ∧
        ρ.Leads ρ' n v.heap v'.heap v₁.heap v₁'.heap ∧ d₁.Match ρ' d₁' := by
    intro f hmatch h
    obtain ⟨rfl, rfl⟩ := yields_pure.mp h
    exact ⟨_, v', ρ, yields_pure.mpr ⟨rfl, rfl⟩, .refl j, hmatch⟩
  cases edit with
  | readonly => exact hpure (hd.setWritable false) h
  | nonenumerable => exact hpure (hd.setEnumerable false) h
  | enumerable => exact hpure (hd.setEnumerable _) h
  | nonconfigurable => exact hpure (hd.setConfigurable false) h
  | provide =>
    refine hpure (Descriptor.Match.setValue (Value.Within.match_self j.fixed ?_) hd) h
    cases extra with
    | nil => exact fun id hid => nomatch hid
    | cons x rest => exact hextra x List.mem_cons_self
  | memoize memo => exact leads_wrapMemoized j hd h
  | deprecated => exact leads_wrapDeprecated j hd h

theorem beside_wrapMemoized {memo : MemoId} (h : (wrapMemoized memo key d).Yields v d₁ v₁) :
    v₁.heap.cells = v.heap.cells ∧ v₁.host = v.host ∧ v₁.heap.memos = (v.heap.takeSite memo).memos := by
  have hwrap : ∀ {value result : Value} {v₂ : World σ},
      (memo.wrap key value : Action σ Fault Value).Yields v result v₂ →
      v₂.heap.cells = v.heap.cells ∧ v₂.host = v.host ∧
        v₂.heap.memos = (v.heap.takeSite memo).memos := by
    intro value result v₂ hresult
    obtain ⟨f, hf, -⟩ := MemoId.yields_wrap.mp hresult
    obtain ⟨-, rfl⟩ := yields_onHeap.mp hf
    exact ⟨rfl, rfl, rfl⟩
  have h := yields_heap_bind.mp h
  rcases d with ⟨value, w, e, c⟩ | ⟨getter | getter, setter, e, c⟩
  · dsimp only at h
    split at h
    · obtain ⟨f, v₂, hf, h⟩ := yields_bind.mp h
      obtain ⟨-, rfl⟩ := yields_pure.mp h
      exact hwrap hf
    · exact (yields_fail.mp h).elim
  · exact (yields_fail.mp h).elim
  · obtain ⟨f, v₂, hf, h⟩ := yields_bind.mp h
    obtain ⟨-, rfl⟩ := yields_pure.mp h
    exact hwrap hf

theorem beside_wrapDeprecated {message : String} (h : (wrapDeprecated message key d).Yields v d₁ v₁) :
    v₁.heap.cells = v.heap.cells ∧ v₁.host = v.host ∧ v₁.heap.memos = v.heap.memos := by
  have h := yields_heap_bind.mp h
  cases d with
  | data value w e c =>
    dsimp only at h
    split at h
    · obtain ⟨f, v₂, hf, h⟩ := yields_bind.mp h
      obtain ⟨-, rfl⟩ := yields_pure.mp h
      obtain ⟨-, rfl⟩ := yields_onHeap.mp hf
      exact ⟨rfl, rfl, rfl⟩
    · exact (yields_fail.mp h).elim
  | accessor => exact (yields_fail.mp h).elim

theorem beside_apply {edit : Edit} (hsites : ∀ (v : World σ) memo, S v.host v.heap.memos →
      S v.host (v.heap.takeSite memo).memos)
    (h : (edit.apply key extra d).Yields v d₁ v₁) (hidden : S v.host v.heap.memos) :
    v₁.heap.cells = v.heap.cells ∧ S v₁.host v₁.heap.memos := by
  have hpure : ∀ {d₂ : Descriptor}, (pure d₂ : Action σ Fault Descriptor).Yields v d₁ v₁ →
      v₁.heap.cells = v.heap.cells ∧ S v₁.host v₁.heap.memos := by
    intro d₂ h
    obtain ⟨-, rfl⟩ := yields_pure.mp h
    exact ⟨rfl, hidden⟩
  cases edit with
  | memoize memo =>
    obtain ⟨hcells, hhost, hmemos⟩ := beside_wrapMemoized h
    rw [hhost, hmemos]
    exact ⟨hcells, hsites v memo hidden⟩
  | deprecated =>
    obtain ⟨hcells, hhost, hmemos⟩ := beside_wrapDeprecated h
    rw [hhost, hmemos]
    exact ⟨hcells, hidden⟩
  | _ => exact hpure h

theorem yields_edit {edit : Edit} {host : Host σ} {depth : Nat} {label : String} {target : Target}
    {handle : Handle} {result : Value} :
    (Decorator.edit (Caller.nested host (depth + 1)) target key handle
        { label, capability := .edit edit, extra }).Yields v result v₁ ↔
      ∃ edited v₂, (edit.apply key extra (v.heap.content handle)).Yields v edited v₂ ∧
        .descriptor handle = result ∧
        { v₂ with heap := v₂.heap.setContent handle edited } = v₁ := by
  refine yields_heap_bind.trans ?_
  constructor
  · intro h
    obtain ⟨edited, v₂, hedited, h⟩ := yields_bind.mp h
    obtain ⟨⟨⟩, v₃, hset, h⟩ := yields_bind.mp h
    obtain ⟨-, rfl⟩ := yields_onHeap.mp hset
    exact ⟨edited, v₂, hedited, yields_pure.mp h⟩
  · rintro ⟨edited, v₂, hedited, rfl, rfl⟩
    exact yields_bind.mpr ⟨edited, v₂, hedited, yields_bind.mpr
      ⟨(), _, yields_onHeap.mpr ⟨rfl, rfl⟩, yields_pure.mpr ⟨rfl, rfl⟩⟩⟩

end Edit

theorem Decorator.local_edit (edit : Edit) (host : Host σ) (depth : Nat) (label : String)
    {extra : List Value} (hextra : ∀ x ∈ extra, x.Within w.heap.objects.size)
    (hsites : ∀ (v : World σ) memo, S v.host v.heap.memos → S v.host (v.heap.takeSite memo).memos) :
    Local (Caller.nested host (depth + 1)) S w { label, capability := .edit edit, extra } where
  touches {target name handle v result v₁} hl hnew h := by
    obtain ⟨edited, v₂, hedited, -, rfl⟩ := Edit.yields_edit.mp h
    obtain ⟨hcells, hidden⟩ := Edit.beside_apply hsites hedited hl.hidden
    have hgrows := (edit.spares_apply name extra _).yields hedited
    exact ⟨Heap.edits_setContent (Heap.edits_of_cells hgrows hcells handle) edited, hidden⟩
  determines {n ρ target name handle handle' v v' result v₁} hl hl' hn j hnew hnew' hcontent h := by
    obtain ⟨edited, v₂, hedited, -, rfl⟩ := Edit.yields_edit.mp h
    have hwithin : ∀ x ∈ extra, x.Within n := fun x hx => (hextra x hx).mono hn
    obtain ⟨edited', v₂', ρ', hedited', hleads, hmatch⟩ := Edit.leads_apply j hcontent hwithin hedited
    have hset : ρ'.Leads ρ' n v₂.heap v₂'.heap (v₂.heap.setContent handle edited)
        (v₂'.heap.setContent handle' edited') :=
      .keepsKinds hleads.joins (Heap.grows_setContent ..).keepsKinds
        (Heap.grows_setContent ..).keepsKinds
    refine ⟨_, _, ρ', Edit.yields_edit.mpr ⟨edited', v₂', hedited', rfl, rfl⟩, hleads.trans hset, ?_⟩
    have hcells := (Edit.beside_apply hsites hedited hl.hidden).1
    have hcells' := (Edit.beside_apply hsites hedited' hl'.hidden).1
    have hbound : handle.index < v₂.heap.cells.size := by
      rw [hcells]
      exact hnew.2
    have hbound' : handle'.index < v₂'.heap.cells.size := by
      rw [hcells']
      exact hnew'.2
    rw [Heap.content_setContent hbound, if_pos rfl, Heap.content_setContent hbound', if_pos rfl]
    exact hmatch

end Library
end Decoration
