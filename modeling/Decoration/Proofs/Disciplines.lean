import Decoration.Capability.Response
import Decoration.Proofs.Observed
import Decoration.Proofs.Trace.Chain

/-! The two disciplines over the member decorators of the library. A fallback chain has nothing to hand
on up to its bottommost `provide`, and from there on it does what a member chain does to its handle. -/

namespace Decoration

open Decoration.Action

variable {σ ε α β : Type}

structure MemberEdit where
  label : String
  edit : Edit
  extra : List Value

def MemberEdit.decorator (d : MemberEdit) : Decorator := ⟨d.label, .edit d.edit, d.extra⟩

def turns (steps : List Moment) : List (Decorator × Nat) :=
  (observed steps).map fun i => (i.decorator, i.position)

theorem turns_append (a b : List Moment) : turns (a ++ b) = turns a ++ turns b := by
  rw [turns, observed_append, List.map_append, turns, turns]

theorem turns_opening (form : ChainForm) (h : Heap) (results : List Value) (d : Decorator)
    (position : Nat) : turns (form.opening h results d position) = [(d, position)] := by
  cases form <;> rfl

theorem Heap.lt_size_of_content {h : Heap} {handle : Handle} {d : Descriptor}
    (hcontent : h.content handle = d) (hd : d ≠ default) : handle.index < h.cells.size := by
  by_contra hout
  rw [content, Array.getElem?_eq_none (Nat.le_of_not_lt hout)] at hcontent
  exact hd hcontent.symm

namespace World

def withCells (w : World σ) (cells : Array Descriptor) : World σ :=
  { w with heap := { w.heap with cells } }

def setContent (w : World σ) (handle : Handle) (d : Descriptor) : World σ :=
  { w with heap := w.heap.setContent handle d }

/-- Two worlds that differ in their shared descriptors alone, with two handles that hold the same. -/
structure Twins (w : World σ) (handle : Handle) (v : World σ) (handle' : Handle) : Prop where
  beside : v = w.withCells v.heap.cells
  bound : handle.index < w.heap.cells.size
  bound' : handle'.index < v.heap.cells.size
  content : w.heap.content handle = v.heap.content handle'

theorem twins_setContent {u : World σ} {cells cells' : Array Descriptor} {handle handle' : Handle}
    (bound : handle.index < cells.size) (bound' : handle'.index < cells'.size) (d : Descriptor) :
    ((u.withCells cells).setContent handle d).Twins handle
      ((u.withCells cells').setContent handle' d) handle' := by
  refine ⟨rfl, ?_, ?_, ?_⟩
  · change handle.index < (cells.setIfInBounds handle.index d).size
    rwa [Array.size_setIfInBounds]
  · change handle'.index < (cells'.setIfInBounds handle'.index d).size
    rwa [Array.size_setIfInBounds]
  · change ((u.withCells cells).heap.setContent handle d).content handle =
      ((u.withCells cells').heap.setContent handle' d).content handle'
    rw [Heap.content_setContent bound, if_pos rfl, Heap.content_setContent bound', if_pos rfl]

end World

namespace Action

/-- Whatever the shared descriptors are, the action does the same, leaves them as they are and takes no
step. -/
def Unshared (x : Action σ ε α) : Prop := ∀ w : World σ, ∃ (w' : World σ)
  (result : Except (Option ε) α), ∀ cells,
    (x (w.withCells cells)).account = ⟨[], w'.withCells cells, result⟩

namespace Unshared

protected theorem pure (a : α) : (pure a : Action σ ε α).Unshared :=
  fun w => ⟨w, .ok a, fun _ => rfl⟩

protected theorem fail (e : ε) : (fail e : Action σ ε α).Unshared :=
  fun w => ⟨w, .error (some e), fun _ => rfl⟩

protected theorem bind {x : Action σ ε α} {f : α → Action σ ε β} (hx : x.Unshared)
    (hf : ∀ a, (f a).Unshared) : (x >>= f).Unshared := by
  intro w
  obtain ⟨w', s | a, hx⟩ := hx w
  · refine ⟨w', .error s, fun cells => ?_⟩
    rw [account_bind, hx, Account.andThen_error]
  · obtain ⟨w'', result, hf⟩ := hf a w'
    refine ⟨w'', result, fun cells => ?_⟩
    rw [account_bind, hx, Account.andThen_ok, hf, List.nil_append]

theorem heap_bind {f : Heap → Action σ ε α} (hf : ∀ h, (f h).Unshared)
    (hsame : ∀ (h : Heap) cells, f { h with cells } = f h) : (heap >>= f).Unshared := by
  intro w
  obtain ⟨w', result, h⟩ := hf w.heap w
  refine ⟨w', result, fun cells => ?_⟩
  rw [← h cells, ← hsame w.heap cells]
  rfl

protected theorem onHeap {f : Heap → α × Heap}
    (hf : ∀ (h : Heap) cells, f { h with cells } = ((f h).1, { (f h).2 with cells })) :
    (onHeap f : Action σ ε α).Unshared := by
  refine fun w => ⟨{ w with heap := (f w.heap).2 }, .ok (f w.heap).1, fun cells => ?_⟩
  rw [account_onHeap, World.withCells, hf]
  rfl

end Unshared
end Action

namespace Edit

theorem unshared_wrap (memo : MemoId) (key : String) (wrapped : Value) :
    (memo.wrap key wrapped : Action σ ε Value).Unshared := by
  refine Unshared.heap_bind (fun h => ?_) fun _ _ => rfl
  exact (Unshared.onHeap fun _ _ => rfl).bind fun _ =>
    (Unshared.onHeap fun _ _ => rfl).bind fun _ => Unshared.pure _

theorem unshared_apply (edit : Edit) (key : String) (extra : List Value) (d : Descriptor) :
    (edit.apply key extra d : Action σ Fault Descriptor).Unshared := by
  cases edit with
  | memoize memo =>
    refine Unshared.heap_bind (fun h => ?_) fun h cells => rfl
    rcases d with ⟨value, w, e, c⟩ | ⟨getter | getter, setter, e, c⟩
    · dsimp only
      split
      · exact (unshared_wrap memo key value).bind fun _ => Unshared.pure _
      · exact Unshared.fail _
    · exact Unshared.fail _
    · exact (unshared_wrap memo key getter).bind fun _ => Unshared.pure _
  | deprecated =>
    refine Unshared.heap_bind (fun h => ?_) fun h cells => rfl
    rcases d with ⟨value, w, e, c⟩ | ⟨getter, setter, e, c⟩
    · dsimp only
      split
      · exact (Unshared.onHeap fun _ _ => rfl).bind fun _ => Unshared.pure _
      · exact Unshared.fail _
    · exact Unshared.fail _
  | _ => exact Unshared.pure _

theorem account_construct_descriptor (inner : Caller σ) (edit : Edit) (target : Value) (name : String)
    (handle : Handle) (extra : List Value) (w : World σ) :
    (edit.construct inner ([target, .string name, .descriptor handle] ++ extra) w).account =
      (edit.apply name extra (w.heap.content handle) w).account.andThen fun d w' =>
        ⟨[], w'.setContent handle d, .ok (.descriptor handle)⟩ := by
  change ((edit.apply name extra (w.heap.content handle) >>= fun edited =>
    modifyHeap (·.setContent handle edited) >>= fun _ => pure (Value.descriptor handle)) w).account = _
  rw [account_bind]
  rfl

theorem account_construct_undefined (inner : Caller σ) {edit : Edit} (he : edit ≠ .provide)
    (target : Value) (name : String) (extra : List Value) (w : World σ) :
    (edit.construct inner ([target, .string name, .undefined] ++ extra) w).account =
      ⟨[], w, .ok .undefined⟩ := by
  cases edit with
  | provide => exact absurd rfl he
  | _ => rfl

end Edit

namespace World

variable {w v : World σ} {handle handle' : Handle}

theorem Twins.site (h : w.Twins handle v handle') (target : Target) (name : Option String) :
    Decorator.site v.heap target name = Decorator.site w.heap target name := by
  rw [h.beside]
  rfl

theorem Twins.construct (h : w.Twins handle v handle') (inner : Caller σ) (edit : Edit)
    (target : Value) (name : String) (extra : List Value) :
    ∃ (u u' : World σ) (result : Except (Option Fault) Unit), u.Twins handle u' handle' ∧
      (edit.construct inner ([target, .string name, .descriptor handle] ++ extra) w).account =
        ⟨[], u, result.map fun _ => .descriptor handle⟩ ∧
      (edit.construct inner ([target, .string name, .descriptor handle'] ++ extra) v).account =
        ⟨[], u', result.map fun _ => .descriptor handle'⟩ := by
  obtain ⟨u, result, happly⟩ := edit.unshared_apply name extra (w.heap.content handle) w
  have hw : (edit.apply name extra (w.heap.content handle) w).account =
    ⟨[], u.withCells w.heap.cells, result⟩ := happly w.heap.cells
  have hv : (edit.apply name extra (v.heap.content handle') v).account =
      ⟨[], u.withCells v.heap.cells, result⟩ := by
    rw [← h.content]
    exact (congrArg (fun v => (edit.apply name extra (w.heap.content handle) v).account)
      h.beside).trans (happly v.heap.cells)
  rw [Edit.account_construct_descriptor, Edit.account_construct_descriptor, hw, hv]
  cases result with
  | error s =>
    exact ⟨u.withCells w.heap.cells, u.withCells v.heap.cells, .error s,
      ⟨rfl, h.bound, h.bound', h.content⟩, rfl, rfl⟩
  | ok d => exact ⟨_, _, .ok (), twins_setContent h.bound h.bound' d, rfl, rfl⟩

end World

namespace ChainTrace

variable (host : Host σ) (depth : Nat) (target : Target) (name : String) {w v : World σ}
  {handle handle' : Handle}

theorem exists_twins (list : List (MemberEdit × Nat)) (h : w.Twins handle v handle')
    {results : List Value} (results' : List Value)
    (hrunning : latestTruthy results = .descriptor handle) :
    ∃ a b, ChainTrace (Caller.nested host (depth + 1)) (.fallback target name)
        (list.map (Prod.map MemberEdit.decorator id)) results w a ∧
      ChainTrace (Caller.nested host (depth + 1)) (.member target name handle')
        (list.map (Prod.map MemberEdit.decorator id)) results' v b ∧
      a.world.Twins handle b.world handle' ∧ turns a.steps = turns b.steps ∧
      a.result.map latestTruthy = b.result.map fun _ => .descriptor handle := by
  induction list generalizing w v results results' with
  | nil => exact ⟨_, _, .done, .done, h, rfl, congrArg Except.ok hrunning⟩
  | cons first rest ih =>
    obtain ⟨d, position⟩ := first
    obtain ⟨u, u', result, htwins, hw, hv⟩ := h.construct (Caller.nested host depth) d.edit target.value
      name d.extra
    have hfallback : (Caller.nested host (depth + 1) d.decorator.capability .construct
        ((ChainForm.fallback target name).arguments results ++ d.decorator.extra) w).account =
        ⟨[], u, result.map fun _ => .descriptor handle⟩ := by
      rw [ChainForm.arguments, hrunning]
      exact hw
    have hmember : (Caller.nested host (depth + 1) d.decorator.capability .construct
        ((ChainForm.member target name handle').arguments results' ++ d.decorator.extra) v).account =
        ⟨[], u', result.map fun _ => .descriptor handle'⟩ := hv
    cases result with
    | error s =>
      refine ⟨_, _, .stopped hfallback, .stopped hmember, htwins, ?_, ?_⟩
      · simp only [List.append_nil, turns_opening]
      · simp only [Except.map, htwins.site]
        rfl
    | ok r =>
      obtain ⟨a, b, ha, hb, htwins', hturns, hresult⟩ :=
        ih htwins (.descriptor handle' :: results') (latestTruthy_cons (.descriptor handle) results)
      refine ⟨_, _, .answered hfallback ha, .answered hmember hb, htwins', ?_, hresult⟩
      simp only [turns_append, turns_opening, hturns]

theorem exists_skipped (w : World σ) (list : List (MemberEdit × Nat))
    (hlist : ∀ d ∈ list, d.1.edit ≠ .provide) (results : List Value)
    (hrunning : latestTruthy results = .undefined) :
    ∃ steps results', latestTruthy results' = .undefined ∧
      turns steps = list.map (Prod.map MemberEdit.decorator id) ∧
      ∀ rest a, ChainTrace (Caller.nested host (depth + 1)) (.fallback target name) rest results' w a →
        ChainTrace (Caller.nested host (depth + 1)) (.fallback target name)
          (list.map (Prod.map MemberEdit.decorator id) ++ rest) results w
          ⟨steps ++ a.steps, a.world, a.result⟩ := by
  induction list generalizing results with
  | nil => exact ⟨[], results, hrunning, rfl, fun _ _ h => h⟩
  | cons first others ih =>
    obtain ⟨d, position⟩ := first
    rw [List.forall_mem_cons] at hlist
    have hfirst : (Caller.nested host (depth + 1) d.decorator.capability .construct
        ((ChainForm.fallback target name).arguments results ++ d.decorator.extra) w).account =
        ⟨[], w, .ok .undefined⟩ := by
      rw [ChainForm.arguments, hrunning]
      exact Edit.account_construct_undefined (Caller.nested host depth) hlist.1 target.value name d.extra w
    obtain ⟨steps, results', hrunning', hturns, hothers⟩ := ih hlist.2 (.undefined :: results)
      ((latestTruthy_cons .undefined results).trans hrunning)
    refine ⟨(ChainForm.fallback target name).opening w.heap results d.decorator position ++ steps,
      results', hrunning', ?_, fun rest a h => ?_⟩
    · rw [turns_append, turns_opening, hturns]
      rfl
    · have htrace : ChainTrace _ _ ((d.decorator, position) :: _) results w _ :=
        .answered hfirst (hothers rest a h)
      rw [List.append_nil, ← List.append_assoc] at htrace
      exact htrace

theorem exists_provided {p : MemberEdit} (hp : p.edit = .provide) {cells : Array Descriptor}
    (hcontent : (w.withCells cells).heap.content handle' = .ordinary .undefined) :
    ∃ u u' : World σ,
      (Caller.nested host (depth + 1) p.decorator.capability .construct
        ([target.value, .string name, .undefined] ++ p.extra) w).account =
        ⟨[], u, .ok (.descriptor ⟨w.heap.cells.size⟩)⟩ ∧
      (Caller.nested host (depth + 1) p.decorator.capability .construct
        ([target.value, .string name, .descriptor handle'] ++ p.extra) (w.withCells cells)).account =
        ⟨[], u', .ok (.descriptor handle')⟩ ∧
      u.Twins ⟨w.heap.cells.size⟩ u' handle' := by
  obtain ⟨label, edit, extra⟩ := p
  obtain rfl : edit = .provide := hp
  have hbound : handle'.index < cells.size := Heap.lt_size_of_content hcontent nofun
  refine ⟨{ w with heap := (w.heap.addCell (.ordinary (extra.head?.getD .undefined))).2 },
    (w.withCells cells).setContent handle' (.ordinary (extra.head?.getD .undefined)), rfl, ?_, rfl, ?_,
    ?_, ?_⟩
  · have hedit := Edit.account_construct_descriptor (Caller.nested host depth) .provide target.value name
      handle' extra (w.withCells cells)
    rw [hcontent] at hedit
    exact hedit
  · change w.heap.cells.size < (w.heap.cells.push _).size
    rw [Array.size_push]
    exact Nat.lt_succ_self _
  · change handle'.index < (cells.setIfInBounds handle'.index _).size
    rwa [Array.size_setIfInBounds]
  · refine ((Heap.content_addCell _ _ _).trans (if_pos rfl)).trans ?_
    exact ((Heap.content_setContent hbound _ handle').trans (if_pos rfl)).symm

end ChainTrace

theorem bottomUp_append (above below : List MemberEdit) :
    bottomUp ((above ++ below).map MemberEdit.decorator) =
      ((below.zipIdx above.length).reverse).map (Prod.map MemberEdit.decorator id) ++
        bottomUp (above.map MemberEdit.decorator) := by
  rw [bottomUp, List.map_append, List.zipIdx_append, List.reverse_append, bottomUp, List.length_map,
    Nat.zero_add, List.zipIdx_map, List.map_reverse]

theorem bottomUp_map (list : List MemberEdit) : bottomUp (list.map MemberEdit.decorator) =
    (list.zipIdx.reverse).map (Prod.map MemberEdit.decorator id) := by
  rw [bottomUp, List.zipIdx_map, List.map_reverse]

theorem bottomUp_append_cons (above below : List MemberEdit) (p : MemberEdit) :
    bottomUp ((above ++ p :: below).map MemberEdit.decorator) =
      (below.zipIdx (above.length + 1)).reverse.map (Prod.map MemberEdit.decorator id) ++
        (p.decorator, above.length) :: above.zipIdx.reverse.map (Prod.map MemberEdit.decorator id) := by
  have habove : bottomUp ((above ++ [p]).map MemberEdit.decorator) =
      (p.decorator, above.length) :: above.zipIdx.reverse.map (Prod.map MemberEdit.decorator id) := by
    rw [bottomUp_append, bottomUp_map]
    rfl
  rw [List.append_cons, bottomUp_append, List.length_append, habove]
  rfl

def fallbackAccount (host : Host σ) (depth : Nat) (target : Target) (name : String)
    (list : List MemberEdit) (w : World σ) : Account σ DecorationFault Value :=
  (applyFallbackChain (Caller.nested host (depth + 1)) (list.map MemberEdit.decorator) target name
    w).account

def memberAccount (host : Host σ) (depth : Nat) (target : Target) (name : String) (handle : Handle)
    (list : List MemberEdit) (w : World σ) : Account σ DecorationFault Unit :=
  (applyMemberChain (Caller.nested host (depth + 1)) (list.map MemberEdit.decorator) target name handle
    w).account

section

variable (host : Host σ) (depth : Nat) (target : Target) (name : String)

theorem fallbackAccount_skipped {list : List MemberEdit} (hlist : ∀ d ∈ list, d.edit ≠ .provide)
    (w : World σ) : (fallbackAccount host depth target name list w).result = .ok .undefined ∧
      (fallbackAccount host depth target name list w).world = w := by
  obtain ⟨steps, results, hrunning, -, htrace⟩ := ChainTrace.exists_skipped host depth target name w
    list.zipIdx.reverse (fun d hd => hlist d.1 (List.fst_mem_of_mem_zipIdx (List.mem_reverse.mp hd))) []
    rfl
  have hall := htrace [] _ .done
  rw [List.append_nil, ← bottomUp_map] at hall
  rw [fallbackAccount, hall.account_applyFallbackChain]
  exact ⟨congrArg Except.ok hrunning, rfl⟩

/-- From its bottommost `provide` on, a fallback chain does to a fresh handle what a member chain does to
one that holds an ordinary descriptor of undefined. -/
theorem fallbackAccount_provided (above below : List MemberEdit) {p : MemberEdit}
    (hp : p.edit = .provide) (hbelow : ∀ d ∈ below, d.edit ≠ .provide) {w : World σ}
    {cells : Array Descriptor} {handle : Handle}
    (hcontent : (w.withCells cells).heap.content handle = .ordinary .undefined) :
    (fallbackAccount host depth target name (above ++ p :: below) w).result =
        (memberAccount host depth target name handle (above ++ [p]) (w.withCells cells)).result.map
          (fun _ => .descriptor ⟨w.heap.cells.size⟩) ∧
      (fallbackAccount host depth target name (above ++ p :: below) w).world.Twins ⟨w.heap.cells.size⟩
        (memberAccount host depth target name handle (above ++ [p]) (w.withCells cells)).world handle ∧
      turns (fallbackAccount host depth target name (above ++ p :: below) w).steps =
        (((below.map MemberEdit.decorator).zipIdx (above.length + 1)).reverse) ++
          turns (memberAccount host depth target name handle (above ++ [p])
            (w.withCells cells)).steps := by
  obtain ⟨steps, results, hrunning, hturns, hskipped⟩ := ChainTrace.exists_skipped host depth target
    name w (below.zipIdx (above.length + 1)).reverse
    (fun d hd => hbelow d.1 (List.fst_mem_of_mem_zipIdx (List.mem_reverse.mp hd))) [] rfl
  obtain ⟨u, u', hfirst, hfirst', htwins⟩ := ChainTrace.exists_provided host depth target name hp
    hcontent
  obtain ⟨a, b, ha, hb, hends, hsame, hresult⟩ := ChainTrace.exists_twins host depth target name
    above.zipIdx.reverse htwins [.descriptor handle]
    (latestTruthy_cons (.descriptor ⟨w.heap.cells.size⟩) results)
  have hfallback : (Caller.nested host (depth + 1) p.decorator.capability .construct
      ((ChainForm.fallback target name).arguments results ++ p.decorator.extra) w).account =
      ⟨[], u, .ok (.descriptor ⟨w.heap.cells.size⟩)⟩ := by
    rw [ChainForm.arguments, hrunning]
    exact hfirst
  have hlong := hskipped ((p.decorator, above.length) :: _) _ (.answered hfallback ha)
  have hshort : ChainTrace _ (.member target name handle) ((p.decorator, above.length) :: _) []
    (w.withCells cells) _ := .answered hfirst' hb
  have hlist : bottomUp ((above ++ [p]).map MemberEdit.decorator) =
      (p.decorator, above.length) :: above.zipIdx.reverse.map (Prod.map MemberEdit.decorator id) :=
    bottomUp_append_cons above [] p
  rw [← bottomUp_append_cons] at hlong
  rw [← hlist] at hshort
  rw [fallbackAccount, memberAccount, hlong.account_applyFallbackChain, applyMemberChain,
    hshort.account_member]
  refine ⟨?_, hends, ?_⟩
  · change a.result.map latestTruthy = (b.result.map fun _ => ()).map fun _ => _
    rw [hresult]
    cases b.result <;> rfl
  · change turns (steps ++ (_ ++ [] ++ a.steps)) = _ ++ turns (_ ++ [] ++ b.steps)
    rw [turns_append, hturns, turns_append, turns_append, hsame, turns_append, turns_append,
      turns_opening, turns_opening, List.zipIdx_map, List.map_reverse]

/-- The two disciplines over a list of member decorators of the library. A fallback chain yields undefined
and does nothing if there is no `provide` in the list. Otherwise it comes, once past those below the
bottommost `provide`, to the same decorators as a member chain over the list from there up, and ends as
that does, whatever else the two worlds share. -/
theorem applyFallbackChain_edits (list : List MemberEdit) (w : World σ) :
    ((fallbackAccount host depth target name list w).result = .ok .undefined ∧
        (fallbackAccount host depth target name list w).world = w ↔
      ∀ d ∈ list, d.edit ≠ .provide) ∧
    ∀ above p below cells handle, list = above ++ p :: below → p.edit = .provide →
      (∀ d ∈ below, d.edit ≠ .provide) →
      (w.withCells cells).heap.content handle = .ordinary .undefined →
      (fallbackAccount host depth target name list w).result =
          (memberAccount host depth target name handle (above ++ [p]) (w.withCells cells)).result.map
            (fun _ => .descriptor ⟨w.heap.cells.size⟩) ∧
        (fallbackAccount host depth target name list w).world.Twins ⟨w.heap.cells.size⟩
          (memberAccount host depth target name handle (above ++ [p]) (w.withCells cells)).world
          handle ∧
        turns (fallbackAccount host depth target name list w).steps =
          (((below.map MemberEdit.decorator).zipIdx (above.length + 1)).reverse) ++
            turns (memberAccount host depth target name handle (above ++ [p])
              (w.withCells cells)).steps := by
  refine ⟨⟨fun ⟨hresult, _⟩ => ?_, fun hlist => fallbackAccount_skipped host depth target name hlist w⟩,
    ?_⟩
  · by_contra hprovide
    have hfound : (list.reverse.find? (·.edit = .provide)).isSome = true := by
      simpa using hprovide
    obtain ⟨p, hfind⟩ := Option.isSome_iff_exists.mp hfound
    obtain ⟨hp, below, above, hsplit, hbelow⟩ := List.find?_eq_some_iff_append.mp hfind
    have hlist : list = above.reverse ++ p :: below.reverse := by
      rw [← List.reverse_reverse list, hsplit]
      simp
    have hcontent : (w.withCells #[.ordinary .undefined]).heap.content ⟨0⟩ = .ordinary .undefined := rfl
    have hbelow' : ∀ d ∈ below.reverse, d.edit ≠ .provide := by simpa using hbelow
    obtain ⟨hsame, -⟩ := fallbackAccount_provided host depth target name above.reverse below.reverse
      (of_decide_eq_true hp) hbelow' hcontent
    rw [← hlist, hresult] at hsame
    generalize (memberAccount host depth target name ⟨0⟩ (above.reverse ++ [p])
      (w.withCells #[.ordinary .undefined])).result = result at hsame
    cases result <;> cases hsame
  · rintro above p below cells handle rfl hp hbelow hcontent
    exact fallbackAccount_provided host depth target name above below hp hbelow hcontent

end

def provisionWorld : World Unit :=
  ⟨{ objects := #[{ kind := .function (.constant "size" .null) }], memos := #[{}] }, ()⟩

def wrappedAbove : List MemberEdit :=
  [⟨"@readonly", .readonly, []⟩, ⟨"@memoize", .memoize ⟨0⟩, []⟩]

def provision : MemberEdit := ⟨"@provide", .provide, [.object ⟨0⟩]⟩

def skippedBelow : List MemberEdit := [⟨"@deprecate", .deprecated, []⟩]

theorem applyFallbackChain_edits_provision :
    (provisionWorld.withCells #[.ordinary .undefined]).heap.content ⟨0⟩ = .ordinary .undefined ∧
      (∀ d ∈ skippedBelow, d.edit ≠ .provide) ∧
      (fallbackAccount Host.none 0 ⟨.object, ⟨0⟩⟩ "size" (wrappedAbove ++ provision :: skippedBelow)
        provisionWorld).result = .ok (.descriptor ⟨0⟩) ∧
      (fallbackAccount Host.none 0 ⟨.object, ⟨0⟩⟩ "size" (wrappedAbove ++ provision :: skippedBelow)
        provisionWorld).world.heap.content ⟨0⟩ = .data (.object ⟨1⟩) false true true ∧
      turns (fallbackAccount Host.none 0 ⟨.object, ⟨0⟩⟩ "size"
          (wrappedAbove ++ provision :: skippedBelow) provisionWorld).steps =
        [(⟨"@deprecate", .edit .deprecated, []⟩, 3), (⟨"@provide", .edit .provide, [.object ⟨0⟩]⟩, 2),
          (⟨"@memoize", .edit (.memoize ⟨0⟩), []⟩, 1), (⟨"@readonly", .edit .readonly, []⟩, 0)] := by
  have hbelow : ∀ d ∈ skippedBelow, d.edit ≠ .provide := by simp [skippedBelow]
  obtain ⟨hresult, htwins, hturns⟩ := (applyFallbackChain_edits Host.none 0 ⟨.object, ⟨0⟩⟩ "size"
    (wrappedAbove ++ provision :: skippedBelow) provisionWorld).2 wrappedAbove provision skippedBelow
    #[.ordinary .undefined] ⟨0⟩ rfl rfl hbelow rfl
  exact ⟨rfl, hbelow, hresult.trans rfl, htwins.content.trans rfl, hturns.trans rfl⟩

end Decoration
