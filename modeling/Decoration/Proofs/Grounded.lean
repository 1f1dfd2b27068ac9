import Decoration.Proofs.Lineage
import Decoration.Proofs.Memoized
import Decoration.Proofs.Redefinition
import Decoration.Proofs.Renaming

/-! Heaps in which every reference leads to an object that is there and prototypes are older than what
inherits from them, and the actions that keep them so. -/

namespace Decoration

variable {σ ε ε' α β : Type} {n m : Nat}

def ObjectId.Within (n : Nat) (id : ObjectId) : Prop := id.index < n

theorem ObjectId.Within.mono {id : ObjectId} (h : id.Within n) (hle : n ≤ m) : id.Within m :=
  Nat.lt_of_lt_of_le h hle

namespace Value

theorem within_object {id : ObjectId} (h : id.Within n) : (object id).Within n := by
  intro other hother
  cases hother
  exact h

theorem within_of_object? {v : Value} (h : v.object? = none) : v.Within n := by
  rintro id rfl
  cases h

@[simp] theorem within_string (s : String) : (string s).Within n := within_of_object? rfl

@[simp] theorem within_descriptor (handle : Handle) : (descriptor handle).Within n :=
  within_of_object? rfl

theorem monotone_within : Monotone Value.Within := fun _ _ hle _ hv => hv.mono hle

end Value

namespace Descriptor

def values : Descriptor → List Value
  | data v .. => [v]
  | accessor g s .. => g.toList ++ s.toList

def Within (n : Nat) (d : Descriptor) : Prop := ∀ v ∈ d.values, v.Within n

variable {d : Descriptor} {v : Value} {g s : Option Value} {w e c : Bool}

theorem Within.mono (h : d.Within n) (hle : n ≤ m) : d.Within m := fun v hv => (h v hv).mono hle

theorem Within.of_values {d' : Descriptor} (h : d.Within n) (hvalues : d'.values = d.values) :
    d'.Within n := by
  rw [Within, hvalues]
  exact h

theorem within_data : (data v w e c).Within n ↔ v.Within n := by simp [Within, values]

theorem within_accessor :
    (accessor g s e c).Within n ↔ (∀ v ∈ g, v.Within n) ∧ ∀ v ∈ s, v.Within n := by
  simp [Within, values, or_imp, forall_and]

theorem values_setWritable (flag : Bool) (d : Descriptor) : (d.setWritable flag).values = d.values := by
  cases d <;> rfl

theorem values_setEnumerable (flag : Bool) (d : Descriptor) :
    (d.setEnumerable flag).values = d.values := by
  cases d <;> rfl

theorem values_setConfigurable (flag : Bool) (d : Descriptor) :
    (d.setConfigurable flag).values = d.values := by
  cases d <;> rfl

theorem Within.setValue (h : d.Within n) (hv : v.Within n) : (d.setValue v).Within n := by
  cases d with
  | data => exact within_data.mpr hv
  | accessor => exact h

end Descriptor

namespace Memo

def Within (n : Nat) (table : Memo) : Prop := ∀ entry ∈ table.results, entry.2.Within n

variable {table : Memo} {key : MemoKey} {v : Value}

theorem Within.mono (h : table.Within n) (hle : n ≤ m) : table.Within m :=
  fun entry hentry => (h entry hentry).mono hle

theorem Within.find? (h : table.Within n) (hv : table.find? key = some v) : v.Within n := by
  obtain ⟨before, after, hresults, -⟩ := List.lookup_eq_some_iff.mp hv
  have hmem : (key, v) ∈ table.results := by simp [hresults]
  exact h _ hmem

theorem Within.insert (h : table.Within n) (hv : v.Within n) : (table.insert key v).Within n := by
  intro entry hentry
  rcases List.mem_cons.mp hentry with rfl | hentry
  · exact hv
  · exact h entry (List.mem_of_mem_filter hentry)

end Memo

namespace Heap

/-- A prototype was there before the object, and functions, properties, shared descriptors and memo tables
hold nothing but objects of the heap. -/
structure Grounded (h : Heap) : Prop where
  prototype : ∀ id p, (h.object id).prototype = some p → p.index < id.index
  capability : ∀ id c, (h.object id).capability? = some c → c.Within h.objects.size
  own : ∀ id key d, h.own? id key = some d → d.Within h.objects.size
  content : ∀ handle, (h.content handle).Within h.objects.size
  memo : ∀ id, (h.memo id).Within h.objects.size

namespace Grounded

variable {h h' : Heap} {id : ObjectId} {key : String} {o : Object} {d : Descriptor} {v : Value}

theorem call (g : h.Grounded) {c : Capability} (hc : h.capability? v = some c) :
    c.Within h.objects.size := by
  cases v with
  | object id => exact g.capability id c hc
  | _ => cases hc

theorem find? (g : h.Grounded) (hd : h.find? id key = some d) : d.Within h.objects.size := by
  obtain ⟨rest, hl⟩ := find?_eq_some_iff.mp hd
  obtain ⟨o, -, hown⟩ := hl.exists_owner
  exact g.own o key d hown

theorem blank (tables : Nat) : Grounded { memos := Array.replicate tables {} } where
  prototype _ _ hp := nomatch hp
  capability _ _ hc := nomatch hc
  own _ _ _ hd := nomatch hd
  content _ := Descriptor.within_data.mpr (Value.within_of_object? rfl)
  memo id := by
    have hresults : (Heap.memo { memos := Array.replicate tables {} } id).results = [] := by
      rw [Heap.memo, Array.getElem?_replicate]
      split <;> rfl
    rw [Memo.Within, hresults]
    exact List.forall_mem_nil _

theorem addObject (g : h.Grounded) (hempty : o.properties = {})
    (hprototype : ∀ p ∈ o.prototype, p.Within h.objects.size)
    (hcapability : ∀ c ∈ o.capability?, c.Within h.objects.size) : (h.addObject o).2.Grounded := by
  have hsize := (h.grows_addObject o).size
  refine ⟨fun id p hp => ?_, fun id c hc => ?_, fun id key d hd => ?_,
    fun handle => (g.content handle).mono hsize, fun id => (g.memo id).mono hsize⟩
  · rw [object_addObject] at hp
    split at hp
    · rename_i hid
      rw [hid]
      exact hprototype p hp
    · exact g.prototype id p hp
  · rw [object_addObject] at hc
    split at hc
    · exact (hcapability c hc).mono hsize
    · exact (g.capability id c hc).mono hsize
  · rw [own?, object_addObject] at hd
    split at hd
    · rw [hempty] at hd
      cases hd
    · exact (g.own id key d hd).mono hsize

theorem addObject_alone (g : h.Grounded) (hempty : o.properties = {}) (hprototype : o.prototype = none)
    (hcapability : o.capability? = none) : (h.addObject o).2.Grounded :=
  g.addObject hempty (by simp [hprototype]) (by simp [hcapability])

theorem setObject (g : h.Grounded) (hkind : o.kind = (h.object id).kind)
    (hprototype : o.prototype = (h.object id).prototype)
    (hown : ∀ key d, o.properties.find? key = some d → d.Within h.objects.size) :
    (h.setObject id o).Grounded := by
  have hsize := h.size_setObject id o
  refine ⟨fun other p hp => ?_, fun other c hc => ?_, fun other key d hd => ?_,
    fun handle => ?_, fun memo => ?_⟩
  · rcases h.object_setObject_or id o other with hsame | ⟨rfl, hsame⟩
    · rw [hsame] at hp
      exact g.prototype other p hp
    · rw [hsame, hprototype] at hp
      exact g.prototype other p hp
  · rw [hsize]
    rcases h.object_setObject_or id o other with hsame | ⟨rfl, hsame⟩
    · rw [hsame] at hc
      exact g.capability other c hc
    · rw [hsame, Object.capability?, hkind] at hc
      exact g.capability other c hc
  · rw [hsize]
    rw [own?] at hd
    rcases h.object_setObject_or id o other with hsame | ⟨rfl, hsame⟩
    · rw [hsame] at hd
      exact g.own other key d hd
    · rw [hsame] at hd
      exact hown key d hd
  · rw [hsize]
    exact g.content handle
  · rw [hsize]
    exact g.memo memo

theorem insert (g : h.Grounded) (hd : d.Within h.objects.size) :
    (h.setObject id ((h.object id).insert key d)).Grounded := by
  refine g.setObject rfl rfl fun other d' hd' => ?_
  rw [Object.insert, Properties.find?_insert] at hd'
  split at hd'
  · cases hd'
    exact hd
  · exact g.own id other d' hd'

theorem define (g : h.Grounded) (hd : d.Within h.objects.size) (hdefine : h.define id key d = .ok h') :
    h'.Grounded ∧ h'.objects.size = h.objects.size := by
  obtain ⟨-, rfl⟩ := define_eq_ok.mp hdefine
  exact ⟨g.insert hd, h.size_setObject _ _⟩

theorem preventExtensions (g : h.Grounded) (id : ObjectId) : (h.preventExtensions id).Grounded :=
  g.setObject rfl rfl fun key d hd => g.own id key d hd

theorem setContent (g : h.Grounded) {handle : Handle} (hd : d.Within h.objects.size) :
    (h.setContent handle d).Grounded := by
  refine ⟨g.prototype, g.capability, g.own, fun other => ?_, g.memo⟩
  rcases Nat.lt_or_ge handle.index h.cells.size with hhandle | hhandle
  · rw [content_setContent hhandle]
    split
    · exact hd
    · exact g.content other
  · have hsame : h.setContent handle d = h := by
      rw [Heap.setContent, Array.setIfInBounds_eq_of_size_le hhandle]
    rw [hsame]
    exact g.content other

theorem addCell (g : h.Grounded) (hd : d.Within h.objects.size) : (h.addCell d).2.Grounded := by
  refine ⟨g.prototype, g.capability, g.own, fun other => ?_, g.memo⟩
  rw [content_addCell]
  split
  · exact hd
  · exact g.content other

theorem setMemo (g : h.Grounded) {id : MemoId} {table : Memo} (ht : table.Within h.objects.size) :
    (h.setMemo id table).Grounded := by
  refine ⟨g.prototype, g.capability, g.own, g.content, fun other => ?_⟩
  rcases Nat.lt_or_ge id.index h.memos.size with hid | hid
  · rw [memo_setMemo hid]
    split
    · exact ht
    · exact g.memo other
  · have hsame : h.setMemo id table = h := by
      rw [Heap.setMemo, Array.setIfInBounds_eq_of_size_le hid]
    rw [hsame]
    exact g.memo other

end Grounded
end Heap

structure Run.Grounds (Q : Nat → α → Prop) (w : World σ) (r : Run σ ε α) : Prop where
  events : ∀ moment ∈ r.events, moment.heap.Grounded
  heap : r.world.heap.Grounded
  size : w.heap.objects.size ≤ r.world.heap.objects.size
  result : ∀ a, r.outcome = .ok a → Q r.world.heap.objects.size a

theorem Run.Grounds.heap_bind {Q : Nat → α → Prop} {f : Heap → Action σ ε α} {w : World σ}
    (h : (f w.heap w).Grounds Q w) : ((Action.heap >>= f) w).Grounds Q w := h

def Action.Grounds (n : Nat) (Q : Nat → α → Prop) (x : Action σ ε α) : Prop :=
  ∀ w, w.heap.Grounded → n ≤ w.heap.objects.size → (x w).Grounds Q w

def Action.Free : Nat → α → Prop := fun _ _ => True

namespace Action.Grounds

variable {Q Q' : Nat → α → Prop} {R : Nat → β → Prop} {x : Action σ ε α}

theorem mono (hx : x.Grounds n Q) (hle : n ≤ m) : x.Grounds m Q :=
  fun w hw hm => hx w hw (Nat.le_trans hle hm)

theorem weaken (hx : x.Grounds n Q) (hle : ∀ k a, Q k a → Q' k a) : x.Grounds n Q' := by
  intro w hw hn
  have h := hx w hw hn
  exact ⟨h.events, h.heap, h.size, fun a ha => hle _ a (h.result a ha)⟩

theorem still {w : World σ} {outcome : Outcome ε α} (hw : w.heap.Grounded)
    (h : ∀ a, outcome = .ok a → Q w.heap.objects.size a) : Run.Grounds Q w ⟨outcome, w, []⟩ :=
  ⟨List.forall_mem_nil _, hw, Nat.le_refl _, h⟩

protected theorem pure {a : α} (h : ∀ k, n ≤ k → Q k a) : Grounds n Q (pure a : Action σ ε α) := by
  intro w hw hn
  refine still hw fun b hb => ?_
  cases hb
  exact h _ hn

protected theorem fail (e : ε) : Grounds n Q (fail e : Action σ ε α) :=
  fun _ hw _ => still hw fun _ ha => nomatch ha

protected theorem exhausted : Grounds n Q (exhausted : Action σ ε α) :=
  fun _ hw _ => still hw fun _ ha => nomatch ha

protected theorem emit (e : Event) : Grounds n Free (emit e : Action σ ε Unit) := by
  refine fun w hw hn => ⟨fun moment hmoment => ?_, hw, Nat.le_refl _, fun _ _ => trivial⟩
  rw [List.mem_singleton.mp hmoment]
  exact hw

protected theorem report (r : Report) : Grounds n Free (report r : Action σ ε Unit) :=
  Grounds.emit (.report r)

protected theorem ofExcept {result : Except ε α} (h : ∀ a, result = .ok a → ∀ k, n ≤ k → Q k a) :
    Grounds n Q (ofExcept result : Action σ ε α) := by
  cases result with
  | ok a => exact Grounds.pure (h a rfl)
  | error e => exact Grounds.fail e

protected theorem onHeap {f : Heap → α × Heap} (h : ∀ heap : Heap, heap.Grounded →
    n ≤ heap.objects.size → (f heap).2.Grounded ∧ heap.objects.size ≤ (f heap).2.objects.size ∧
      Q (f heap).2.objects.size (f heap).1) : Grounds n Q (onHeap f : Action σ ε α) := by
  intro w hw hn
  obtain ⟨hheap, hsize, hresult⟩ := h w.heap hw hn
  refine ⟨List.forall_mem_nil _, hheap, hsize, fun a ha => ?_⟩
  cases ha
  exact hresult

protected theorem modifyHeap {f : Heap → Heap} (h : ∀ heap : Heap, heap.Grounded →
    n ≤ heap.objects.size → (f heap).Grounded ∧ heap.objects.size ≤ (f heap).objects.size) :
    Grounds n Free (modifyHeap f : Action σ ε Unit) :=
  Grounds.onHeap fun heap g hn => ⟨(h heap g hn).1, (h heap g hn).2, trivial⟩

theorem addObject {o : Object} (hempty : o.properties = {}) (hprototype : ∀ p ∈ o.prototype, p.Within n)
    (hcapability : ∀ c ∈ o.capability?, c.Within n) :
    Grounds n ObjectId.Within (onHeap (·.addObject o) : Action σ ε ObjectId) := by
  refine Grounds.onHeap fun h g hn => ⟨?_, (h.grows_addObject o).size, ?_⟩
  · exact g.addObject hempty (fun p hp => (hprototype p hp).mono hn)
      fun c hc => (hcapability c hc).mono hn
  · simp [ObjectId.Within, Heap.addObject]

theorem addCell {d : Descriptor} (hd : d.Within n) :
    Grounds n Free (onHeap (·.addCell d) : Action σ ε Handle) :=
  Grounds.onHeap fun _ g hn => ⟨g.addCell (hd.mono hn), Nat.le_refl _, trivial⟩

theorem setContent (handle : Handle) {d : Descriptor} (hd : d.Within n) :
    Grounds n Free (modifyHeap (·.setContent handle d) : Action σ ε Unit) :=
  Grounds.modifyHeap fun _ g hn => ⟨g.setContent (hd.mono hn), Nat.le_refl _⟩

theorem setMemo (memo : MemoId) {table : Memo} (ht : table.Within n) :
    Grounds n Free (modifyHeap (·.setMemo memo table) : Action σ ε Unit) :=
  Grounds.modifyHeap fun _ g hn => ⟨g.setMemo (ht.mono hn), Nat.le_refl _⟩

protected theorem bind {f : α → Action σ ε β} (hx : x.Grounds n Q)
    (hf : ∀ k a, n ≤ k → Q k a → (f a).Grounds k R) : (x >>= f).Grounds n R := by
  intro w hw hn
  have h := hx w hw hn
  change (Action.bind x f w).Grounds R w
  unfold Action.bind
  generalize x w = r at h ⊢
  rcases r with ⟨a | e | _, w', events⟩
  case ok =>
    have hrest := hf _ a (Nat.le_trans hn h.size) (h.result a rfl) w' h.heap (Nat.le_refl _)
    exact ⟨List.forall_mem_append.mpr ⟨h.events, hrest.events⟩, hrest.heap,
      Nat.le_trans h.size hrest.size, hrest.result⟩
  case failed => exact ⟨h.events, h.heap, h.size, fun _ ha => nomatch ha⟩
  case exhausted => exact ⟨h.events, h.heap, h.size, fun _ ha => nomatch ha⟩

theorem heap_bind {f : Heap → Action σ ε β}
    (hf : ∀ h : Heap, h.Grounded → n ≤ h.objects.size → (f h).Grounds h.objects.size R) :
    (heap >>= f).Grounds n R :=
  fun w hw hn => hf w.heap hw hn w hw (Nat.le_refl _)

protected theorem map {f : α → β} (hx : x.Grounds n Q)
    (hf : ∀ k l a, k ≤ l → Q k a → R l (f a)) : (f <$> x).Grounds n R := by
  rw [map_eq_pure_bind]
  exact hx.bind fun k a _ ha => Grounds.pure fun l hl => hf k l a hl ha

protected theorem mapFault (f : Heap → ε → ε') (hx : x.Grounds n Q) : (x.mapFault f).Grounds n Q := by
  intro w hw hn
  have h := hx w hw hn
  unfold mapFault
  generalize x w = r at h ⊢
  rcases r with ⟨a | e | _, w', events⟩
  case ok =>
    refine ⟨h.events, h.heap, h.size, fun b hb => ?_⟩
    cases hb
    exact h.result a rfl
  case failed => exact ⟨h.events, h.heap, h.size, fun _ ha => nomatch ha⟩
  case exhausted => exact ⟨h.events, h.heap, h.size, fun _ ha => nomatch ha⟩

theorem checked {p : Prop} [Decidable p] {e : ε} {rest : Unit → Action σ ε α}
    (h : ∀ u, (rest u).Grounds n Q) : Grounds n Q (if p then fail e >>= rest else rest ()) := by
  split
  · exact (Grounds.fail (Q := Free) e).bind fun k u hk _ => (h u).mono hk
  · exact h ()

protected theorem mapM (hmono : Monotone R) {f : α → Action σ ε β} {list : List α}
    (hf : ∀ a ∈ list, (f a).Grounds n R) : (list.mapM f).Grounds n fun k bs => ∀ b ∈ bs, R k b := by
  induction list with
  | nil => exact Grounds.pure fun _ _ => List.forall_mem_nil _
  | cons a rest ih =>
    obtain ⟨hfirst, hrest⟩ := List.forall_mem_cons.mp hf
    rw [List.mapM_cons]
    refine hfirst.bind fun k b hk hb => ((ih hrest).mono hk).bind fun l bs hl hbs => ?_
    refine Grounds.pure fun m hm => List.forall_mem_cons.mpr ⟨?_, fun b hb => ?_⟩
    · exact hmono (Nat.le_trans hl hm) b hb
    · exact hmono hm b (hbs b hb)

theorem mapM_option (hmono : Monotone R) {f : α → Action σ ε β} {o : Option α}
    (hf : ∀ a ∈ o, (f a).Grounds n R) : (o.mapM f).Grounds n fun k found => ∀ b ∈ found, R k b := by
  cases o with
  | none => exact Grounds.pure fun _ _ _ hb => nomatch hb
  | some a =>
    refine (hf a rfl).map fun k l b hl hb c hc => ?_
    cases hc
    exact hmono hl b hb

end Action.Grounds
end Decoration
