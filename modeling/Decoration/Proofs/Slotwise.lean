import Decoration.Proofs.Grouping
import Decoration.Proofs.Local
import Decoration.Proofs.Undecorated

/-! One member of a class, evaluated in two worlds. It writes to its slot alone, and what it leaves
there follows from what it finds there. -/

namespace Decoration

open Decoration.Action

variable {σ ε : Type} {n : Nat} {ρ : Renaming}

inductive UnitSource.Match (ρ : Renaming) : UnitSource → UnitSource → Prop
  | value {v v' : Value} (value : v.Match ρ v') : Match ρ (.value v) (.value v')
  | accessor {g g' s s' : Option Value} (getter : Option.Rel (Value.Match ρ) g g')
    (setter : Option.Rel (Value.Match ρ) s s') : Match ρ (.accessor g s) (.accessor g' s')

theorem UnitSource.Match.descriptor {made made' : UnitSource} (h : made.Match ρ made')
    (config : Config) : (made.descriptor config).Match ρ (made'.descriptor config) := by
  cases h with
  | value value => exact .data value
  | accessor getter setter => exact .accessor getter setter

def ElementKind.Within (n : Nat) : ElementKind → Prop
  | method body | getter body | setter body => body.Within n
  | field _ => True

structure ClassElement.Independent (caller : Caller σ) (env : Environment)
    (S : σ → Array Memo → Prop) (w : World σ) (e : ClassElement) : Prop where
  settled : ∀ x ∈ e.expressions, x.Settled caller env S w
  decorators : ∀ written ∈ e.decorators, ∀ d w',
    (Decorator.collectOne caller env written).Yields w d w' → d.Local caller S w
  body : e.kind.Within w.heap.objects.size

namespace ElementUnit

structure Independent (caller : Caller σ) (env : Environment) (S : σ → Array Memo → Prop)
    (w : World σ) (u : ElementUnit) : Prop where
  settled : ∀ written ∈ u.decorators, ∀ x ∈ written.expressions, x.Settled caller env S w
  decorators : ∀ written ∈ u.decorators, ∀ d w',
    (Decorator.collectOne caller env written).Yields w d w' → d.Local caller S w
  initializer : ∀ x, u.shape = .field (some x) → x.Settled caller env S w
  bodies : ∀ kind ∈ u.shape.kinds, kind.Within w.heap.objects.size

variable {caller : Caller σ} {env : Environment} {S : σ → Array Memo → Prop}
  {w v v' v₁ v₁' : World σ} {u : ElementUnit}

theorem Independent.local_of_collect (hu : u.Independent caller env S w)
    (hstart : S w.host w.heap.memos) (hl : w.Later S v) {ds : List Decorator}
    (h : (Decorator.collect caller env u.decorators).Yields v ds v₁) :
    ∀ d ∈ ds, d.Local caller S w := by
  intro d hd
  obtain ⟨written, hmem, w', hw'⟩ :=
    Decorator.exists_of_mem_collect hu.settled hstart hl h hd
  exact hu.decorators written hmem d w' hw'

theorem edits_function {c : Capability} {f : ObjectId} (handle : Handle)
    (h : (c.function : Action σ ε ObjectId).Yields v f v₁) (hidden : S v.host v.heap.memos) :
    v.heap.Edits handle v₁.heap ∧ S v₁.host v₁.heap.memos := by
  obtain ⟨-, rfl⟩ := yields_onHeap.mp h
  exact ⟨Heap.edits_of_cells (v.heap.grows_addObject _) rfl handle, hidden⟩

theorem edits_half {half : Option Capability} {f : Option ObjectId} (handle : Handle)
    (h : (half.mapM Capability.function : Action σ ε (Option ObjectId)).Yields v f v₁)
    (hidden : S v.host v.heap.memos) :
    v.heap.Edits handle v₁.heap ∧ S v₁.host v₁.heap.memos := by
  cases half with
  | none =>
    obtain ⟨-, rfl⟩ := yields_pure.mp h
    exact ⟨Heap.edits_of_cells (.refl _) rfl handle, hidden⟩
  | some c =>
    obtain ⟨f, hf, -⟩ := yields_map.mp h
    exact edits_function handle hf hidden

theorem Independent.edits_source (hu : u.Independent caller env S w) (hl : w.Later S v)
    {made : UnitSource} (handle : Handle) (h : (u.source caller env).Yields v made v₁) :
    v.heap.Edits handle v₁.heap ∧ S v₁.host v₁.heap.memos := by
  have hnothing : v.heap.Edits handle v.heap := Heap.edits_of_cells (.refl _) rfl handle
  unfold ElementUnit.source at h
  split at h
  · obtain ⟨f, v₂, hf, h⟩ := yields_bind.mp h
    obtain ⟨-, rfl⟩ := yields_pure.mp h
    exact edits_function handle hf hl.hidden
  · obtain ⟨-, rfl⟩ := yields_pure.mp h
    exact ⟨hnothing, hl.hidden⟩
  · rename_i initializer hshape
    obtain ⟨value, v₂, hvalue, h⟩ := yields_bind.mp h
    obtain ⟨-, rfl⟩ := yields_pure.mp h
    have hstill := (hu.initializer initializer hshape).evaluate.still hl (yields_mapFault.mp hvalue)
    exact ⟨hstill.edits handle, hstill.hidden⟩
  · obtain ⟨f, v₂, hf, h⟩ := yields_bind.mp h
    obtain ⟨g, v₃, hg, h⟩ := yields_bind.mp h
    obtain ⟨-, rfl⟩ := yields_pure.mp h
    obtain ⟨he, hidden⟩ := edits_half handle hf hl.hidden
    obtain ⟨he', hidden'⟩ := edits_half handle hg hidden
    exact ⟨he.trans he', hidden'⟩

theorem leads_half {half : Option Capability} {f : Option ObjectId} (j : ρ.Joins n v.heap v'.heap)
    (hwithin : ∀ c, half = some c → c.Within n)
    (h : (half.mapM Capability.function : Action σ ε (Option ObjectId)).Yields v f v₁) :
    ∃ f' v₁' ρ', (half.mapM Capability.function : Action σ ε (Option ObjectId)).Yields v' f' v₁' ∧
      ρ.Leads ρ' n v.heap v'.heap v₁.heap v₁'.heap ∧
      Option.Rel (Value.Match ρ') (f.map .object) (f'.map .object) := by
  cases half with
  | none =>
    obtain ⟨rfl, rfl⟩ := yields_pure.mp h
    exact ⟨none, v', ρ, yields_pure.mpr ⟨rfl, rfl⟩, .refl j, .none⟩
  | some c =>
    obtain ⟨f, hf, rfl⟩ := yields_map.mp h
    obtain ⟨f', v₁', ρ', hf', hleads, hrelated⟩ :=
      Capability.leads_function j ((hwithin c rfl).match_self j.fixed) hf
    exact ⟨some f', v₁', ρ', yields_map.mpr ⟨f', hf', rfl⟩, hleads, .some (.object hrelated)⟩

theorem Independent.leads_source (hu : u.Independent caller env S w) (hl : w.Later S v)
    (hl' : w.Later S v') (hn : w.heap.objects.size ≤ n) (j : ρ.Joins n v.heap v'.heap)
    {made : UnitSource} (h : (u.source caller env).Yields v made v₁) :
    ∃ made' v₁' ρ', (u.source caller env).Yields v' made' v₁' ∧
      ρ.Leads ρ' n v.heap v'.heap v₁.heap v₁'.heap ∧ made.Match ρ' made' := by
  have hbodies := hu.bodies
  unfold ElementUnit.source at h ⊢
  cases hshape : u.shape with
  | method body =>
    rw [hshape] at h hbodies
    obtain ⟨f, v₂, hf, h⟩ := yields_bind.mp h
    obtain ⟨rfl, rfl⟩ := yields_pure.mp h
    have hbody : body.Within w.heap.objects.size := hbodies _ List.mem_cons_self
    obtain ⟨f', v₁', ρ', hf', hleads, hrelated⟩ :=
      Capability.leads_function j ((hbody.mono hn).match_self j.fixed) hf
    exact ⟨_, v₁', ρ', yields_bind.mpr ⟨f', v₁', hf', yields_pure.mpr ⟨rfl, rfl⟩⟩, hleads,
      .value (.object hrelated)⟩
  | field initializer =>
    rw [hshape] at h
    cases initializer with
    | none =>
      obtain ⟨rfl, rfl⟩ := yields_pure.mp h
      exact ⟨_, v', ρ, yields_pure.mpr ⟨rfl, rfl⟩, .refl j, .value (.plain rfl)⟩
    | some x =>
      obtain ⟨value, v₂, hvalue, h⟩ := yields_bind.mp h
      obtain ⟨rfl, rfl⟩ := yields_pure.mp h
      obtain ⟨v₁', hvalue', hleads, hmatch⟩ :=
        (hu.initializer x hshape).leads hl hl' hn j (yields_mapFault.mp hvalue)
      exact ⟨_, v₁', ρ,
        yields_bind.mpr ⟨value, v₁', yields_mapFault.mpr hvalue', yields_pure.mpr ⟨rfl, rfl⟩⟩,
        hleads, .value hmatch⟩
  | accessor getter setter =>
    rw [hshape] at h hbodies
    obtain ⟨f, v₂, hf, h⟩ := yields_bind.mp h
    obtain ⟨g, v₃, hg, h⟩ := yields_bind.mp h
    obtain ⟨rfl, rfl⟩ := yields_pure.mp h
    have hgetter : ∀ c, getter = some c → c.Within n := by
      rintro c rfl
      exact Capability.Within.mono (hbodies (.getter c) List.mem_cons_self) hn
    have hsetter : ∀ c, setter = some c → c.Within n := by
      rintro c rfl
      exact Capability.Within.mono
        (hbodies (.setter c) (List.mem_append_right _ List.mem_cons_self)) hn
    obtain ⟨f', v₂', ρ₁, hf', hleads, hmatch⟩ := leads_half j hgetter hf
    obtain ⟨g', v₃', ρ₂, hg', hleads', hmatch'⟩ := leads_half hleads.joins hsetter hg
    exact ⟨_, v₃', ρ₂,
      yields_bind.mpr ⟨f', v₂', hf', yields_bind.mpr ⟨g', v₃', hg', yields_pure.mpr ⟨rfl, rfl⟩⟩⟩,
      hleads.trans hleads', .accessor (Value.match_half_mono hleads'.old hmatch) hmatch'⟩

end ElementUnit

namespace Heap

variable {id : ObjectId} {key : String} {h h' h'' : Heap}

/-- Of all that was there, at most what one object holds under one key has changed. -/
structure DefinesOnly (id : ObjectId) (key : String) (h h' : Heap) : Prop where
  but : h.GrowsBut id h'
  kind : (h'.object id).kind = (h.object id).kind
  others : ∀ other, other ≠ key → h'.own? id other = h.own? id other

theorem Grows.definesOnly (g : h.Grows h') (hid : id.index < h.objects.size) (key : String) :
    h.DefinesOnly id key h' where
  but := g.but id
  kind := congrArg Object.kind (g.same id hid)
  others other _ := by rw [own?, own?, g.same id hid]

theorem DefinesOnly.trans (first : h.DefinesOnly id key h') (second : h'.DefinesOnly id key h'') :
    h.DefinesOnly id key h'' :=
  ⟨first.but.trans second.but, second.kind.trans first.kind,
    fun other hne => (second.others other hne).trans (first.others other hne)⟩

theorem DefinesOnly.keepsKinds (hd : h.DefinesOnly id key h') : h.KeepsKinds h' := by
  refine ⟨hd.but.size, fun other hother => ?_⟩
  by_cases hne : other = id
  · rw [hne, hd.kind]
  · rw [hd.but.same other hother hne]

end Heap

theorem World.definesOnly_insert {w : World σ} {id : ObjectId} (hid : id.index < w.heap.objects.size)
    (key : String) (d : Descriptor) : w.heap.DefinesOnly id key (w.insert id key d).heap where
  but := Heap.growsBut_setObject _ _ _
  kind := by rw [World.object_insert_self hid, Object.insert]
  others other hne := by
    rw [Heap.own?, object_insert_self hid, Object.insert, Properties.find?_insert, if_neg hne,
      Heap.own?]

/-- A class that has been begun: the world before it, what may be kept beside its objects, and its two
objects, which are new. -/
structure Stage (σ : Type) where
  hidden : σ → Array Memo → Prop
  start : World σ
  kept : hidden start.host start.heap.memos
  pair : ClassPair
  base : Nat
  distinct : pair.constructor ≠ pair.prototype
  fresh : ∀ isStatic, start.heap.objects.size ≤ (pair.side isStatic).index
  start_le : start.heap.objects.size ≤ base

namespace Stage

variable {g : Stage σ} {name other : String} {isStatic b : Bool} {ρ' : Renaming}
  {v v' v₁ v₁' v₂ : World σ} {d d' : Descriptor}

theorem side_ne (g : Stage σ) (hb : b ≠ isStatic) : g.pair.side b ≠ g.pair.side isStatic := by
  cases b <;> cases isStatic
  · exact absurd rfl hb
  · exact g.distinct.symm
  · exact g.distinct
  · exact absurd rfl hb

structure Reached (g : Stage σ) (v : World σ) : Prop where
  later : g.start.Later g.hidden v
  size : g.base ≤ v.heap.objects.size
  extensible : ∀ isStatic, (v.heap.object (g.pair.side isStatic)).extensible = true

theorem Reached.bound (r : g.Reached v) (isStatic : Bool) :
    (g.pair.side isStatic).index < v.heap.objects.size := by
  rcases Nat.lt_or_ge (g.pair.side isStatic).index v.heap.objects.size with h | h
  · exact h
  · have hextensible := r.extensible isStatic
    rw [Heap.object_of_size_le h] at hextensible
    exact nomatch hextensible

theorem Reached.edits (r : g.Reached v) {handle : Handle}
    (fresh : g.start.heap.cells.size ≤ handle.index) (he : v.heap.Edits handle v₁.heap)
    (hidden : g.hidden v₁.host v₁.heap.memos) : g.Reached v₁ := by
  refine ⟨r.later.edits fresh he hidden, Nat.le_trans r.size he.grows.size, fun b => ?_⟩
  rw [he.grows.same _ (r.bound b)]
  exact r.extensible b

theorem Reached.insert (r : g.Reached v) (isStatic : Bool) (key : String) (d : Descriptor) :
    g.Reached (v.insert (g.pair.side isStatic) key d) := by
  have hdefines := World.definesOnly_insert (r.bound isStatic) key d
  refine ⟨⟨r.later.grows.trans_but (g.fresh isStatic) hdefines.but, r.later.cells, r.later.content,
    r.later.hidden⟩, Nat.le_trans r.size hdefines.but.size, fun b => ?_⟩
  by_cases hb : b = isStatic
  · rw [hb, World.object_insert_self (r.bound isStatic)]
    exact r.extensible isStatic
  · rw [hdefines.but.same _ (r.bound b) (g.side_ne hb)]
    exact r.extensible b

structure Steps (g : Stage σ) (name : String) (isStatic : Bool) (v v₁ : World σ) : Prop where
  reached : g.Reached v₁
  defines : v.heap.DefinesOnly (g.pair.side isStatic) name v₁.heap

theorem Steps.trans (first : g.Steps name isStatic v v₁) (second : g.Steps name isStatic v₁ v₂) :
    g.Steps name isStatic v v₂ := ⟨second.reached, first.defines.trans second.defines⟩

theorem Reached.steps_edits (r : g.Reached v) {handle : Handle}
    (fresh : g.start.heap.cells.size ≤ handle.index) (he : v.heap.Edits handle v₁.heap)
    (hidden : g.hidden v₁.host v₁.heap.memos) : g.Steps name isStatic v v₁ :=
  ⟨r.edits fresh he hidden, he.grows.definesOnly (r.bound isStatic) name⟩

theorem Reached.steps_insert (r : g.Reached v) (isStatic : Bool) (key : String) (d : Descriptor) :
    g.Steps key isStatic v (v.insert (g.pair.side isStatic) key d) :=
  ⟨r.insert isStatic key d, World.definesOnly_insert (r.bound isStatic) key d⟩

theorem Steps.own?_of_ne (s : g.Steps name isStatic v v₁) (r : g.Reached v)
    (hne : ¬(other = name ∧ b = isStatic)) :
    v₁.heap.own? (g.pair.side b) other = v.heap.own? (g.pair.side b) other := by
  by_cases hb : b = isStatic
  · rw [hb]
    exact s.defines.others other fun hname => hne ⟨hname, hb⟩
  · rw [Heap.own?, Heap.own?, s.defines.but.same _ (r.bound b) (g.side_ne hb)]

structure Mirrors (g : Stage σ) (name : String) (isStatic : Bool) (ρ : Renaming) (v v' : World σ) :
    Prop where
  left : g.Reached v
  right : g.Reached v'
  joins : ρ.Joins g.base v.heap v'.heap
  slot : Option.Rel (Descriptor.Match ρ) (v.heap.own? (g.pair.side isStatic) name)
    (v'.heap.own? (g.pair.side isStatic) name)

theorem Mirrors.leads (m : g.Mirrors name isStatic ρ v v') (r : g.Reached v₁) (r' : g.Reached v₁')
    (hleads : ρ.Leads ρ' g.base v.heap v'.heap v₁.heap v₁'.heap)
    (hown : v₁.heap.own? (g.pair.side isStatic) name = v.heap.own? (g.pair.side isStatic) name)
    (hown' : v₁'.heap.own? (g.pair.side isStatic) name = v'.heap.own? (g.pair.side isStatic) name) :
    g.Mirrors name isStatic ρ' v₁ v₁' := by
  refine ⟨r, r', hleads.joins, ?_⟩
  rw [hown, hown']
  exact Descriptor.match_own_mono hleads.old m.slot

theorem Mirrors.edits (m : g.Mirrors name isStatic ρ v v') {handle handle' : Handle}
    (fresh : g.start.heap.cells.size ≤ handle.index)
    (fresh' : g.start.heap.cells.size ≤ handle'.index) (he : v.heap.Edits handle v₁.heap)
    (he' : v'.heap.Edits handle' v₁'.heap) (hidden : g.hidden v₁.host v₁.heap.memos)
    (hidden' : g.hidden v₁'.host v₁'.heap.memos)
    (hleads : ρ.Leads ρ' g.base v.heap v'.heap v₁.heap v₁'.heap) :
    g.Mirrors name isStatic ρ' v₁ v₁' := by
  refine m.leads (m.left.edits fresh he hidden) (m.right.edits fresh' he' hidden') hleads ?_ ?_
  · rw [Heap.own?, Heap.own?, he.grows.same _ (m.left.bound isStatic)]
  · rw [Heap.own?, Heap.own?, he'.grows.same _ (m.right.bound isStatic)]

theorem Mirrors.insert (m : g.Mirrors name isStatic ρ v v') (hd : d.Match ρ d')
    (h : (v.heap.object (g.pair.side isStatic)).Accepts name d) :
    (v'.heap.object (g.pair.side isStatic)).Accepts name d' ∧
      ρ.Leads ρ g.base v.heap v'.heap (v.insert (g.pair.side isStatic) name d).heap
        (v'.insert (g.pair.side isStatic) name d').heap ∧
      g.Mirrors name isStatic ρ (v.insert (g.pair.side isStatic) name d)
        (v'.insert (g.pair.side isStatic) name d') := by
  have hleads : ρ.Leads ρ g.base v.heap v'.heap (v.insert (g.pair.side isStatic) name d).heap
      (v'.insert (g.pair.side isStatic) name d').heap := .keepsKinds m.joins
    (World.definesOnly_insert (m.left.bound isStatic) name d).keepsKinds
    (World.definesOnly_insert (m.right.bound isStatic) name d').keepsKinds
  refine ⟨h.of_match m.joins.functional (m.right.extensible isStatic) m.slot hd, hleads,
    m.left.insert isStatic name d, m.right.insert isStatic name d', hleads.joins, ?_⟩
  rw [World.own?_insert_self (m.left.bound isStatic), World.own?_insert_self (m.right.bound isStatic)]
  exact .some hd

end Stage

namespace Engine

variable {e : Engine σ} {g : Stage σ} {env : Environment} {u : ElementUnit} {target : Target}
  {name : String} {isStatic : Bool} {ds : List Decorator} {d d' start : Descriptor} {ρ : Renaming}
  {v v' v₁ : World σ}

theorem yields_startingDescriptor (hs : e.store = .ordinary σ) :
    (e.startingDescriptor target name d).Yields v start v₁ ↔ d = start ∧
      match e.config.engine.descriptorSource with
      | .synthesize => v = v₁
      | .readBack => (v.heap.object target.object).Accepts name d ∧
        v.insert target.object name d = v₁ := by
  unfold startingDescriptor
  rw [hs]
  cases e.config.engine.descriptorSource with
  | synthesize => exact yields_pure
  | readBack =>
    constructor
    · intro h
      obtain ⟨⟨⟩, v₂, hinstall, h⟩ := yields_bind.mp h
      obtain ⟨haccepts, rfl⟩ := Store.yields_install.mp hinstall
      obtain ⟨found, v₃, hfound, h⟩ := yields_bind.mp h
      obtain ⟨rfl, rfl⟩ := Store.yields_readBack.mp hfound
      obtain ⟨rfl, rfl⟩ := yields_pure.mp h
      rw [World.own?_insert_self (Heap.lt_size_of_accepts haccepts)]
      exact ⟨rfl, haccepts, rfl⟩
    · rintro ⟨rfl, haccepts, rfl⟩
      have hfound : (v.insert target.object name d).heap.own? target.object name = some d :=
        World.own?_insert_self (Heap.lt_size_of_accepts haccepts)
      exact yields_bind.mpr ⟨(), _, Store.yields_install.mpr ⟨haccepts, rfl⟩,
        yields_bind.mpr ⟨_, _, Store.yields_readBack.mpr ⟨hfound, rfl⟩, yields_pure.mpr ⟨rfl, rfl⟩⟩⟩

theorem yields_decorateFrom (hs : e.store = .ordinary σ) :
    (e.decorateFrom target name ds d).Yields v () v₁ ↔ ∃ v₂,
      (applyMemberChain e.caller ds target name (v.heap.addCell d).1).Yields
        { v with heap := (v.heap.addCell d).2 } () v₂ ∧
      (v₂.heap.object target.object).Accepts name (v₂.heap.content (v.heap.addCell d).1) ∧
      v₂.insert target.object name (v₂.heap.content (v.heap.addCell d).1) = v₁ := by
  unfold decorateFrom
  rw [hs]
  constructor
  · intro h
    obtain ⟨handle, w, hcell, h⟩ := yields_bind.mp h
    obtain ⟨rfl, rfl⟩ := yields_onHeap.mp hcell
    obtain ⟨⟨⟩, v₂, hchain, h⟩ := yields_bind.mp h
    exact ⟨v₂, hchain, Store.yields_install.mp (yields_heap_bind.mp h)⟩
  · rintro ⟨v₂, hchain, hinstall⟩
    exact yields_bind.mpr ⟨_, _, yields_onHeap.mpr ⟨rfl, rfl⟩, yields_bind.mpr
      ⟨(), v₂, hchain, yields_heap_bind.mpr (Store.yields_install.mpr hinstall)⟩⟩

theorem forall_bottomUp {P : Decorator → Prop} (h : ∀ d ∈ ds, P d) : ∀ d ∈ bottomUp ds, P d.1 :=
  fun _ hd => h _ (List.fst_mem_of_mem_zipIdx (List.mem_reverse.mp hd))

theorem since_addCell (r : g.Reached v) (d : Descriptor) :
    (v.heap.addCell d).1.Since g.start.heap (v.heap.addCell d).2 :=
  ⟨r.later.cells, by simp [Heap.addCell]⟩

theorem steps_decorateFrom (hs : e.store = .ordinary σ)
    (hlocal : ∀ d ∈ ds, d.Local e.caller g.hidden g.start) (r : g.Reached v)
    (h : (e.decorateFrom (Placement.classElement g.pair isStatic).target name ds d).Yields v () v₁) :
    g.Steps name isStatic v v₁ := by
  obtain ⟨v₂, hchain, -, rfl⟩ := (yields_decorateFrom hs).mp h
  have hnew := since_addCell r d
  have hcell := v.heap.edits_addCell d (v.heap.addCell d).1
  have r₁ : g.Reached { v with heap := (v.heap.addCell d).2 } := r.edits hnew.1 hcell r.later.hidden
  obtain ⟨he, hidden⟩ := Chain.touches_member (forall_bottomUp hlocal) r₁.later hnew hchain
  have hsteps : g.Steps name isStatic v v₂ := r.steps_edits hnew.1 (hcell.trans he) hidden
  exact hsteps.trans (hsteps.reached.steps_insert isStatic name _)

theorem mirrors_decorateFrom (hs : e.store = .ordinary σ)
    (hlocal : ∀ d ∈ ds, d.Local e.caller g.hidden g.start) (m : g.Mirrors name isStatic ρ v v')
    (hd : d.Match ρ d')
    (h : (e.decorateFrom (Placement.classElement g.pair isStatic).target name ds d).Yields v () v₁) :
    ∃ v₁' ρ', (e.decorateFrom (Placement.classElement g.pair isStatic).target name ds d').Yields
        v' () v₁' ∧
      ρ.Leads ρ' g.base v.heap v'.heap v₁.heap v₁'.heap ∧ g.Mirrors name isStatic ρ' v₁ v₁' := by
  obtain ⟨v₂, hchain, haccepts, rfl⟩ := (yields_decorateFrom hs).mp h
  have hnew := since_addCell m.left d
  have hnew' := since_addCell m.right d'
  have hcell := v.heap.edits_addCell d (v.heap.addCell d).1
  have hcell' := v'.heap.edits_addCell d' (v'.heap.addCell d').1
  have hshared : ρ.Leads ρ g.base v.heap v'.heap (v.heap.addCell d).2 (v'.heap.addCell d').2 :=
    .keepsKinds m.joins hcell.grows.keepsKinds hcell'.grows.keepsKinds
  have m₁ : g.Mirrors name isStatic ρ { v with heap := (v.heap.addCell d).2 }
      { v' with heap := (v'.heap.addCell d').2 } :=
    m.edits hnew.1 hnew'.1 hcell hcell' m.left.later.hidden m.right.later.hidden hshared
  have hcontent : ((v.heap.addCell d).2.content (v.heap.addCell d).1).Match ρ
      ((v'.heap.addCell d').2.content (v'.heap.addCell d').1) := by
    rw [Heap.content_addCell, if_pos rfl, Heap.content_addCell, if_pos rfl]
    exact hd
  obtain ⟨v₂', ρ', hchain', hleads, hcontent'⟩ := Chain.determines_member (forall_bottomUp hlocal)
    m₁.left.later m₁.right.later g.start_le m₁.joins hnew hnew' hcontent hchain
  obtain ⟨he, hidden⟩ := Chain.touches_member (forall_bottomUp hlocal) m₁.left.later hnew hchain
  obtain ⟨he', hidden'⟩ :=
    Chain.touches_member (forall_bottomUp hlocal) m₁.right.later hnew' hchain'
  have m₂ := m₁.edits hnew.1 hnew'.1 he he' hidden hidden' hleads
  obtain ⟨haccepts', hdefined, m₃⟩ := m₂.insert hcontent' haccepts
  exact ⟨_, ρ', (yields_decorateFrom hs).mpr ⟨v₂', hchain', haccepts', rfl⟩,
    (hshared.trans hleads).trans hdefined, m₃⟩

theorem steps_decorateUnit (hs : e.store = .ordinary σ)
    (hlocal : ∀ d ∈ ds, d.Local e.caller g.hidden g.start) (r : g.Reached v)
    (h : (e.decorateUnit (Placement.classElement g.pair isStatic).target name ds d).Yields v () v₁) :
    g.Steps name isStatic v v₁ := by
  obtain ⟨start, v₂, hstart, h⟩ := yields_bind.mp h
  obtain ⟨rfl, hbefore⟩ := (yields_startingDescriptor hs).mp hstart
  split at hbefore
  · obtain rfl := hbefore
    exact steps_decorateFrom hs hlocal r h
  · obtain ⟨-, rfl⟩ := hbefore
    have hsteps := r.steps_insert isStatic name d
    exact hsteps.trans (steps_decorateFrom hs hlocal hsteps.reached h)

theorem mirrors_decorateUnit (hs : e.store = .ordinary σ)
    (hlocal : ∀ d ∈ ds, d.Local e.caller g.hidden g.start) (m : g.Mirrors name isStatic ρ v v')
    (hd : d.Match ρ d')
    (h : (e.decorateUnit (Placement.classElement g.pair isStatic).target name ds d).Yields v () v₁) :
    ∃ v₁' ρ', (e.decorateUnit (Placement.classElement g.pair isStatic).target name ds d').Yields
        v' () v₁' ∧
      ρ.Leads ρ' g.base v.heap v'.heap v₁.heap v₁'.heap ∧ g.Mirrors name isStatic ρ' v₁ v₁' := by
  obtain ⟨start, v₂, hstart, h⟩ := yields_bind.mp h
  obtain ⟨rfl, hbefore⟩ := (yields_startingDescriptor hs).mp hstart
  split at hbefore
  · rename_i hsource
    obtain rfl := hbefore
    obtain ⟨v₁', ρ', h', hleads, m'⟩ := mirrors_decorateFrom hs hlocal m hd h
    have hstart' : (e.startingDescriptor (Placement.classElement g.pair isStatic).target name d').Yields
        v' d' v' := (yields_startingDescriptor hs).mpr ⟨rfl, by rw [hsource]⟩
    exact ⟨v₁', ρ', yields_bind.mpr ⟨d', v', hstart', h'⟩, hleads, m'⟩
  · rename_i hsource
    obtain ⟨haccepts, rfl⟩ := hbefore
    obtain ⟨haccepts', hdefined, m₁⟩ := m.insert hd haccepts
    obtain ⟨v₁', ρ', h', hleads, m'⟩ := mirrors_decorateFrom hs hlocal m₁ hd h
    have hstart' : (e.startingDescriptor (Placement.classElement g.pair isStatic).target name d').Yields
        v' d' (v'.insert (g.pair.side isStatic) name d') :=
      (yields_startingDescriptor hs).mpr ⟨rfl, by rw [hsource]; exact ⟨haccepts', rfl⟩⟩
    exact ⟨v₁', ρ', yields_bind.mpr ⟨d', _, hstart', h'⟩, hdefined.trans hleads, m'⟩

theorem steps_evaluateUnit (hs : e.store = .ordinary σ)
    (hu : u.Independent e.caller env g.hidden g.start) (r : g.Reached v)
    (h : (e.evaluateUnit g.pair env u).Yields v () v₁) : g.Steps u.name u.isStatic v v₁ := by
  obtain ⟨ds, v₂, made, v₃, hcollect, hsource, h⟩ := yields_evaluateUnit.mp h
  have hstill := (Decorator.settled_collect hu.settled).still r.later hcollect
  obtain ⟨he, hidden⟩ := hu.edits_source (r.later.still hstill) ⟨g.start.heap.cells.size⟩ hsource
  have hsteps : g.Steps u.name u.isStatic v v₃ :=
    r.steps_edits (Nat.le_refl _) ((hstill.edits _).trans he) hidden
  split at h
  · rw [hs] at h
    obtain ⟨-, rfl⟩ := Store.yields_install.mp h
    exact hsteps.trans (hsteps.reached.steps_insert u.isStatic u.name _)
  · have hlocal := hu.local_of_collect g.kept r.later hcollect
    exact hsteps.trans (steps_decorateUnit hs hlocal hsteps.reached h)

theorem mirrors_evaluateUnit (hs : e.store = .ordinary σ)
    (hu : u.Independent e.caller env g.hidden g.start) (m : g.Mirrors u.name u.isStatic ρ v v')
    (h : (e.evaluateUnit g.pair env u).Yields v () v₁) :
    ∃ v₁' ρ', (e.evaluateUnit g.pair env u).Yields v' () v₁' ∧
      ρ.Leads ρ' g.base v.heap v'.heap v₁.heap v₁'.heap ∧ g.Mirrors u.name u.isStatic ρ' v₁ v₁' := by
  obtain ⟨ds, v₂, made, v₃, hcollect, hsource, h⟩ := yields_evaluateUnit.mp h
  obtain ⟨v₂', hcollect', hstill, hstill', hsame⟩ :=
    (Decorator.settled_collect hu.settled).leads m.left.later m.right.later m.joins hcollect
  have hl := m.left.later.still hstill
  have hl' := m.right.later.still hstill'
  obtain ⟨made', v₃', ρ₁, hsource', hleads, hmatch⟩ :=
    hu.leads_source hl hl' g.start_le hsame.joins hsource
  obtain ⟨he, hidden⟩ := hu.edits_source hl ⟨g.start.heap.cells.size⟩ hsource
  obtain ⟨he', hidden'⟩ := hu.edits_source hl' ⟨g.start.heap.cells.size⟩ hsource'
  have hmade : ρ.Leads ρ₁ g.base v.heap v'.heap v₃.heap v₃'.heap := hsame.trans hleads
  have m₁ : g.Mirrors u.name u.isStatic ρ₁ v₃ v₃' := m.edits (Nat.le_refl _) (Nat.le_refl _)
    ((hstill.edits _).trans he) ((hstill'.edits _).trans he') hidden hidden' hmade
  have hd := hmatch.descriptor e.config
  split at h
  · rename_i hplain
    rw [hs] at h
    obtain ⟨haccepts, rfl⟩ := Store.yields_install.mp h
    obtain ⟨haccepts', hdefined, m₂⟩ := m₁.insert hd haccepts
    refine ⟨_, ρ₁, yields_evaluateUnit.mpr ⟨ds, v₂', made', v₃', hcollect', hsource', ?_⟩,
      hmade.trans hdefined, m₂⟩
    rw [if_pos hplain, hs]
    exact Store.yields_install.mpr ⟨haccepts', rfl⟩
  · rename_i hdecorated
    have hlocal := hu.local_of_collect g.kept m.left.later hcollect
    obtain ⟨v₁', ρ₂, h', hdecorate, m₂⟩ := mirrors_decorateUnit hs hlocal m₁ hd h
    refine ⟨v₁', ρ₂, yields_evaluateUnit.mpr ⟨ds, v₂', made', v₃', hcollect', hsource', ?_⟩,
      hmade.trans hdecorate, m₂⟩
    rw [if_neg hdecorated]
    exact h'

end Engine
end Decoration
