import Decoration.Proofs.Growth

/-! Two heaps in which functions stand for each other. What was there at first stands for itself, and
the functions that were made since then go together in pairs. -/

namespace Decoration

def Renaming : Type := ObjectId → ObjectId → Prop

variable {n : Nat} {ρ ρ' : Renaming}

namespace Value

def Within (n : Nat) (v : Value) : Prop := ∀ id, v = .object id → id.index < n

inductive Match (ρ : Renaming) : Value → Value → Prop
  | object {x y : ObjectId} (related : ρ x y) : Match ρ (.object x) (.object y)
  | plain {v : Value} (plain : v.object? = none) : Match ρ v v

theorem Within.mono {m : Nat} {v : Value} (h : v.Within n) (hle : n ≤ m) : v.Within m :=
  fun id hid => Nat.lt_of_lt_of_le (h id hid) hle

theorem Within.match_self (fixed : ∀ id, id.index < n → ρ id id) {v : Value} (h : v.Within n) :
    v.Match ρ v := by
  cases v with
  | object id => exact .object (fixed id (h id rfl))
  | _ => exact .plain rfl

theorem Match.mono (hle : ∀ x y, ρ x y → ρ' x y) {v v' : Value} (h : v.Match ρ v') :
    v.Match ρ' v' := by
  cases h with
  | object related => exact .object (hle _ _ related)
  | plain plain => exact .plain plain

theorem Match.right_eq (functional : ∀ x y y', ρ x y → ρ x y' → y = y') {v a b : Value}
    (ha : v.Match ρ a) (hb : v.Match ρ b) : a = b := by
  cases ha with
  | object related =>
    cases hb with
    | object related' => rw [functional _ _ _ related related']
    | plain plain => exact nomatch plain
  | plain plain =>
    cases hb with
    | object related' => exact nomatch plain
    | plain => rfl

theorem match_half_mono (hle : ∀ x y, ρ x y → ρ' x y) {g g' : Option Value}
    (h : Option.Rel (Match ρ) g g') : Option.Rel (Match ρ') g g' := by
  cases h with
  | none => exact .none
  | some h => exact .some (h.mono hle)

theorem match_half_right_eq (functional : ∀ x y y', ρ x y → ρ x y' → y = y') {g a b : Option Value}
    (ha : Option.Rel (Match ρ) g a) (hb : Option.Rel (Match ρ) g b) : a = b := by
  cases ha with
  | none => cases hb; rfl
  | some ha =>
    cases hb with
    | some hb => rw [ha.right_eq functional hb]

end Value

namespace Capability

def Within (n : Nat) : Capability → Prop
  | constant _ result => result.Within n
  | memoized _ _ _ wrapped | deprecated _ _ wrapped => wrapped.Within n
  | _ => True

inductive Match (ρ : Renaming) : Capability → Capability → Prop
  | native {name : String} {code : Nat} : Match ρ (.native name code) (.native name code)
  | constant {name : String} {v v' : Value} (result : v.Match ρ v') :
    Match ρ (.constant name v) (.constant name v')
  | edit {e : Edit} : Match ρ (.edit e) (.edit e)
  | mark {m : Mark} : Match ρ (.mark m) (.mark m)
  | memoized {key : String} {memo : MemoId} {site site' : Nat} {v v' : Value}
    (wrapped : v.Match ρ v') : Match ρ (.memoized key memo site v) (.memoized key memo site' v')
  | deprecated {key message : String} {v v' : Value} (wrapped : v.Match ρ v') :
    Match ρ (.deprecated key message v) (.deprecated key message v')

theorem Within.mono {m : Nat} {c : Capability} (h : c.Within n) (hle : n ≤ m) : c.Within m := by
  cases c with
  | constant | memoized | deprecated => exact Value.Within.mono h hle
  | _ => trivial

theorem Within.match_self (fixed : ∀ id, id.index < n → ρ id id) {c : Capability}
    (h : c.Within n) : c.Match ρ c := by
  cases c with
  | native => exact .native
  | constant => exact .constant (Value.Within.match_self fixed h)
  | edit => exact .edit
  | mark => exact .mark
  | memoized => exact .memoized (Value.Within.match_self fixed h)
  | deprecated => exact .deprecated (Value.Within.match_self fixed h)

theorem Match.mono (hle : ∀ x y, ρ x y → ρ' x y) {c c' : Capability} (h : c.Match ρ c') :
    c.Match ρ' c' := by
  cases h with
  | native => exact .native
  | constant result => exact .constant (result.mono hle)
  | edit => exact .edit
  | mark => exact .mark
  | memoized wrapped => exact .memoized (wrapped.mono hle)
  | deprecated wrapped => exact .deprecated (wrapped.mono hle)

end Capability

namespace Descriptor

inductive Match (ρ : Renaming) : Descriptor → Descriptor → Prop
  | data {v v' : Value} {w e c : Bool} (value : v.Match ρ v') :
    Match ρ (.data v w e c) (.data v' w e c)
  | accessor {g g' s s' : Option Value} {e c : Bool} (getter : Option.Rel (Value.Match ρ) g g')
    (setter : Option.Rel (Value.Match ρ) s s') : Match ρ (.accessor g s e c) (.accessor g' s' e c)

variable {d d' current current' : Descriptor}

theorem Match.mono (hle : ∀ x y, ρ x y → ρ' x y) (h : d.Match ρ d') : d.Match ρ' d' := by
  cases h with
  | data value => exact .data (value.mono hle)
  | accessor getter setter =>
    exact .accessor (Value.match_half_mono hle getter) (Value.match_half_mono hle setter)

theorem match_own_mono (hle : ∀ x y, ρ x y → ρ' x y) {found found' : Option Descriptor}
    (h : Option.Rel (Match ρ) found found') : Option.Rel (Match ρ') found found' := by
  cases h with
  | none => exact .none
  | some h => exact .some (h.mono hle)

theorem Match.configurable_eq (h : d.Match ρ d') : d'.configurable = d.configurable := by
  cases h <;> rfl

theorem Match.settles (functional : ∀ x y y', ρ x y → ρ x y' → y = y') (hd : d.Match ρ d')
    (hcurrent : current.Match ρ current') (h : current.Settles d) : current'.Settles d' := by
  obtain ⟨hc, he, hshape⟩ := h
  cases hcurrent with
  | data was =>
    cases hd with
    | data value =>
      refine ⟨hc, he, hshape.imp_right fun ⟨hw, hsame⟩ => ⟨hw, ?_⟩⟩
      obtain rfl := of_decide_eq_true hsame
      exact decide_eq_true (was.right_eq functional value)
    | accessor => exact hshape.elim
  | accessor getter setter =>
    cases hd with
    | data => exact hshape.elim
    | accessor getter' setter' =>
      obtain ⟨rfl, rfl⟩ := hshape
      exact ⟨hc, he, Value.match_half_right_eq functional getter' getter,
        Value.match_half_right_eq functional setter' setter⟩

theorem Match.setWritable (flag : Bool) (h : d.Match ρ d') :
    (d.setWritable flag).Match ρ (d'.setWritable flag) := by
  cases h with
  | data value => exact .data value
  | accessor getter setter => exact .accessor getter setter

theorem Match.setEnumerable (flag : Bool) (h : d.Match ρ d') :
    (d.setEnumerable flag).Match ρ (d'.setEnumerable flag) := by
  cases h with
  | data value => exact .data value
  | accessor getter setter => exact .accessor getter setter

theorem Match.setConfigurable (flag : Bool) (h : d.Match ρ d') :
    (d.setConfigurable flag).Match ρ (d'.setConfigurable flag) := by
  cases h with
  | data value => exact .data value
  | accessor getter setter => exact .accessor getter setter

theorem Match.setValue {v v' : Value} (hv : v.Match ρ v') (h : d.Match ρ d') :
    (d.setValue v).Match ρ (d'.setValue v') := by
  cases h with
  | data => exact .data hv
  | accessor getter setter => exact .accessor getter setter

end Descriptor

theorem Object.Accepts.of_match (functional : ∀ x y y', ρ x y → ρ x y' → y = y') {o o' : Object}
    {key : String} {d d' : Descriptor} (hextensible : o'.extensible = true)
    (hown : Option.Rel (Descriptor.Match ρ) (o.properties.find? key) (o'.properties.find? key))
    (hd : d.Match ρ d') (h : o.Accepts key d) : o'.Accepts key d' := by
  refine ⟨fun _ => hextensible, fun current' hcurrent' hfixed => ?_⟩
  rw [hcurrent'] at hown
  generalize hcurrent : o.properties.find? key = found at hown
  cases hown with
  | some hmatch =>
    rw [hmatch.configurable_eq] at hfixed
    exact hd.settles functional hmatch (h.present _ hcurrent hfixed)

namespace Heap

variable {h h₁ h₂ : Heap}

structure KeepsKinds (h h₁ : Heap) : Prop where
  size : h.objects.size ≤ h₁.objects.size
  kind : ∀ id, id.index < h.objects.size → (h₁.object id).kind = (h.object id).kind

theorem KeepsKinds.capability? (hk : h.KeepsKinds h₁) {id : ObjectId}
    (hid : id.index < h.objects.size) :
    h₁.capability? (.object id) = h.capability? (.object id) := by
  rw [Heap.capability?, Heap.capability?, Object.capability?, Object.capability?, hk.kind id hid]

theorem KeepsKinds.trans (first : h.KeepsKinds h₁) (second : h₁.KeepsKinds h₂) : h.KeepsKinds h₂ :=
  ⟨Nat.le_trans first.size second.size, fun id hid =>
    (second.kind id (Nat.lt_of_lt_of_le hid first.size)).trans (first.kind id hid)⟩

theorem Grows.keepsKinds (g : h.Grows h₁) : h.KeepsKinds h₁ :=
  ⟨g.size, fun id hid => congrArg Object.kind (g.same id hid)⟩

end Heap

namespace Renaming

/-- The first `n` objects stand for themselves. The other pairs are functions with capabilities that
match, and no object is in two of them. -/
structure Joins (ρ : Renaming) (n : Nat) (h h' : Heap) : Prop where
  size : n ≤ h.objects.size
  size' : n ≤ h'.objects.size
  fixed : ∀ id, id.index < n → ρ id id
  kept : ∀ id, id.index < n → h'.capability? (.object id) = h.capability? (.object id)
  made : ∀ x y, ρ x y → n ≤ x.index → ∃ c c', h.capability? (.object x) = some c ∧
    h'.capability? (.object y) = some c' ∧ c.Match ρ c'
  functional : ∀ x y y', ρ x y → ρ x y' → y = y'
  injective : ∀ x x' y, ρ x y → ρ x' y → x = x'

/-- Joined heaps go on to others that are joined by the same pairs, and by pairs of objects that were
made on the way. -/
structure Leads (ρ ρ' : Renaming) (n : Nat) (h h' h₁ h₁' : Heap) : Prop where
  joins : ρ'.Joins n h₁ h₁'
  size : h.objects.size ≤ h₁.objects.size
  size' : h'.objects.size ≤ h₁'.objects.size
  old : ∀ x y, ρ x y → ρ' x y
  new : ∀ x y, ρ' x y → ρ x y ∨ h.objects.size ≤ x.index ∧ h'.objects.size ≤ y.index

def also (ρ : Renaming) (f f' : ObjectId) : Renaming := fun x y => ρ x y ∨ x = f ∧ y = f'

variable {ρ'' : Renaming} {h h' h₁ h₁' h₂ h₂' : Heap}

namespace Joins

theorem refl (h : Heap) :
    Joins (fun x y => x = y ∧ x.index < h.objects.size) h.objects.size h h where
  size := Nat.le_refl _
  size' := Nat.le_refl _
  fixed _ hid := ⟨rfl, hid⟩
  kept _ _ := rfl
  made _ _ hxy hx := absurd hxy.2 (Nat.not_lt_of_le hx)
  functional _ _ _ hy hy' := hy.1.symm.trans hy'.1
  injective _ _ _ hx hx' := hx.1.trans hx'.1.symm

theorem eq_of_lt (j : ρ.Joins n h h') {x y : ObjectId} (hxy : ρ x y) (hx : x.index < n) : y = x :=
  j.functional x y x hxy (j.fixed x hx)

theorem le_left (j : ρ.Joins n h h') {x y : ObjectId} (hxy : ρ x y) (hy : n ≤ y.index) :
    n ≤ x.index := by
  rcases Nat.lt_or_ge x.index n with hx | hx
  · rw [j.eq_of_lt hxy hx] at hy
    exact hy
  · exact hx

theorem bound (j : ρ.Joins n h h') {x y : ObjectId} (hxy : ρ x y) :
    x.index < h.objects.size ∧ y.index < h'.objects.size := by
  rcases Nat.lt_or_ge x.index n with hx | hx
  · rw [j.eq_of_lt hxy hx]
    exact ⟨Nat.lt_of_lt_of_le hx j.size, Nat.lt_of_lt_of_le hx j.size'⟩
  · obtain ⟨c, c', hc, hc', -⟩ := j.made x y hxy hx
    exact ⟨Heap.lt_size_of_capability? hc, Heap.lt_size_of_capability? hc'⟩

theorem isCallable (j : ρ.Joins n h h') {v v' : Value} (hv : v.Match ρ v') :
    h'.isCallable v' = h.isCallable v := by
  cases hv with
  | @object x y related =>
    rw [Heap.isCallable, Heap.isCallable]
    rcases Nat.lt_or_ge x.index n with hx | hx
    · rw [j.eq_of_lt related hx, j.kept x hx]
    · obtain ⟨c, c', hc, hc', -⟩ := j.made x y related hx
      rw [hc, hc', Option.isSome_some, Option.isSome_some]
  | @plain v plain =>
    cases v with
    | object => cases plain
    | _ => rfl

theorem keepsKinds (j : ρ.Joins n h h') (hk : h.KeepsKinds h₁) (hk' : h'.KeepsKinds h₁') :
    ρ.Joins n h₁ h₁' where
  size := Nat.le_trans j.size hk.size
  size' := Nat.le_trans j.size' hk'.size
  fixed := j.fixed
  kept id hid := by
    rw [hk.capability? (Nat.lt_of_lt_of_le hid j.size),
      hk'.capability? (Nat.lt_of_lt_of_le hid j.size'), j.kept id hid]
  made x y hxy hx := by
    rw [hk.capability? (j.bound hxy).1, hk'.capability? (j.bound hxy).2]
    exact j.made x y hxy hx
  functional := j.functional
  injective := j.injective

theorem addFunction (j : ρ.Joins n h h') {c c' : Capability} (hc : c.Match ρ c') :
    (ρ.also (h.addObject { kind := .function c }).1 (h'.addObject { kind := .function c' }).1).Joins n
      (h.addObject { kind := .function c }).2 (h'.addObject { kind := .function c' }).2 := by
  have hjoined := j.keepsKinds (h.grows_addObject { kind := .function c }).keepsKinds
    (h'.grows_addObject { kind := .function c' }).keepsKinds
  refine ⟨hjoined.size, hjoined.size', fun id hid => .inl (j.fixed id hid), hjoined.kept, ?_, ?_, ?_⟩
  · rintro x y (hxy | ⟨rfl, rfl⟩) hx
    · obtain ⟨a, a', ha, ha', hmatch⟩ := hjoined.made x y hxy hx
      exact ⟨a, a', ha, ha', hmatch.mono fun _ _ => .inl⟩
    · exact ⟨c, c', h.capability?_addObject c, h'.capability?_addObject c', hc.mono fun _ _ => .inl⟩
  · rintro x y y' (hxy | ⟨rfl, rfl⟩) (hxy' | ⟨hx, rfl⟩)
    · exact j.functional x y y' hxy hxy'
    · exact absurd hx (Heap.ne_addObject (j.bound hxy).1 _)
    · exact absurd rfl (Heap.ne_addObject (j.bound hxy').1 _)
    · rfl
  · rintro x x' y (hxy | ⟨rfl, rfl⟩) (hxy' | ⟨rfl, hy⟩)
    · exact j.injective x x' y hxy hxy'
    · exact absurd hy (Heap.ne_addObject (j.bound hxy).2 _)
    · exact absurd rfl (Heap.ne_addObject (j.bound hxy').2 _)
    · rfl

end Joins

namespace Leads

theorem refl (j : ρ.Joins n h h') : ρ.Leads ρ n h h' h h' :=
  ⟨j, Nat.le_refl _, Nat.le_refl _, fun _ _ => id, fun _ _ => .inl⟩

theorem trans (first : ρ.Leads ρ' n h h' h₁ h₁') (second : ρ'.Leads ρ'' n h₁ h₁' h₂ h₂') :
    ρ.Leads ρ'' n h h' h₂ h₂' := by
  refine ⟨second.joins, Nat.le_trans first.size second.size, Nat.le_trans first.size' second.size',
    fun x y hxy => second.old x y (first.old x y hxy), fun x y hxy => ?_⟩
  rcases second.new x y hxy with hxy | ⟨hx, hy⟩
  · exact first.new x y hxy
  · exact .inr ⟨Nat.le_trans first.size hx, Nat.le_trans first.size' hy⟩

theorem keepsKinds (j : ρ.Joins n h h') (hk : h.KeepsKinds h₁) (hk' : h'.KeepsKinds h₁') :
    ρ.Leads ρ n h h' h₁ h₁' :=
  ⟨j.keepsKinds hk hk', hk.size, hk'.size, fun _ _ => id, fun _ _ => .inl⟩

theorem addFunction (j : ρ.Joins n h h') {c c' : Capability} (hc : c.Match ρ c') :
    ρ.Leads (ρ.also (h.addObject { kind := .function c }).1 (h'.addObject { kind := .function c' }).1) n
      h h' (h.addObject { kind := .function c }).2 (h'.addObject { kind := .function c' }).2 := by
  refine ⟨j.addFunction hc, (h.grows_addObject _).size, (h'.grows_addObject _).size, fun _ _ => .inl,
    fun x y hxy => hxy.imp_right ?_⟩
  rintro ⟨rfl, rfl⟩
  exact ⟨Nat.le_refl _, Nat.le_refl _⟩

end Leads
end Renaming
end Decoration
