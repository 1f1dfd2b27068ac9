import Decoration.Proofs.Relocation.Run

/-! The decorators of the library on relocated arguments. -/

namespace Decoration

open Decoration.Action

variable {σ ε : Type} {t : Relocation} {w w' : World σ}

theorem Value.Primitive.display_eq {v : Value} (hv : v.Primitive) (h h' : Heap) :
    h.display v = h'.display v := by
  cases v with
  | object | descriptor => exact hv.elim
  | _ => rw [Heap.display, Heap.display, Heap.displayWithin, Heap.displayWithin]

theorem Value.primitive_or_descriptor {v : Value} (hv : v.object? = none) :
    v.Primitive ∨ ∃ handle, v = .descriptor handle := by
  cases v with
  | object id => exact nomatch hv
  | descriptor handle => exact .inr ⟨handle, rfl⟩
  | _ => exact .inl trivial

def Relocation.Redescribes (t : Relocation) (h : Heap) (d d' : Descriptor) : Prop :=
  d' = t.descriptor d ∧ h.Settled d

theorem Descriptor.alike_ofValue (caller : Caller σ) (m : t.Mirrors w.heap w'.heap) {v : Value}
    (hv : v.object? = none) :
    Run.Alike t Eq t.Redescribes w.heap (ofValue caller v w) (ofValue caller (t.value v) w') := by
  rcases Value.primitive_or_descriptor hv with hprimitive | ⟨handle, rfl⟩
  · have hfails : ∀ u : World σ,
        ofValue caller v u = ⟨.failed (.type (.notDescription (u.heap.display v))), u, []⟩ := by
      intro u
      cases v <;> first | exact hprimitive.elim | rfl
    rw [Relocation.value_of_portable hprimitive.portable, hfails, hfails,
      hprimitive.display_eq w.heap w'.heap]
    exact .fail m rfl
  · exact .pure m ⟨m.content handle, m.shared handle⟩

theorem MemoId.alike_wrap (m : t.Mirrors w.heap w'.heap) (key : String) (wrapped : Value) :
    Run.Alike t Eq (fun _ v v' => v' = t.value v) w.heap
      ((MemoId.wrap ⟨0⟩ key wrapped : Action σ Fault Value) w)
      ((MemoId.wrap ⟨0⟩ key (t.value wrapped) : Action σ Fault Value) w') := by
  refine .heap_bind ?_
  refine Run.Alike.bind (R := anyway) (.onHeap m.takeSite (fun _ _ hc => hc) trivial) fun m' _ _ => ?_
  rw [m.sites]
  refine (Capability.alike_function m' (.memoized key ⟨0⟩ _ wrapped)).bind fun m'' _ hf => ?_
  exact .pure m'' (congrArg Value.object hf.1)

namespace Edit

theorem alike_wrapMemoized (m : t.Mirrors w.heap w'.heap) (key : String) {d : Descriptor}
    (hd : w.heap.Settled d) :
    Run.Alike t Eq t.Redescribes w.heap
      ((wrapMemoized ⟨0⟩ key d : Action σ Fault Descriptor) w)
      ((wrapMemoized ⟨0⟩ key (t.descriptor d) : Action σ Fault Descriptor) w') := by
  refine .heap_bind ?_
  match d with
  | .data v writable e c =>
    dsimp only [Relocation.descriptor]
    rw [m.isCallable]
    cases w.heap.isCallable v with
    | true =>
      refine (MemoId.alike_wrap m key v).bind fun m' _ hv => .pure m' ⟨?_, trivial⟩
      rw [hv]
      rfl
    | false => exact .fail m rfl
  | .accessor (some getter) setter e c =>
    refine (MemoId.alike_wrap m key getter).bind fun m' keeps hv => .pure m' ⟨?_, ?_⟩
    · rw [hv]
      rfl
    · have hsettled := hd.mono keeps
      cases setter <;> exact hsettled
  | .accessor none .. => exact .fail m rfl

theorem alike_wrapDeprecated (m : t.Mirrors w.heap w'.heap) (message key : String) (d : Descriptor) :
    Run.Alike t Eq t.Redescribes w.heap
      ((wrapDeprecated message key d : Action σ Fault Descriptor) w)
      ((wrapDeprecated message key (t.descriptor d) : Action σ Fault Descriptor) w') := by
  refine .heap_bind ?_
  match d with
  | .data v writable e c =>
    dsimp only [Relocation.descriptor]
    rw [m.isCallable]
    cases w.heap.isCallable v with
    | true =>
      refine (Capability.alike_function m (.deprecated key message v)).bind fun m' _ hf => ?_
      refine .pure m' ⟨?_, trivial⟩
      rw [hf.1]
      rfl
    | false => exact .fail m rfl
  | .accessor .. => exact .fail m rfl

variable {edit : Edit}

theorem alike_apply (hmemo : ∀ memo, edit = .memoize memo → memo = ⟨0⟩)
    (m : t.Mirrors w.heap w'.heap) (key : String) (extra : List Value) {d : Descriptor}
    (hd : w.heap.Settled d) :
    Run.Alike t Eq t.Redescribes w.heap ((edit.apply key extra d : Action σ Fault Descriptor) w)
      ((edit.apply key (extra.map t.value) (t.descriptor d) : Action σ Fault Descriptor) w') := by
  have hflag : (extra.map t.value).head?.any Value.isTruthy = extra.head?.any Value.isTruthy := by
    cases extra with
    | nil => rfl
    | cons v rest => exact Relocation.isTruthy_value v
  have htext : ((extra.map t.value).head?.bind Value.string?) = extra.head?.bind Value.string? := by
    cases extra with
    | nil => rfl
    | cons v rest => exact Relocation.string?_value v
  have hvalue : (extra.map t.value).head?.getD .undefined = t.value (extra.head?.getD .undefined) := by
    cases extra <;> rfl
  cases edit with
  | readonly =>
    exact .pure m ⟨(Relocation.descriptor_setWritable false d).symm,
      (Heap.settled_setWritable _ _ d).mpr hd⟩
  | nonenumerable =>
    exact .pure m ⟨(Relocation.descriptor_setEnumerable false d).symm,
      (Heap.settled_setEnumerable _ _ d).mpr hd⟩
  | enumerable =>
    refine .pure m ⟨?_, (Heap.settled_setEnumerable _ _ d).mpr hd⟩
    rw [hflag, Relocation.descriptor_setEnumerable]
  | nonconfigurable =>
    exact .pure m ⟨(Relocation.descriptor_setConfigurable false d).symm,
      (Heap.settled_setConfigurable _ _ d).mpr hd⟩
  | provide =>
    refine .pure m ⟨?_, (Heap.settled_setValue _ _ d).mpr hd⟩
    rw [hvalue, Relocation.descriptor_setValue]
  | memoize memo =>
    obtain rfl := hmemo memo rfl
    exact alike_wrapMemoized m key hd
  | deprecated =>
    rw [apply, apply, htext]
    exact alike_wrapDeprecated m _ key d

theorem alike_applyFresh (hmemo : ∀ memo, edit = .memoize memo → memo = ⟨0⟩)
    (m : t.Mirrors w.heap w'.heap) (key : String) (extra : List Value) {d : Descriptor}
    (hd : w.heap.Settled d) :
    Run.Alike t Eq t.Carries w.heap ((edit.applyFresh key extra d) w)
      ((edit.applyFresh key (extra.map t.value) (t.descriptor d)) w') := by
  refine (alike_apply hmemo m key extra hd).bind fun m' _ h => ?_
  obtain ⟨rfl, hd'⟩ := h
  obtain ⟨m'', hnew⟩ := m'.addCell hd'
  refine Run.Alike.bind (R := fun _ handle handle' => handle' = t.handle handle)
    (.onHeap m'' (fun _ _ hc => hc) hnew) fun m₃ _ h => ?_
  exact .pure m₃ ⟨congrArg Value.descriptor h, rfl⟩

theorem alike_construct (hmemo : ∀ memo, edit = .memoize memo → memo = ⟨0⟩)
    (m : t.Mirrors w.heap w'.heap) (caller : Caller σ) (arguments : List Value)
    (hedited : ∀ v, arguments[2]? = some v → v.object? = none) :
    Run.Alike t Eq t.Carries w.heap ((edit.construct caller arguments) w)
      ((edit.construct caller (arguments.map t.value)) w') := by
  have hkey : ((arguments.map t.value)[1]?.bind Value.string?).getD "" =
      (arguments[1]?.bind Value.string?).getD "" := by
    rw [List.getElem?_map]
    cases arguments[1]? with
    | none => rfl
    | some v => exact congrArg (·.getD "") (Relocation.string?_value v)
  have hvalue : (arguments.map t.value)[2]?.getD Value.undefined =
      t.value (arguments[2]?.getD .undefined) := by
    rw [List.getElem?_map]
    cases arguments[2]? <;> rfl
  have hobject : (arguments[2]?.getD Value.undefined).object? = none := by
    cases h : arguments[2]? with
    | none => rfl
    | some v => exact hedited v h
  rw [construct, construct, hkey, ← List.map_drop, hvalue]
  generalize arguments[2]?.getD Value.undefined = edited at hobject ⊢
  cases edited with
  | object id => exact absurd hobject (Option.some_ne_none id)
  | descriptor handle =>
    refine .heap_bind ?_
    rw [m.content]
    refine (alike_apply hmemo m _ _ (m.shared handle)).bind fun m' _ h => ?_
    obtain ⟨rfl, hd⟩ := h
    refine Run.Alike.bind (R := anyway) (.onHeap (m'.setContent handle hd) (fun _ _ hc => hc) trivial)
      fun m'' _ _ => ?_
    exact .pure m'' ⟨rfl, rfl⟩
  | undefined =>
    dsimp only [Relocation.value]
    cases hinitial : edit.initial? with
    | none => exact .pure m ⟨rfl, rfl⟩
    | some d =>
      obtain ⟨rfl, rfl⟩ : edit = .provide ∧ .ordinary .undefined = d := by
        cases edit <;> first | exact ⟨rfl, Option.some.inj hinitial⟩ | exact nomatch hinitial
      exact alike_applyFresh hmemo m _ _ trivial
  | null | bool | number | string =>
    refine (Descriptor.alike_ofValue caller m hobject).bind fun m' _ h => ?_
    obtain ⟨rfl, hd⟩ := h
    exact alike_applyFresh hmemo m' _ _ hd

end Edit

theorem Mark.alike_construct (mark : Mark) (m : t.Mirrors w.heap w'.heap) (depth : Nat)
    {target : ObjectId} (htarget : libraryCount ≤ target.index) (rest : List Value) :
    Run.Alike t Eq t.Carries w.heap
      ((mark.construct (Caller.nested Host.none depth) (.object target :: rest)) w)
      ((mark.construct (Caller.nested Host.none depth)
        (.object (t.object target) :: rest.map t.value)) w') := by
  have hproperty : mark.property (rest.map t.value) =
      ((mark.property rest).1, t.value (mark.property rest).2) := by
    cases mark with
    | annotated => rfl
    | isTestable => cases rest <;> rfl
  change Run.Alike t Eq t.Carries w.heap
    ((target.put _ (mark.property rest).1 (mark.property rest).2 >>= fun _ => pure .undefined) w)
    (((t.object target).put _ (mark.property (rest.map t.value)).1
      (mark.property (rest.map t.value)).2 >>= fun _ => pure .undefined) w')
  rw [hproperty]
  exact (ObjectId.alike_put m htarget depth _ _).bind fun m' _ _ => .pure m' ⟨rfl, rfl⟩

theorem Relocation.capability_of_library {c : Capability} (hc : c ∈ libraryDecorators ⟨0⟩) :
    t.capability c = c := by
  cases c with
  | edit | mark => rfl
  | _ => simp [libraryDecorators] at hc

theorem Capability.alike_construct {c : Capability} (hc : c ∈ libraryDecorators ⟨0⟩)
    (m : t.Mirrors w.heap w'.heap) (depth : Nat) {target : ObjectId}
    (htarget : libraryCount ≤ target.index) {rest : List Value}
    (hedited : ∀ v, rest[1]? = some v → v.object? = none) :
    Run.Alike t Eq t.Carries w.heap
      (Caller.nested Host.none depth c .construct (.object target :: rest) w)
      (Caller.nested Host.none depth c .construct
        (.object (t.object target) :: rest.map t.value) w') := by
  cases depth with
  | zero => exact ⟨.exhausted, m, .refl _⟩
  | succ depth =>
    cases c with
    | edit e =>
      refine e.alike_construct (fun memo he => ?_) m (Caller.nested Host.none depth)
        (.object target :: rest) hedited
      subst he
      simpa [libraryDecorators] using hc
    | mark mark => exact mark.alike_construct m depth htarget rest
    | _ => simp [libraryDecorators] at hc

end Decoration
