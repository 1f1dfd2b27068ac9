import Decoration.Capability.Response
import Decoration.Proofs.Grounded.Access

/-! The decorators of the library, the functions that they make, and nested calls keep a heap grounded if
the host does. -/

namespace Decoration

open Decoration.Action

variable {σ ε : Type} {n : Nat} {caller : Caller σ} {v : Value} {d : Descriptor} {arguments : List Value}

theorem Capability.grounds_function_value {c : Capability} (hc : c.Within n) :
    (do return .object (← c.function) : Action σ ε Value).Grounds n Value.Within :=
  (Capability.grounds_function hc).bind fun _ _ _ hid =>
    Grounds.pure fun _ hl => Value.within_object (hid.mono hl)

theorem MemoId.grounds_wrap (id : MemoId) (key : String) (hv : v.Within n) :
    (id.wrap key v : Action σ ε Value).Grounds n Value.Within := by
  apply Grounds.heap_bind
  intro h g hn
  have hresults : Memo.Within h.objects.size
      { h.memo id with nextSite := (h.memo id).nextSite + 1 } := g.memo id
  exact (Grounds.setMemo id hresults).bind fun k _ hk _ =>
    Capability.grounds_function_value (Value.Within.mono hv (Nat.le_trans hn hk))

theorem MemoId.grounds_call (hc : caller.Grounds) (id : MemoId) (site : Nat) (wrapped : Value)
    {receiver : Value} (hreceiver : receiver.Within n) (harguments : ∀ v ∈ arguments, v.Within n) :
    (id.call caller site wrapped receiver arguments).Grounds n Value.Within := by
  apply Grounds.heap_bind
  intro h g hn
  dsimp only
  split
  · rename_i result hfound
    exact Grounds.pure fun k hk => ((g.memo id).find? hfound).mono hk
  · have hcall := Value.grounds_call hc wrapped (hreceiver.mono hn) fun v hv => (harguments v hv).mono hn
    apply hcall.bind
    intro k result _ hresult
    refine Grounds.bind (Grounds.modifyHeap fun h' g' hh' => ⟨?_, ?_⟩) fun l _ hl _ =>
      Grounds.pure fun m hm => hresult.mono (Nat.le_trans hl hm)
    · exact g'.setMemo ((g'.memo id).insert (hresult.mono hh'))
    · exact Nat.le_refl _

namespace Edit

theorem grounds_wrapMemoized (memo : MemoId) (key : String) (hd : d.Within n) :
    (wrapMemoized memo key d : Action σ Fault Descriptor).Grounds n Descriptor.Within := by
  apply Grounds.heap_bind
  intro h g hn
  match d with
  | .data value w e c =>
    have hvalue := (Descriptor.within_data.mp hd).mono hn
    dsimp only
    split
    · apply (memo.grounds_wrap key hvalue).bind
      intro k v _ hv
      exact Grounds.pure fun l hl => Descriptor.within_data.mpr (hv.mono hl)
    · exact Grounds.fail _
  | .accessor (some getter) setter e c =>
    obtain ⟨hgetter, hsetter⟩ := Descriptor.within_accessor.mp hd
    apply (memo.grounds_wrap key ((hgetter getter rfl).mono hn)).bind
    intro k v hk hv
    refine Grounds.pure fun l hl => Descriptor.within_accessor.mpr ⟨fun v' hv' => ?_, fun s hs => ?_⟩
    · cases hv'
      exact hv.mono hl
    · exact (hsetter s hs).mono (by omega)
  | .accessor none .. => exact Grounds.fail _

theorem grounds_wrapDeprecated (message key : String) (hd : d.Within n) :
    (wrapDeprecated message key d : Action σ Fault Descriptor).Grounds n Descriptor.Within := by
  apply Grounds.heap_bind
  intro h g hn
  cases d with
  | data value w e c =>
    have hvalue := (Descriptor.within_data.mp hd).mono hn
    dsimp only
    split
    · have hwithin : (Capability.deprecated key message value).Within h.objects.size := hvalue
      apply (Capability.grounds_function hwithin).bind
      intro k f _ hf
      exact Grounds.pure fun l hl => Descriptor.within_data.mpr (Value.within_object (hf.mono hl))
    · exact Grounds.fail _
  | accessor => exact Grounds.fail _

variable {extra : List Value}

theorem within_head?_getD (hextra : ∀ v ∈ extra, v.Within n) :
    (extra.head?.getD Value.undefined).Within n := by
  cases extra with
  | nil => exact Value.within_of_object? rfl
  | cons v rest => exact hextra v List.mem_cons_self

theorem grounds_apply (edit : Edit) (key : String) (hextra : ∀ v ∈ extra, v.Within n)
    (hd : d.Within n) :
    (edit.apply key extra d : Action σ Fault Descriptor).Grounds n Descriptor.Within := by
  cases edit with
  | memoize memo => exact grounds_wrapMemoized memo key hd
  | deprecated => exact grounds_wrapDeprecated _ key hd
  | provide =>
    have hprovided := hd.setValue (within_head?_getD hextra)
    exact Grounds.pure fun k hk => hprovided.mono hk
  | readonly =>
    have hedited := hd.of_values (Descriptor.values_setWritable false d)
    exact Grounds.pure fun k hk => hedited.mono hk
  | nonconfigurable =>
    have hedited := hd.of_values (Descriptor.values_setConfigurable false d)
    exact Grounds.pure fun k hk => hedited.mono hk
  | nonenumerable =>
    have hedited := hd.of_values (Descriptor.values_setEnumerable false d)
    exact Grounds.pure fun k hk => hedited.mono hk
  | enumerable =>
    have hedited := hd.of_values (Descriptor.values_setEnumerable (extra.head?.any Value.isTruthy) d)
    exact Grounds.pure fun k hk => hedited.mono hk

theorem grounds_applyFresh (edit : Edit) (key : String) (hextra : ∀ v ∈ extra, v.Within n)
    (hd : d.Within n) : (edit.applyFresh key extra d : Action σ Fault Value).Grounds n Value.Within := by
  apply (edit.grounds_apply key hextra hd).bind
  intro k edited _ hedited
  apply (Grounds.addCell hedited).bind
  intro l handle _ _
  exact Grounds.pure fun _ _ => Value.within_descriptor handle

theorem within_initial? {edit : Edit} (hd : edit.initial? = some d) : d.Within n := by
  cases edit <;> cases hd
  exact Descriptor.within_data.mpr (Value.within_of_object? rfl)

theorem grounds_construct (hc : caller.Grounds) (edit : Edit) (harguments : ∀ v ∈ arguments, v.Within n) :
    (edit.construct caller arguments).Grounds n Value.Within := by
  have hextra : ∀ v ∈ arguments.drop 3, v.Within n := fun v hv => harguments v (List.mem_of_mem_drop hv)
  have hgiven : (arguments[2]?.getD Value.undefined).Within n := by
    cases hget : arguments[2]? with
    | none => exact Value.within_of_object? rfl
    | some v => exact harguments v (List.mem_of_getElem? hget)
  unfold construct
  dsimp only
  split
  · rename_i handle _
    apply Grounds.heap_bind
    intro h g hn
    have hextra' : ∀ v ∈ arguments.drop 3, v.Within h.objects.size := fun v hv => (hextra v hv).mono hn
    apply (edit.grounds_apply _ hextra' (g.content handle)).bind
    intro k edited _ hedited
    apply (Grounds.setContent handle hedited).bind
    intro l _ _ _
    exact Grounds.pure fun _ _ => Value.within_descriptor handle
  · split
    · rename_i hinitial
      exact edit.grounds_applyFresh _ hextra (within_initial? hinitial)
    · exact Grounds.pure fun _ _ => Value.within_of_object? rfl
  · apply (Descriptor.grounds_ofValue hc hgiven).bind
    intro k d hk hd
    exact edit.grounds_applyFresh _ (fun v hv => (hextra v hv).mono hk) hd

end Edit

theorem Mark.grounds_construct (hc : caller.Grounds) (mark : Mark)
    (harguments : ∀ v ∈ arguments, v.Within n) :
    (mark.construct caller arguments).Grounds n Value.Within := by
  unfold construct
  split
  · rename_i target htarget
    obtain ⟨first, hfirst, hobject⟩ := Option.bind_eq_some_iff.mp htarget
    have htarget' : target.Within n :=
      harguments first (List.mem_of_head? hfirst) target (by cases first <;> cases hobject; rfl)
    have hvalue : (mark.property (arguments.drop 1)).2.Within n := by
      cases mark with
      | annotated => exact Value.within_of_object? rfl
      | isTestable =>
        exact Edit.within_head?_getD fun v hv => harguments v (List.mem_of_mem_drop hv)
    apply (ObjectId.grounds_put hc htarget' _ hvalue).bind
    intro k _ _ _
    exact Grounds.pure fun _ _ => Value.within_of_object? rfl
  · exact Grounds.fail _

def Host.Grounds (host : Host σ) : Prop :=
  ∀ caller : Caller σ, caller.Grounds → ∀ n code receiver arguments, Value.Within n receiver →
    (∀ v ∈ arguments, Value.Within n v) → (host caller code receiver arguments).Grounds n Value.Within

theorem Capability.grounds_respond {host : Host σ} (hh : host.Grounds) (hc : caller.Grounds) :
    Caller.Grounds fun c => c.respond host caller := by
  intro n c request arguments hwithin hreceiver harguments
  cases c with
  | native name code => exact hh caller hc n code request.receiver arguments hreceiver harguments
  | constant name result => exact Grounds.pure fun k hk => Value.Within.mono hwithin hk
  | edit e => exact e.grounds_construct hc harguments
  | mark m => exact m.grounds_construct hc harguments
  | memoized key memo site wrapped => exact memo.grounds_call hc site wrapped hreceiver harguments
  | deprecated key message wrapped =>
    exact (Grounds.report _).bind fun k _ hk _ =>
      Value.grounds_call hc wrapped (hreceiver.mono hk) fun v hv => (harguments v hv).mono hk

theorem Caller.grounds_nested {host : Host σ} (hh : host.Grounds) (depth : Nat) :
    (Caller.nested host depth).Grounds := by
  induction depth with
  | zero => exact fun _ _ _ _ _ _ _ => Grounds.exhausted
  | succ depth ih => exact Capability.grounds_respond hh ih

end Decoration
