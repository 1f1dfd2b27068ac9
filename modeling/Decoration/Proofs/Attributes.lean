import Decoration.Proofs.Disciplines
import Decoration.Proofs.Local

/-! Member decorators that set one attribute each. What a list of them leaves in a handle is told
attribute by attribute: what can only be cleared is cleared by any of them, and of those that set the
same attribute the topmost decides. -/

namespace Decoration

open Decoration.Action

variable {σ : Type}

inductive Attribute where
  | writable
  | enumerable
  | configurable
  | value
deriving DecidableEq, Repr

def Edit.attribute? : Edit → Option Attribute
  | readonly => some .writable
  | nonenumerable | enumerable => some .enumerable
  | nonconfigurable => some .configurable
  | provide => some .value
  | memoize _ | deprecated => none

namespace MemberEdit

def enumerability? (m : MemberEdit) : Option Bool :=
  match m.edit with
  | .nonenumerable => some false
  | .enumerable => some (m.extra.head?.any Value.isTruthy)
  | _ => none

def provided? (m : MemberEdit) : Option Value :=
  match m.edit with
  | .provide => some (m.extra.head?.getD .undefined)
  | _ => none

end MemberEdit

/-- What a list of decorators, in its written order, makes of a descriptor. -/
def Descriptor.attributed (list : List MemberEdit) : Descriptor → Descriptor
  | data v w e c =>
    data ((list.findSome? MemberEdit.provided?).getD v)
      (w && list.all (·.edit ≠ .readonly))
      ((list.findSome? MemberEdit.enumerability?).getD e)
      (c && list.all (·.edit ≠ .nonconfigurable))
  | accessor getter setter e c =>
    accessor getter setter
      ((list.findSome? MemberEdit.enumerability?).getD e)
      (c && list.all (·.edit ≠ .nonconfigurable))

namespace MemberEdit

variable {m a b : MemberEdit}

def effect (m : MemberEdit) (d : Descriptor) : Descriptor :=
  match m.edit with
  | .readonly => d.setWritable false
  | .nonenumerable => d.setEnumerable false
  | .enumerable => d.setEnumerable (m.extra.head?.any Value.isTruthy)
  | .nonconfigurable => d.setConfigurable false
  | .provide => d.setValue (m.extra.head?.getD .undefined)
  | .memoize _ | .deprecated => d

theorem apply_eq_pure (hm : m.edit.attribute?.isSome) (key : String) (d : Descriptor) :
    (m.edit.apply key m.extra d : Action σ Fault Descriptor) = pure (m.effect d) := by
  obtain ⟨label, edit, extra⟩ := m
  cases edit with
  | memoize memo => cases hm
  | deprecated => cases hm
  | _ => rfl

theorem effect_comm (hne : a.edit.attribute? ≠ b.edit.attribute?) (d : Descriptor) :
    a.effect (b.effect d) = b.effect (a.effect d) := by
  obtain ⟨_, edit, extra⟩ := a
  obtain ⟨_, edit', extra'⟩ := b
  cases edit <;> cases edit' <;> first | exact absurd rfl hne | (cases d <;> rfl)

theorem attributed_nil (d : Descriptor) : d.attributed [] = d := by
  cases d <;> simp [Descriptor.attributed]

theorem attributed_cons (m : MemberEdit) (list : List MemberEdit) (d : Descriptor) :
    d.attributed (m :: list) = m.effect (d.attributed list) := by
  obtain ⟨label, edit, extra⟩ := m
  cases d <;> cases edit <;>
    simp [Descriptor.attributed, effect, List.findSome?_cons, enumerability?, provided?,
      Descriptor.setWritable, Descriptor.setEnumerable, Descriptor.setConfigurable,
      Descriptor.setValue]

theorem foldr_effect (list : List MemberEdit) (d : Descriptor) :
    list.foldr effect d = d.attributed list := by
  induction list with
  | nil => exact (attributed_nil d).symm
  | cons m rest ih => rw [List.foldr_cons, ih, attributed_cons]

theorem attributed_swap (hne : a.edit.attribute? ≠ b.edit.attribute?) (above below : List MemberEdit)
    (d : Descriptor) :
    d.attributed (above ++ b :: a :: below) = d.attributed (above ++ a :: b :: below) := by
  rw [← foldr_effect, ← foldr_effect, List.foldr_append, List.foldr_append]
  exact congrArg (List.foldr effect · above) (effect_comm hne.symm _)

end MemberEdit

namespace World

variable {w : World σ} {handle : Handle}

theorem content_setContent (hbound : handle.index < w.heap.cells.size) (d : Descriptor) :
    (w.setContent handle d).heap.content handle = d :=
  (Heap.content_setContent hbound d handle).trans (if_pos rfl)

theorem setContent_self (hbound : handle.index < w.heap.cells.size) :
    w.setContent handle (w.heap.content handle) = w := by
  have hget : w.heap.content handle = w.heap.cells[handle.index] := by simp [Heap.content, hbound]
  rw [setContent, Heap.setContent, hget, Array.setIfInBounds_def, dif_pos hbound,
    Array.set_getElem_self]

theorem setContent_setContent (handle : Handle) (d d' : Descriptor) :
    (w.setContent handle d).setContent handle d' = w.setContent handle d' := by
  simp [setContent, Heap.setContent]

end World

section

variable (host : Host σ) (depth : Nat) (target : Target) (name : String) {handle : Handle}

theorem MemberEdit.yields_edit {m : MemberEdit} (hm : m.edit.attribute?.isSome) (handle : Handle)
    (w : World σ) :
    (m.decorator.edit (Caller.nested host (depth + 1)) target name handle).Yields w
      (.descriptor handle) (w.setContent handle (m.effect (w.heap.content handle))) := by
  change (m.edit.apply name m.extra (w.heap.content handle) >>= fun edited =>
    modifyHeap (·.setContent handle edited) >>= fun _ => pure (Value.descriptor handle)).Yields w _ _
  rw [apply_eq_pure hm, pure_bind]
  exact ⟨rfl, rfl⟩

theorem Chain.yields_member_effects (list : List (MemberEdit × Nat))
    (hlist : ∀ m ∈ list, m.1.edit.attribute?.isSome) {w : World σ}
    (hbound : handle.index < w.heap.cells.size) :
    (Chain.member (Caller.nested host (depth + 1)) target name handle
      (list.map (Prod.map MemberEdit.decorator id))).Yields w ()
      (w.setContent handle (list.foldl (fun d m => m.1.effect d) (w.heap.content handle))) := by
  induction list generalizing w with
  | nil => exact yields_pure.mpr ⟨rfl, (World.setContent_self hbound).symm⟩
  | cons first rest ih =>
    rw [List.forall_mem_cons] at hlist
    have hfirst := first.1.yields_edit host depth target name hlist.1 handle w
    have hrest := ih hlist.2 (w := w.setContent handle (first.1.effect (w.heap.content handle)))
      (by simpa [World.setContent, Heap.setContent] using hbound)
    rw [World.setContent_setContent, World.content_setContent hbound] at hrest
    exact Chain.yields_member_cons.mpr ⟨_, _, hfirst, hrest⟩

theorem applyMemberChain_yields (list : List MemberEdit)
    (hlist : ∀ m ∈ list, m.edit.attribute?.isSome) {w : World σ}
    (hbound : handle.index < w.heap.cells.size) :
    (applyMemberChain (Caller.nested host (depth + 1)) (list.map MemberEdit.decorator) target name
      handle).Yields w ()
      (w.setContent handle ((w.heap.content handle).attributed list)) := by
  have hchain := Chain.yields_member_effects host depth target name list.zipIdx.reverse
    (fun m hm => hlist m.1 (List.fst_mem_of_mem_zipIdx (List.mem_reverse.mp hm))) hbound
  have hfold : list.zipIdx.reverse.foldl (fun d m => m.1.effect d) (w.heap.content handle) =
      (w.heap.content handle).attributed list := by
    rw [List.foldl_reverse, ← MemberEdit.foldr_effect]
    conv_rhs => rw [← List.zipIdx_map_fst 0 list, List.foldr_map]
  rw [hfold, ← bottomUp_map] at hchain
  exact hchain

/-- A list of decorators that set one attribute each never fails, changes nothing but the handle, and
leaves there what the list says, attribute by attribute. With two neighbours that set different
attributes the other way round it does the same. -/
theorem applyMemberChain_attributes (list : List MemberEdit)
    (hlist : ∀ m ∈ list, m.edit.attribute?.isSome) (handle : Handle) (w : World σ)
    (hbound : handle.index < w.heap.cells.size) :
    (applyMemberChain (Caller.nested host (depth + 1)) (list.map MemberEdit.decorator) target name
      handle).Yields w () (w.setContent handle ((w.heap.content handle).attributed list)) ∧
    ∀ above a b below, list = above ++ a :: b :: below →
      a.edit.attribute? ≠ b.edit.attribute? →
      (applyMemberChain (Caller.nested host (depth + 1))
        ((above ++ b :: a :: below).map MemberEdit.decorator) target name handle).Yields w ()
        (w.setContent handle ((w.heap.content handle).attributed list)) := by
  refine ⟨applyMemberChain_yields host depth target name list hlist hbound, ?_⟩
  rintro above a b below rfl hne
  rw [← MemberEdit.attributed_swap hne]
  refine applyMemberChain_yields host depth target name _ (fun m hm => hlist m ?_) hbound
  exact (List.Perm.append_left above (.swap a b below)).mem_iff.mp hm

end

def sharedWorld : World Unit := ⟨{ cells := #[.ordinary .null] }, ()⟩

def layeredList : List MemberEdit :=
  [⟨"@provide", .provide, [.bool true]⟩, ⟨"@enumerable", .enumerable, []⟩, ⟨"@readonly", .readonly, []⟩,
    ⟨"@enumerable", .enumerable, [.bool true]⟩, ⟨"@provide", .provide, [.bool false, .null]⟩]

theorem applyMemberChain_attributes_layered :
    (∀ m ∈ layeredList, m.edit.attribute?.isSome) ∧ (0 : Nat) < sharedWorld.heap.cells.size ∧
    (applyMemberChain (Caller.nested Host.none 1) (layeredList.map MemberEdit.decorator)
      ⟨.object, ⟨0⟩⟩ "x" ⟨0⟩).Yields sharedWorld ()
      (sharedWorld.setContent ⟨0⟩ (.data (.bool true) false false true)) ∧
    (applyMemberChain (Caller.nested Host.none 1)
      (([⟨"@provide", .provide, [.bool true]⟩, ⟨"@readonly", .readonly, []⟩,
        ⟨"@enumerable", .enumerable, []⟩, ⟨"@enumerable", .enumerable, [.bool true]⟩,
        ⟨"@provide", .provide, [.bool false, .null]⟩] : List MemberEdit).map MemberEdit.decorator)
      ⟨.object, ⟨0⟩⟩ "x" ⟨0⟩).Yields sharedWorld ()
      (sharedWorld.setContent ⟨0⟩ (.data (.bool true) false false true)) := by
  have hlist : ∀ m ∈ layeredList, m.edit.attribute?.isSome := by decide
  have hbound : (0 : Nat) < sharedWorld.heap.cells.size := by decide
  obtain ⟨hchain, hswap⟩ := applyMemberChain_attributes Host.none 0 ⟨.object, ⟨0⟩⟩ "x" layeredList hlist
    ⟨0⟩ sharedWorld hbound
  exact ⟨hlist, hbound, hchain, hswap [_] _ _ _ rfl (by decide)⟩

end Decoration
