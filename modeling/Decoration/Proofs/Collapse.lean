import Decoration.Proofs.Success.Engine

/-! Definitions of one key in a row. A definition that is refused changes nothing, one that is repeated
changes nothing more, and of a history of definitions the last one alone is left. -/

namespace Decoration

open Decoration.Action

variable {σ : Type}

theorem Object.accepts_insert_self (o : Object) (key : String) (d : Descriptor) :
    (o.insert key d).Accepts key d := by
  have hfind := o.find?_insert_self key d
  refine ⟨fun habsent => absurd (hfind.symm.trans habsent) nofun, fun current hcurrent hc => ?_⟩
  cases hfind.symm.trans hcurrent
  exact .refl hc

namespace ObjectId

variable {id : ObjectId} {key : String} {d d' : Descriptor} {w w' w'' : World σ}

def defineAll (id : ObjectId) (key : String) : List Descriptor → Action σ Fault Unit
  | [] => pure ()
  | d :: rest => do
    id.define key d
    id.defineAll key rest

theorem define_again (h : (id.define key d : Action σ Fault Unit).Yields w () w') :
    (id.define key d : Action σ Fault Unit).Yields w' () w' := by
  obtain ⟨haccepts, rfl⟩ := yields_define.mp h
  have hid := Heap.lt_size_of_accepts haccepts
  refine yields_define.mpr ⟨?_, World.insert_insert hid key d d⟩
  rw [World.object_insert_self hid]
  exact Object.accepts_insert_self _ key d

theorem define_second (h : (id.define key d : Action σ Fault Unit).Yields w () w')
    (h' : (id.define key d' : Action σ Fault Unit).Yields w' () w'') :
    (id.define key d' : Action σ Fault Unit).Yields w () w'' := by
  obtain ⟨haccepts, rfl⟩ := yields_define.mp h
  obtain ⟨haccepts', rfl⟩ := yields_define.mp h'
  have hid := Heap.lt_size_of_accepts haccepts
  rw [World.object_insert_self hid] at haccepts'
  exact yields_define.mpr ⟨haccepts.of_insert haccepts', (World.insert_insert hid key d d').symm⟩

theorem define_last {history : List Descriptor}
    (h : (id.defineAll key (history ++ [d]) : Action σ Fault Unit).Yields w () w') :
    (id.define key d : Action σ Fault Unit).Yields w () w' := by
  -- From the front: the history after its first definition has collapsed already.
  induction history generalizing w with
  | nil =>
    obtain ⟨⟨⟩, w₁, hd, h⟩ := yields_bind.mp h
    obtain ⟨-, rfl⟩ := yields_pure.mp h
    exact hd
  | cons first rest ih =>
    obtain ⟨⟨⟩, w₁, hfirst, hrest⟩ := yields_bind.mp h
    exact define_second hfirst (ih hrest)

/-- Redefinition. What is refused leaves the world as it was. What is accepted is there afterwards, and
the same again is accepted and changes nothing. However long a history of accepted definitions is, its
last one would have been accepted at once and would have left the same. -/
theorem define_collapses (id : ObjectId) (key : String) (w : World σ) :
    (∀ d, (∃ w', (id.define key d : Action σ Fault Unit).Yields w () w') ∨
      ∃ fault, (id.define key d : Action σ Fault Unit) w = ⟨.failed fault, w, []⟩) ∧
    (∀ d w', (id.define key d : Action σ Fault Unit).Yields w () w' →
      w'.heap.own? id key = some d ∧ (id.define key d : Action σ Fault Unit).Yields w' () w') ∧
    ∀ history last w',
      (id.defineAll key (history ++ [last]) : Action σ Fault Unit).Yields w () w' →
      (id.define key last : Action σ Fault Unit).Yields w () w' := by
  refine ⟨fun d => id.define_total key d w, fun d w' h => ⟨?_, define_again h⟩,
    fun history last w' => define_last⟩
  obtain ⟨haccepts, rfl⟩ := yields_define.mp h
  exact World.own?_insert_self (Heap.lt_size_of_accepts haccepts)

end ObjectId

def settledWorld : World Unit where
  heap := { objects := #[{ extensible := false, properties := ⟨[("x", .data .null true false false)]⟩ }] }
  host := ()

def settledHistory : List Descriptor :=
  [.data (.bool true) true false false, .data (.number .nan) true false false]

theorem ObjectId.define_collapses_settled :
    ∃ w', (ObjectId.defineAll ⟨0⟩ "x" (settledHistory ++ [.data (.number .nan) false false false]) :
        Action Unit Fault Unit).Yields settledWorld () w' ∧
      (ObjectId.define ⟨0⟩ "x" (.data (.number .nan) false false false) :
        Action Unit Fault Unit).Yields settledWorld () w' ∧
      w'.heap.own? ⟨0⟩ "x" = some (.data (.number .nan) false false false) ∧
      (ObjectId.define ⟨0⟩ "x" (.data (.number .nan) false false false) :
        Action Unit Fault Unit).Yields w' () w' := by
  obtain ⟨-, hagain, hlast⟩ := ObjectId.define_collapses (σ := Unit) ⟨0⟩ "x" settledWorld
  have hhistory : (ObjectId.defineAll ⟨0⟩ "x"
      (settledHistory ++ [.data (.number .nan) false false false]) :
      Action Unit Fault Unit).Yields settledWorld () _ := ⟨rfl, rfl⟩
  have hdefine := hlast _ _ _ hhistory
  obtain ⟨hown, hsame⟩ := hagain _ _ hdefine
  exact ⟨_, hhistory, hdefine, hown, hsame⟩

end Decoration
