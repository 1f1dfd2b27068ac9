import Decoration.Proofs.Assignment
import Decoration.Proofs.Grounded.Program
import Decoration.Proofs.Instantiation

/-! Prototypes are older than what inherits from them, so every walk up a prototype chain comes to an end,
and the walks of `has` and `get` to the same one. -/

namespace Decoration

open Decoration.Action

variable {σ ε α : Type} {n : Nat} {caller : Caller σ}

namespace Heap

/-- The loop that looks for a property, for so many objects at most. There is no answer if it would go on
after that. -/
def search (h : Heap) (key : String) : Nat → Option ObjectId → Option (Option Descriptor)
  | _, none => some none
  | 0, some _ => none
  | turns + 1, some id =>
    match h.own? id key with
    | some d => some (some d)
    | none => h.search key turns (h.object id).prototype

end Heap

namespace ObjectId

def read (caller : Caller σ) (receiver : ObjectId) (h : Heap) (key : String) :
    Nat → Option ObjectId → Option (Action σ Fault Value)
  | _, none => some (pure .undefined)
  | 0, some _ => none
  | turns + 1, some id =>
    match h.own? id key with
    | some (.data value ..) => some (pure value)
    | some (.accessor (some getter) ..) => some (getter.call caller (.object receiver) [])
    | some (.accessor none ..) => some (pure .undefined)
    | none => receiver.read caller h key turns (h.object id).prototype

def answer (caller : Caller σ) (receiver : ObjectId) : Option Descriptor → Action σ Fault Value
  | some (.data value ..) => pure value
  | some (.accessor (some getter) ..) => getter.call caller (.object receiver) []
  | some (.accessor none ..) | none => pure .undefined

theorem read_eq_search (caller : Caller σ) (receiver : ObjectId) (h : Heap) (key : String) (turns : Nat)
    (id : Option ObjectId) :
    receiver.read caller h key turns id = (h.search key turns id).map (receiver.answer caller) := by
  induction turns generalizing id with
  | zero => cases id <;> rfl
  | succ turns ih =>
    cases id with
    | none => rfl
    | some id =>
      -- Both are at one object with as many turns left, and branch on what it owns.
      rw [read, Heap.search]
      rcases h.own? id key with _ | ⟨_⟩ | ⟨_ | getter, _⟩
      · exact ih _
      · rfl
      · rfl
      · rfl

theorem get_eq_answer (caller : Caller σ) (id : ObjectId) (key : String) (w : World σ) :
    id.get caller key w = id.answer caller (w.heap.find? id key) w := by
  change (match w.heap.find? id key with
    | some d => id.valueOf caller d
    | none => pure .undefined : Action σ Fault Value) w = _
  rcases w.heap.find? id key with _ | ⟨_⟩ | ⟨_ | getter, _⟩ <;> rfl

end ObjectId

namespace Heap

/-- What is known of a look-up: what it meets, that both loops come to it within as many turns as there are
objects, and what `has` and `get` make of it. -/
structure LooksUp (h : Heap) (key : String) (id : ObjectId) (found : Option Descriptor) : Prop where
  meets : h.Meets key id found
  search : h.search key h.objects.size (some id) = some found
  read : ∀ (σ : Type) (caller : Caller σ),
    id.read caller h key h.objects.size (some id) = some (id.answer caller found)
  has : h.has id key = found.isSome
  lacks : h.has id key = false ↔ h.Lacks key id
  get : ∀ (σ : Type) (caller : Caller σ) (w : World σ), w.heap = h →
    id.get caller key w = id.answer caller found w

namespace Grounded

variable {h : Heap} {id : ObjectId} {key : String}

/-- The walk goes down from index to index, so it takes no more turns than there are objects up to the
first. -/
theorem exists_search (g : h.Grounded) (key : String) {turns : Nat} (hid : id.index < turns) :
    ∃ found, h.search key turns (some id) = some found ∧ h.Meets key id found := by
  induction turns generalizing id with
  | zero => exact absurd hid (Nat.not_lt_zero _)
  | succ turns ih =>
    rw [search]
    cases hown : h.own? id key with
    | some d => exact ⟨some d, rfl, [], .own hown⟩
    | none =>
      cases hp : (h.object id).prototype with
      | none =>
        refine ⟨none, by cases turns <;> rfl, fun o ho => ?_⟩
        cases ho with
        | self => exact hown
        | step hp' _ => cases hp.symm.trans hp'
      | some p =>
        -- A turn is gone, and so is the object with the greatest index of the chain.
        have hlt : p.index < turns := Nat.lt_of_lt_of_le (g.prototype id p hp) (Nat.le_of_lt_succ hid)
        obtain ⟨found, hsearch, hmeets⟩ := ih hlt
        refine ⟨found, hsearch, ?_⟩
        cases found with
        | some d =>
          obtain ⟨rest, hleads⟩ := hmeets
          exact ⟨p :: rest, .inherited hown hp hleads⟩
        | none =>
          intro o ho
          cases ho with
          | self => exact hown
          | step hp' ho' =>
            cases hp.symm.trans hp'
            exact hmeets o ho'

theorem exists_looksUp (g : h.Grounded) (hid : id.index < h.objects.size) (key : String) :
    ∃ found, h.LooksUp key id found := by
  obtain ⟨found, hsearch, hmeets⟩ := g.exists_search key hid
  have hfind := meets_iff.mp hmeets
  refine ⟨found, hmeets, hsearch, fun σ caller => ?_, ?_, ?_, fun σ caller w hw => ?_⟩
  · rw [ObjectId.read_eq_search, hsearch, Option.map_some]
  · rw [has, hfind]
  · rw [has, Option.isSome_eq_false_iff, Option.isNone_iff_eq_none, find?_eq_none_iff]
  · rw [ObjectId.get_eq_answer, hw, hfind]

end Grounded
end Heap

def World.blank (tables : Nat) (state : σ) : World σ where
  heap := { memos := Array.replicate tables {} }
  host := state

/-- At every moment of a run that starts with nothing, whatever the program does and whatever functions and
decorators it runs, every prototype was made before the object that has it, and every look-up ends, for
`has` and for `get` at the same descriptor. -/
theorem Program.walks_agree (programs : Nat → Value → List Value → Program σ) (depth : Nat)
    (program : Program σ) (tables : Nat) (state : σ) :
    ∀ h ∈ (program.guarded.run (Caller.nested (Host.ofGuarded programs) depth)).history
        (World.blank tables state),
      (∀ id p, (h.object id).prototype = some p → p.number < id.number) ∧
      ∀ id key, id.index < h.objects.size → ∃ found, h.LooksUp key id found := by
  have hcaller := Caller.grounds_nested (Host.grounds_ofGuarded programs) depth
  have hrun := program.grounds_run hcaller 0
  intro h hh
  have g : h.Grounded := hrun.history (Heap.Grounded.blank tables) (Nat.zero_le _) h hh
  constructor
  · intro id p hp
    exact Nat.succ_lt_succ (g.prototype id p hp)
  · intro id key hid
    exact g.exists_looksUp hid key

def tile : ClassDecl where
  name := "Tile"
  elements := [{
    name := "self"
    decorators := [{ callee := .identifier "enumerable", arguments := [.literal (.bool true)] }]
    kind := .getter (.native "self" 0) }]

def receivers : Nat → Value → List Value → Program Unit := fun _ receiver _ => .finish (.ok receiver)

def Program.withObject (next : ObjectId → Program Unit) : Reply → Program Unit
  | .done (.object id) => next id
  | _ => .finish (.ok .undefined)

def tiling : Program Unit :=
  .perform (.create (.function (.edit .enumerable)) none) <| Program.withObject fun enumerable =>
  .perform (.evaluateClass {} tile ⟨[[("enumerable", .object enumerable)]]⟩) <|
    Program.withObject fun constructor =>
  .perform (.instantiate constructor) <| Program.withObject fun fresh =>
  .perform (.get fresh "self") <| Program.withObject fun receiver =>
  .finish (.ok (.object receiver))

theorem Program.walks_agree_tile :
    ∃ h ∈ (tiling.guarded.run (Caller.nested (Host.ofGuarded receivers) 2)).history (World.blank 0 ()),
      (h.object ⟨4⟩).prototype = some ⟨1⟩ ∧
      h.LooksUp "self" ⟨4⟩ (some (.accessor (some (.object ⟨3⟩)) none true true)) ∧
      (tiling.guarded.run (Caller.nested (Host.ofGuarded receivers) 2) (World.blank 0 ())).outcome =
        .ok (.object ⟨4⟩) := by
  have hend := (tiling.guarded.run (Caller.nested (Host.ofGuarded receivers) 2)).last_mem_history
    (World.blank 0 ())
  obtain ⟨-, hlookUp⟩ := Program.walks_agree receivers 2 tiling 0 () _ hend
  obtain ⟨found, hfound⟩ := hlookUp ⟨4⟩ "self" (by decide)
  have hgetter : found = some (.accessor (some (.object ⟨3⟩)) none true true) := by
    rw [← Heap.meets_iff.mp hfound.meets]
    decide
  rw [hgetter] at hfound
  exact ⟨_, hend, by decide, hfound, by decide⟩

end Decoration
