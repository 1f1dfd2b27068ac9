import Decoration.Proofs.Growth
import Decoration.Proofs.Stepwise.Access
import Mathlib.Data.List.Nodup
import Mathlib.Data.List.Perm.Subperm

/-! The prototype chain of an object. A look-up goes from object to object and ends at the first that
owns the key, and no chain is too long for it. -/

namespace Decoration.Heap

variable {h h' : Heap} {key : String} {id o p : ObjectId} {d d' : Descriptor}
  {rest rest' : List ObjectId}

inductive Inherits (h : Heap) : ObjectId → ObjectId → Prop where
  | self (id : ObjectId) : h.Inherits id id
  | step {id p o : ObjectId} : (h.object id).prototype = some p → h.Inherits p o → h.Inherits id o

/-- Of the object and the prototypes that follow it, only the last owns the key, with this
descriptor. -/
inductive Leads (h : Heap) (key : String) : ObjectId → List ObjectId → Descriptor → Prop where
  | own {id : ObjectId} {d : Descriptor} : h.own? id key = some d → h.Leads key id [] d
  | inherited {id p : ObjectId} {rest : List ObjectId} {d : Descriptor} :
    h.own? id key = none → (h.object id).prototype = some p → h.Leads key p rest d →
      h.Leads key id (p :: rest) d

def Finds (h : Heap) (key : String) (id : ObjectId) (d : Descriptor) : Prop :=
  ∃ rest, h.Leads key id rest d

def Lacks (h : Heap) (key : String) (id : ObjectId) : Prop :=
  ∀ o, h.Inherits id o → h.own? o key = none

theorem lt_size_of_prototype (hp : (h.object id).prototype = some p) :
    id.index < h.objects.size := by
  by_contra hid
  rw [object_of_size_le (Nat.le_of_not_lt hid)] at hp
  cases hp

namespace Leads

theorem unique (hl : h.Leads key id rest d) (hl' : h.Leads key id rest' d') :
    rest = rest' ∧ d = d' := by
  induction hl generalizing rest' with
  | own hown =>
    cases hl' with
    | own hown' => exact ⟨rfl, Option.some.inj (hown.symm.trans hown')⟩
    | inherited hnone => cases hown.symm.trans hnone
  | inherited hnone hp _ ih =>
    cases hl' with
    | own hown => cases hnone.symm.trans hown
    | inherited _ hp' hl' =>
      cases hp.symm.trans hp'
      obtain ⟨rfl, rfl⟩ := ih hl'
      exact ⟨rfl, rfl⟩

theorem exists_owner (hl : h.Leads key id rest d) :
    ∃ o, h.Inherits id o ∧ h.own? o key = some d := by
  induction hl with
  | own hown => exact ⟨_, .self _, hown⟩
  | inherited _ hp _ ih =>
    obtain ⟨o, ho, hown⟩ := ih
    exact ⟨o, .step hp ho, hown⟩

theorem lt_size (hl : h.Leads key id rest d) : ∀ o ∈ id :: rest, o.index < h.objects.size := by
  induction hl with
  | own hown => simpa using lt_size_of_own? hown
  | inherited _ hp _ ih => exact List.forall_mem_cons.mpr ⟨lt_size_of_prototype hp, ih⟩

theorem exists_shorter (hl : h.Leads key id rest d) (ho : o ∈ rest) :
    ∃ rest', h.Leads key o rest' d ∧ rest'.length < rest.length := by
  induction hl with
  | own _ => cases ho
  | inherited _ _ hl ih =>
    rcases List.mem_cons.mp ho with rfl | ho
    · exact ⟨_, hl, Nat.lt_succ_self _⟩
    · obtain ⟨rest', hl', hlt⟩ := ih ho
      exact ⟨rest', hl', Nat.lt_succ_of_lt hlt⟩

/-- The way to the owner never comes back to an object, since it would go on from there as it did
before. -/
theorem nodup (hl : h.Leads key id rest d) : (id :: rest).Nodup := by
  induction hl with
  | own _ => exact List.nodup_cons.mpr ⟨List.not_mem_nil, List.nodup_nil⟩
  | inherited hnone hp hl ih =>
    refine List.nodup_cons.mpr ⟨fun ho => ?_, ih⟩
    have hall := Leads.inherited hnone hp hl
    obtain ⟨rest', hl', hlt⟩ := hall.exists_shorter ho
    rw [(hl'.unique hall).1] at hlt
    exact absurd hlt (Nat.lt_irrefl _)

theorem length_lt (hl : h.Leads key id rest d) : rest.length < h.objects.size := by
  have hinjective : Function.Injective ObjectId.index := by
    rintro ⟨i⟩ ⟨j⟩ hij
    exact congrArg _ hij
  have hsubset : (id :: rest).map ObjectId.index ⊆ List.range h.objects.size := by
    intro i hi
    obtain ⟨o, ho, rfl⟩ := List.mem_map.mp hi
    exact List.mem_range.mpr (hl.lt_size o ho)
  have hlength := (List.subperm_of_subset (hl.nodup.map hinjective) hsubset).length_le
  rwa [List.length_map, List.length_range] at hlength

theorem findWithin {n : Nat} (hl : h.Leads key id rest d) (hn : rest.length < n) :
    h.findWithin key n id = some d := by
  obtain ⟨n, rfl⟩ := Nat.exists_eq_succ_of_ne_zero (Nat.ne_zero_of_lt hn)
  induction hl generalizing n with
  | own hown => rw [Heap.findWithin, hown]
  | inherited hnone hp _ ih =>
    have hrest := Nat.lt_of_succ_lt_succ hn
    obtain ⟨n, rfl⟩ := Nat.exists_eq_succ_of_ne_zero (Nat.ne_zero_of_lt hrest)
    rw [Heap.findWithin, hnone, hp]
    exact ih n hrest

theorem grows (hl : h.Leads key id rest d) (g : h.Grows h') : h'.Leads key id rest d := by
  induction hl with
  | own hown =>
    refine .own ?_
    rw [own?, g.same _ (lt_size_of_own? hown)]
    exact hown
  | @inherited id _ _ _ hnone hp _ ih =>
    have hsame := g.same id (lt_size_of_prototype hp)
    refine .inherited ?_ (by rw [hsame]; exact hp) ih
    rw [own?, hsame]
    exact hnone

end Leads

theorem finds_of_findWithin {n : Nat} (hd : h.findWithin key n id = some d) : h.Finds key id d := by
  induction n generalizing id with
  | zero => cases hd
  | succ n ih =>
    rw [findWithin] at hd
    cases hown : h.own? id key with
    | some d' =>
      rw [hown] at hd
      cases hd
      exact ⟨[], .own hown⟩
    | none =>
      rw [hown] at hd
      obtain ⟨p, hp, hd⟩ := Option.bind_eq_some_iff.mp hd
      obtain ⟨rest, hl⟩ := ih hd
      exact ⟨p :: rest, .inherited hown hp hl⟩

theorem find?_eq_some_iff : h.find? id key = some d ↔ h.Finds key id d :=
  ⟨finds_of_findWithin, fun ⟨_, hl⟩ => hl.findWithin hl.length_lt⟩

theorem Inherits.exists_finds (ho : h.Inherits id o) (hd : h.own? o key = some d) :
    ∃ d', h.Finds key id d' := by
  induction ho with
  | self _ => exact ⟨d, [], .own hd⟩
  | @step id p _ hp _ ih =>
    cases hown : h.own? id key with
    | some d' => exact ⟨d', [], .own hown⟩
    | none =>
      obtain ⟨d', rest, hl⟩ := ih hd
      exact ⟨d', p :: rest, .inherited hown hp hl⟩

theorem find?_eq_none_iff : h.find? id key = none ↔ h.Lacks key id := by
  constructor
  · intro hnone o ho
    by_contra hown
    obtain ⟨d, hd⟩ := Option.ne_none_iff_exists'.mp hown
    obtain ⟨d', hfinds⟩ := ho.exists_finds hd
    cases hnone.symm.trans (find?_eq_some_iff.mpr hfinds)
  · intro hlacks
    by_contra hsome
    obtain ⟨d, hd⟩ := Option.ne_none_iff_exists'.mp hsome
    obtain ⟨rest, hl⟩ := find?_eq_some_iff.mp hd
    obtain ⟨o, ho, hown⟩ := hl.exists_owner
    cases (hlacks o ho).symm.trans hown

def Rooted (h : Heap) (id : ObjectId) : Prop := ∀ o, h.Inherits id o → o.index < h.objects.size

theorem Inherits.of_grows (hrooted : h.Rooted id) (g : h.Grows h') (ho : h'.Inherits id o) :
    h.Inherits id o := by
  induction ho with
  | self id => exact .self id
  | step hp _ ih =>
    rw [g.same _ (hrooted _ (.self _))] at hp
    exact .step hp (ih fun o ho => hrooted o (.step hp ho))

theorem Grows.find?_eq (g : h.Grows h') (hrooted : h.Rooted id) (key : String) :
    h'.find? id key = h.find? id key := by
  cases hd : h.find? id key with
  | some d =>
    obtain ⟨rest, hl⟩ := find?_eq_some_iff.mp hd
    exact find?_eq_some_iff.mpr ⟨rest, hl.grows g⟩
  | none =>
    refine find?_eq_none_iff.mpr fun o ho => ?_
    have ho' := Inherits.of_grows hrooted g ho
    rw [own?, g.same o (hrooted o ho')]
    exact find?_eq_none_iff.mp hd o ho'

end Decoration.Heap
