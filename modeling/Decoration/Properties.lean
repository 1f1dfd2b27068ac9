import Decoration.Descriptor

/-! A table of own properties in the order in which their keys were first defined. -/

namespace Decoration

structure Properties where
  entries : List (String × Descriptor) := []
deriving DecidableEq, Repr, Inhabited

namespace Properties

def keys (p : Properties) : List String := p.entries.map (·.1)

def find? (p : Properties) (key : String) : Option Descriptor := p.entries.lookup key

def place (key : String) (d : Descriptor) : List (String × Descriptor) → List (String × Descriptor)
  | [] => [(key, d)]
  | entry :: rest => if entry.1 = key then (key, d) :: rest else entry :: place key d rest

/-- A key that is present keeps its position, a new one goes to the end. -/
def insert (p : Properties) (key : String) (d : Descriptor) : Properties :=
  ⟨place key d p.entries⟩

theorem lookup_cons_ne {key other : String} {d : Descriptor} {entries : List (String × Descriptor)}
    (h : other ≠ key) : List.lookup other ((key, d) :: entries) = entries.lookup other := by
  rw [List.lookup_cons, beq_eq_false_iff_ne.mpr h]

theorem lookup_place (key other : String) (d : Descriptor) (entries : List (String × Descriptor)) :
    (place key d entries).lookup other = if other = key then some d else entries.lookup other := by
  induction entries with
  | nil =>
    by_cases h : other = key
    · rw [place, if_pos h, h, List.lookup_cons_self]
    · rw [place, if_neg h, lookup_cons_ne h]
  | cons entry rest ih =>
    obtain ⟨k, e⟩ := entry
    by_cases hk : k = key
    · by_cases h : other = key
      · rw [place, if_pos hk, if_pos h, h, List.lookup_cons_self]
      · rw [place, if_pos hk, if_neg h, lookup_cons_ne h, hk, lookup_cons_ne h]
    · by_cases h : other = k
      · rw [place, if_neg hk, h, List.lookup_cons_self, if_neg hk, List.lookup_cons_self]
      · rw [place, if_neg hk, lookup_cons_ne h, ih, lookup_cons_ne h]

theorem find?_insert (p : Properties) (key other : String) (d : Descriptor) :
    (p.insert key d).find? other = if other = key then some d else p.find? other :=
  lookup_place key other d p.entries

theorem map_fst_place (key : String) (d : Descriptor) (entries : List (String × Descriptor)) :
    (place key d entries).map (·.1) =
      entries.map (·.1) ++ if key ∈ entries.map (·.1) then [] else [key] := by
  induction entries with
  | nil => rfl
  | cons entry rest ih =>
    by_cases h : entry.1 = key
    · simp [place, h]
    · rw [place, if_neg h, List.map_cons, ih, List.map_cons, List.cons_append]
      by_cases hk : key ∈ rest.map (·.1)
      · rw [if_pos hk, if_pos (List.mem_cons_of_mem _ hk)]
      · rw [if_neg hk, if_neg (by simpa [Ne.symm h] using hk)]

theorem keys_insert (p : Properties) (key : String) (d : Descriptor) :
    (p.insert key d).keys = p.keys ++ if key ∈ p.keys then [] else [key] :=
  map_fst_place key d p.entries

end Properties
end Decoration
