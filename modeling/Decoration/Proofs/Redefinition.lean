import Decoration.Heap

/-! Defining a property over another. What replaces a property that is not configurable may itself be
replaced only by what could have replaced it at first, so the latest of several definitions in a row
would have been accepted alone. -/

namespace Decoration

namespace Descriptor

/-- How a property that is not configurable may look later. -/
def Settles (d d' : Descriptor) : Prop :=
  d'.configurable = false ∧ d'.enumerable = d.enumerable ∧
    match d, d' with
    | data v w _ _, data v' w' _ _ => w = true ∨ (w' = false ∧ v.same v' = true)
    | accessor g s _ _, accessor g' s' _ _ => g' = g ∧ s' = s
    | _, _ => False

theorem Settles.refl {d : Descriptor} (h : d.configurable = false) : d.Settles d := by
  refine ⟨h, rfl, ?_⟩
  cases d with
  | data v w e c =>
    cases w with
    | true => exact .inl rfl
    | false => exact .inr ⟨rfl, decide_eq_true rfl⟩
  | accessor g s e c => exact ⟨rfl, rfl⟩

theorem Settles.trans {d d' d'' : Descriptor} (h : d.Settles d') (h' : d'.Settles d'') :
    d.Settles d'' := by
  obtain ⟨-, he, hshape⟩ := h
  obtain ⟨hc', he', hshape'⟩ := h'
  refine ⟨hc', he'.trans he, ?_⟩
  match d, d', d'' with
  | data v w e c, data v' w' e' c', data v'' w'' e'' c'' =>
    rcases hshape with hw | ⟨hw', hv⟩
    · exact .inl hw
    · rcases hshape' with hw | ⟨hw'', hv'⟩
      · exact absurd (hw.symm.trans hw') nofun
      · have hv := of_decide_eq_true hv
        have hv' := of_decide_eq_true hv'
        exact .inr ⟨hw'', decide_eq_true (hv.trans hv')⟩
  | accessor g s e c, accessor g' s' e' c', accessor g'' s'' e'' c'' =>
    exact ⟨hshape'.1.trans hshape.1, hshape'.2.trans hshape.2⟩
  | data .., accessor .., _ => exact hshape.elim
  | accessor .., data .., _ => exact hshape.elim
  | data .., data .., accessor .. => exact hshape'.elim
  | accessor .., accessor .., data .. => exact hshape'.elim

theorem redefinable_iff {d d' : Descriptor} : d.redefinable d' = true ↔ d.Settles d' := by
  unfold redefinable Settles
  rw [Bool.and_eq_true, Bool.and_eq_true, Bool.not_eq_true', beq_iff_eq, and_assoc]
  refine and_congr Iff.rfl (and_congr Iff.rfl ?_)
  cases d <;> cases d'
  case data.data => rw [Bool.or_eq_true, Bool.and_eq_true, Bool.not_eq_true']
  case accessor.accessor =>
    rw [Bool.and_eq_true, decide_eq_true_eq, decide_eq_true_eq]
    exact and_congr eq_comm eq_comm
  case data.accessor => exact ⟨fun h => (nomatch h), False.elim⟩
  case accessor.data => exact ⟨fun h => (nomatch h), False.elim⟩

end Descriptor

namespace Properties

theorem find?_eq_none {p : Properties} {key : String} : p.find? key = none ↔ key ∉ p.keys := by
  rw [find?, keys, List.lookup_eq_none_iff, List.mem_map]
  constructor
  · rintro h ⟨entry, hentry, rfl⟩
    simpa using h entry hentry
  · intro h entry hentry
    exact bne_iff_ne.mpr fun heq => h ⟨entry, hentry, heq.symm⟩

theorem place_place (key : String) (d d' : Descriptor) (entries : List (String × Descriptor)) :
    place key d' (place key d entries) = place key d' entries := by
  induction entries with
  | nil => simp [place]
  | cons entry rest ih =>
    by_cases h : entry.1 = key
    · simp [place, h]
    · simp [place, h, ih]

theorem insert_insert (p : Properties) (key : String) (d d' : Descriptor) :
    (p.insert key d).insert key d' = p.insert key d' :=
  congrArg Properties.mk (place_place key d d' p.entries)

end Properties

namespace Object

structure Accepts (o : Object) (key : String) (d : Descriptor) : Prop where
  absent : o.properties.find? key = none → o.extensible = true
  present : ∀ current, o.properties.find? key = some current → current.configurable = false →
    current.Settles d

theorem define_eq_ok {o o' : Object} {key : String} {d : Descriptor} :
    o.define key d = .ok o' ↔ o.Accepts key d ∧ o' = o.insert key d := by
  unfold define
  split
  · rename_i current hcurrent
    have htest : (current.configurable || current.redefinable d) = true ↔ o.Accepts key d := by
      rw [Bool.or_eq_true, Descriptor.redefinable_iff]
      constructor
      · intro h
        refine ⟨fun habsent => absurd (hcurrent.symm.trans habsent) nofun, fun c hc hfixed => ?_⟩
        cases hcurrent.symm.trans hc
        exact h.resolve_left fun hconfigurable => absurd (hconfigurable.symm.trans hfixed) nofun
      · intro h
        cases hc : current.configurable with
        | true => exact .inl rfl
        | false => exact .inr (h.present current hcurrent hc)
    split
    · rename_i hpass
      exact ⟨fun h => ⟨htest.mp hpass, (Except.ok.inj h).symm⟩, fun h => congrArg _ h.2.symm⟩
    · rename_i hfail
      exact ⟨fun h => (nomatch h), fun h => absurd (htest.mpr h.1) hfail⟩
  · rename_i habsent
    split
    · rename_i hextensible
      have haccepts : o.Accepts key d :=
        ⟨fun _ => hextensible, fun c hc => absurd (habsent.symm.trans hc) nofun⟩
      exact ⟨fun h => ⟨haccepts, (Except.ok.inj h).symm⟩, fun h => congrArg _ h.2.symm⟩
    · rename_i hclosed
      exact ⟨fun h => (nomatch h), fun h => absurd (h.1.absent habsent) hclosed⟩

theorem accepts_of_empty {o : Object} (empty : o.properties = {}) (extensible : o.extensible = true)
    (key : String) (d : Descriptor) : o.Accepts key d := by
  refine ⟨fun _ => extensible, fun current hcurrent => ?_⟩
  rw [empty] at hcurrent
  exact nomatch hcurrent

theorem find?_insert_self (o : Object) (key : String) (d : Descriptor) :
    (o.insert key d).properties.find? key = some d := by
  rw [insert, Properties.find?_insert, if_pos rfl]

theorem Accepts.of_insert {o : Object} {key : String} {d d' : Descriptor} (h : o.Accepts key d)
    (h' : (o.insert key d).Accepts key d') : o.Accepts key d' := by
  refine ⟨h.absent, fun current hcurrent hc => ?_⟩
  have hd := h.present current hcurrent hc
  exact hd.trans (h'.present d (o.find?_insert_self key d) hd.1)

theorem Accepts.insert_configurable {o : Object} {key : String} {d : Descriptor}
    (hd : d.configurable = true) (d' : Descriptor) : (o.insert key d).Accepts key d' := by
  have hfind := o.find?_insert_self key d
  refine ⟨fun habsent => absurd (hfind.symm.trans habsent) nofun, fun current hcurrent hc => ?_⟩
  cases hfind.symm.trans hcurrent
  exact absurd (hd.symm.trans hc) nofun

theorem Accepts.of_free {o : Object} {key : String} {d : Descriptor} (h : o.Accepts key d)
    (free : ∀ current, o.properties.find? key = some current → current.configurable = true)
    (d' : Descriptor) : o.Accepts key d' :=
  ⟨h.absent, fun current hcurrent hc => absurd ((free current hcurrent).symm.trans hc) nofun⟩

end Object

namespace Heap

theorem define_eq_ok {h h' : Heap} {id : ObjectId} {key : String} {d : Descriptor} :
    h.define id key d = .ok h' ↔
      (h.object id).Accepts key d ∧ h' = h.setObject id ((h.object id).insert key d) := by
  unfold define
  cases hdefine : (h.object id).define key d with
  | error fault =>
    refine ⟨fun h => (nomatch h), fun hok => ?_⟩
    rw [Object.define_eq_ok.mpr ⟨hok.1, rfl⟩] at hdefine
    exact nomatch hdefine
  | ok o =>
    obtain ⟨haccepts, rfl⟩ := Object.define_eq_ok.mp hdefine
    exact ⟨fun hok => ⟨haccepts, (Except.ok.inj hok).symm⟩, fun hok => congrArg _ hok.2.symm⟩

theorem own?_eq_none {h : Heap} {id : ObjectId} {key : String} :
    h.own? id key = none ↔ key ∉ h.ownKeys id := Properties.find?_eq_none

theorem mem_ownKeys_of_own? {h : Heap} {id : ObjectId} {key : String} {d : Descriptor}
    (hd : h.own? id key = some d) : key ∈ h.ownKeys id :=
  Decidable.byContradiction fun habsent => absurd (hd.symm.trans (own?_eq_none.mpr habsent)) nofun

theorem lt_size_of_accepts {h : Heap} {id : ObjectId} {key : String} {d : Descriptor}
    (ha : (h.object id).Accepts key d) : id.index < h.objects.size := by
  by_cases hid : id.index < h.objects.size
  · exact hid
  · rw [object_of_size_le (Nat.le_of_not_lt hid)] at ha
    exact nomatch ha.absent rfl

end Heap
end Decoration
