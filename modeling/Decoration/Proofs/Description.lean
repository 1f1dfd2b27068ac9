import Decoration.Proofs.Confined
import Decoration.Proofs.Lineage

/-! Which values describe a property, and as what: each field of a description is read at most once. -/

namespace Decoration

open Decoration.Action

variable {σ α : Type} {caller : Caller σ} {h : Heap} {id : ObjectId} {key : String}
  {w w' v v' : World σ} {o : Option Value} {d : Descriptor}

def descriptionFields : List String :=
  ["enumerable", "configurable", "get", "set", "value", "writable"]

def Heap.AcceptsHalf (h : Heap) (half : Option Value) : Prop :=
  ∀ v, half = some v → v = .undefined ∨ h.isCallable v = true

namespace ObjectId

inductive Reads (caller : Caller σ) (h : Heap) (id : ObjectId) (key : String) :
    World σ → Option Value → World σ → Prop where
  | missing {w : World σ} : h.Lacks key id → id.Reads caller h key w none w
  | data {w : World σ} {value : Value} {writable e c : Bool} :
    h.Finds key id (.data value writable e c) → id.Reads caller h key w (some value) w
  | noGetter {w : World σ} {setter : Option Value} {e c : Bool} :
    h.Finds key id (.accessor none setter e c) → id.Reads caller h key w (some .undefined) w
  | computed {w w' : World σ} {getter value : Value} {setter : Option Value} {e c : Bool} :
    h.Finds key id (.accessor (some getter) setter e c) →
      (getter.call caller (.object id) []).Yields w value w' →
      id.Reads caller h key w (some value) w'

/-- Reading the object changes nothing that is there: the objects of its chain exist, and its getters
may fail and create objects, but write to none that was there. -/
structure Legible (caller : Caller σ) (w : World σ) (id : ObjectId) : Prop where
  rooted : w.heap.Rooted id
  getters : ∀ key getter setter e c, w.heap.Finds key id (.accessor (some getter) setter e c) →
    ∀ v : World σ, w.heap.Grows v.heap → (getter.call caller (.object id) []).Preserves w.heap v

/-- What an object describes, and the world that is left when its fields have been read. -/
inductive Describes (caller : Caller σ) (w : World σ) (id : ObjectId) :
    Descriptor → World σ → Prop where
  | data {w₁ w₂ w₃ w₄ : World σ} {enumerable configurable value writable : Option Value} :
    id.Reads caller w.heap "enumerable" w enumerable w₁ →
    id.Reads caller w.heap "configurable" w₁ configurable w₂ →
    w.heap.Lacks "get" id → w.heap.Lacks "set" id →
    id.Reads caller w.heap "value" w₂ value w₃ →
    id.Reads caller w.heap "writable" w₃ writable w₄ →
    id.Describes caller w (.data (value.getD .undefined) (writable.any Value.isTruthy)
      (enumerable.any Value.isTruthy) (configurable.any Value.isTruthy)) w₄
  | accessor {w₁ w₂ w₃ w₄ : World σ} {enumerable configurable getter setter : Option Value} :
    id.Reads caller w.heap "enumerable" w enumerable w₁ →
    id.Reads caller w.heap "configurable" w₁ configurable w₂ →
    id.Reads caller w.heap "get" w₂ getter w₃ →
    id.Reads caller w.heap "set" w₃ setter w₄ →
    ¬ (w.heap.Lacks "get" id ∧ w.heap.Lacks "set" id) →
    w₄.heap.AcceptsHalf getter → w₄.heap.AcceptsHalf setter →
    w.heap.Lacks "value" id → w.heap.Lacks "writable" id →
    id.Describes caller w (.accessor (getter.filter (!·.isUndefined))
      (setter.filter (!·.isUndefined)) (enumerable.any Value.isTruthy)
      (configurable.any Value.isTruthy)) w₄

def reading (caller : Caller σ) (id : ObjectId) : Option Descriptor → Action σ Fault (Option Value)
  | some d => some <$> id.valueOf caller d
  | none => pure none

def readings (caller : Caller σ) (h : Heap) (id : ObjectId) : List String → Action σ Fault Unit
  | [] => pure ()
  | key :: keys => do
    let _ ← id.reading caller (h.find? id key)
    id.readings caller h keys

def ReadsAlong (caller : Caller σ) (h : Heap) (id : ObjectId) (keys : List String)
    (x : Action σ Fault α) (w : World σ) : Prop :=
  ∃ read, read <+: keys ∧ (x w).world = (id.readings caller h read w).world ∧
    (x w).events = (id.readings caller h read w).events

theorem field?_eq_reading (caller : Caller σ) (id : ObjectId) (key : String) (w : World σ) :
    id.field? caller key w = id.reading caller (w.heap.find? id key) w := by
  have hget : id.get caller key w =
      (match w.heap.find? id key with
        | some d => id.valueOf caller d
        | none => pure .undefined : Action σ Fault Value) w := rfl
  have hfield : id.field? caller key w =
      (if w.heap.has id key then some <$> id.get caller key else pure none) w := rfl
  rw [hfield, Heap.has]
  cases hd : w.heap.find? id key with
  | none => rfl
  | some d =>
    rw [hd] at hget
    change Action.bind (id.get caller key) (Action.pure ∘ some) w =
      Action.bind (id.valueOf caller d) (Action.pure ∘ some) w
    rw [Action.bind, hget]
    rfl

theorem yields_reading : (id.reading caller (h.find? id key)).Yields w o w' ↔
    id.Reads caller h key w o w' := by
  constructor
  · intro hr
    cases hd : h.find? id key with
    | none =>
      rw [hd] at hr
      obtain ⟨rfl, rfl⟩ := yields_pure.mp hr
      exact .missing (Heap.find?_eq_none_iff.mp hd)
    | some d =>
      rw [hd] at hr
      have hfinds := Heap.find?_eq_some_iff.mp hd
      obtain ⟨value, hvalue, rfl⟩ := yields_map.mp hr
      match d with
      | .data .. =>
        obtain ⟨rfl, rfl⟩ := yields_pure.mp hvalue
        exact .data hfinds
      | .accessor none .. =>
        obtain ⟨rfl, rfl⟩ := yields_pure.mp hvalue
        exact .noGetter hfinds
      | .accessor (some getter) .. => exact .computed hfinds hvalue
  · intro hr
    cases hr with
    | missing hlacks =>
      rw [Heap.find?_eq_none_iff.mpr hlacks]
      exact yields_pure.mpr ⟨rfl, rfl⟩
    | data hfinds =>
      rw [Heap.find?_eq_some_iff.mpr hfinds]
      exact yields_map.mpr ⟨_, yields_pure.mpr ⟨rfl, rfl⟩, rfl⟩
    | noGetter hfinds =>
      rw [Heap.find?_eq_some_iff.mpr hfinds]
      exact yields_map.mpr ⟨_, yields_pure.mpr ⟨rfl, rfl⟩, rfl⟩
    | computed hfinds hcall =>
      rw [Heap.find?_eq_some_iff.mpr hfinds]
      exact yields_map.mpr ⟨_, hcall, rfl⟩

theorem Reads.eq_none_iff (hr : id.Reads caller h key w o w') : o = none ↔ h.Lacks key id := by
  cases hr with
  | missing hlacks => exact iff_of_true rfl hlacks
  | data hfinds | noGetter hfinds | computed hfinds _ =>
    refine iff_of_false nofun fun hlacks => ?_
    cases (Heap.find?_eq_some_iff.mpr hfinds).symm.trans (Heap.find?_eq_none_iff.mpr hlacks)

namespace Legible

theorem field?_eq (hl : id.Legible caller w) (g : w.heap.Grows v.heap) (key : String) :
    id.field? caller key v = id.reading caller (w.heap.find? id key) v := by
  rw [field?_eq_reading, g.find?_eq hl.rooted]

theorem yields_field? (hl : id.Legible caller w) (g : w.heap.Grows v.heap) :
    (id.field? caller key).Yields v o v' ↔ id.Reads caller w.heap key v o v' := by
  rw [← yields_reading, Yields, Yields, hl.field?_eq g]

theorem grows_of_reads (hl : id.Legible caller w) (g : w.heap.Grows v.heap)
    (hr : id.Reads caller w.heap key v o v') : w.heap.Grows v'.heap := by
  cases hr with
  | missing _ | data _ | noGetter _ => exact g
  | computed hfinds hcall =>
    rw [← hcall.2]
    exact hl.getters key _ _ _ _ hfinds v g

theorem yields_field?_bind (hl : id.Legible caller w) (g : w.heap.Grows v.heap)
    {f : Option Value → Action σ Fault α} {a : α} :
    (id.field? caller key >>= f).Yields v a w' ↔
      ∃ o v', id.Reads caller w.heap key v o v' ∧ w.heap.Grows v'.heap ∧ (f o).Yields v' a w' := by
  rw [yields_bind]
  constructor
  · rintro ⟨o, v', ho, hf⟩
    have hr := (hl.yields_field? g).mp ho
    exact ⟨o, v', hr, hl.grows_of_reads g hr, hf⟩
  · rintro ⟨o, v', hr, -, hf⟩
    exact ⟨o, v', (hl.yields_field? g).mpr hr, hf⟩

theorem yields_missing_bind (hl : id.Legible caller w) (g : w.heap.Grows v.heap) {e : Fault}
    {f : Unit → Action σ Fault α} {a : α} :
    (id.field? caller key >>= fun o => if o.isSome = true then fail e >>= f else f ()).Yields v a w' ↔
      w.heap.Lacks key id ∧ (f ()).Yields v a w' := by
  rw [hl.yields_field?_bind g]
  constructor
  · rintro ⟨o, v', hr, -, hf⟩
    cases hr with
    | missing hlacks => exact ⟨hlacks, hf⟩
    | data _ | noGetter _ | computed _ _ => cases hf.1
  · rintro ⟨hlacks, hf⟩
    exact ⟨none, v, .missing hlacks, g, hf⟩

end Legible
namespace ReadsAlong

variable {keys : List String} {x : Action σ Fault α}

theorem of_still (hworld : (x w).world = w) (hevents : (x w).events = []) :
    ReadsAlong caller h id keys x w :=
  ⟨[], List.nil_prefix, hworld, hevents⟩

protected theorem bind {f : Option Value → Action σ Fault α} {y : Action σ Fault (Option Value)}
    (hy : y w = id.reading caller (h.find? id key) w)
    (hf : ∀ o w', id.Reads caller h key w o w' → ReadsAlong caller h id keys (f o) w') :
    ReadsAlong caller h id (key :: keys) (y >>= f) w := by
  have hreadings (read : List String) : id.readings caller h (key :: read) w =
      Action.bind y (fun _ => id.readings caller h read) w := by
    rw [Action.bind, hy]
    rfl
  change ReadsAlong caller h id (key :: keys) (Action.bind y f) w
  have hok (o : Option Value) (w' : World σ) (hyields : y.Yields w o w') :
      ReadsAlong caller h id keys (f o) w' := by
    rw [Yields, hy] at hyields
    exact hf o w' (yields_reading.mp hyields)
  unfold ReadsAlong
  simp only [Action.bind] at hreadings ⊢
  unfold Yields at hok
  generalize y w = r at hreadings hok ⊢
  rcases r with ⟨o | e | _, w', events⟩
  case ok =>
    obtain ⟨read, hread, hworld, hevents⟩ := hok o w' ⟨rfl, rfl⟩
    refine ⟨key :: read, List.cons_prefix_cons.mpr ⟨rfl, hread⟩, ?_, ?_⟩
    · rw [hreadings]
      exact hworld
    · rw [hreadings]
      exact congrArg (events ++ ·) hevents
  case failed =>
    refine ⟨[key], List.cons_prefix_cons.mpr ⟨rfl, List.nil_prefix⟩, ?_, ?_⟩ <;> rw [hreadings]
  case exhausted =>
    refine ⟨[key], List.cons_prefix_cons.mpr ⟨rfl, List.nil_prefix⟩, ?_, ?_⟩ <;> rw [hreadings]

end ReadsAlong
end ObjectId

namespace Descriptor

theorem flag_bind (id : ObjectId) (key : String) (f : Bool → Action σ Fault α) :
    (id.flag caller key >>= f) = id.field? caller key >>= fun o => f (o.any Value.isTruthy) := by
  rw [ObjectId.flag, bind_assoc]
  simp only [pure_bind]

theorem checkHalf_bind (half : Option Value) (f : Unit → Action σ Fault α) (w : World σ) :
    w.heap.AcceptsHalf half ∧ (checkHalf half >>= f) w = f () w ∨
      ¬ w.heap.AcceptsHalf half ∧ ∃ e, (checkHalf half >>= f) w = fail e w := by
  rw [checkHalf, bind_assoc]
  cases half with
  | none => exact .inl ⟨nofun, rfl⟩
  | some value =>
    have haccepts : w.heap.AcceptsHalf (some value) ↔
        (value.isUndefined || w.heap.isCallable value) = true := by
      cases value <;> simp [Heap.AcceptsHalf, Value.isUndefined]
    have hrun : (heap >>= fun h =>
        (if value.isUndefined || h.isCallable value then pure ()
          else fail (.type (.notAccessorHalf (h.display value)))) >>= f) w =
        ((if value.isUndefined || w.heap.isCallable value then pure ()
          else fail (.type (.notAccessorHalf (w.heap.display value)))) >>= f) w := rfl
    rw [haccepts]
    by_cases hc : (value.isUndefined || w.heap.isCallable value) = true
    · refine .inl ⟨hc, hrun.trans ?_⟩
      rw [if_pos hc, pure_bind]
    · refine .inr ⟨hc, .type (.notAccessorHalf (w.heap.display value)), hrun.trans ?_⟩
      rw [if_neg hc]
      rfl

theorem yields_checkHalf_bind {half : Option Value} {f : Unit → Action σ Fault α} {a : α} :
    (checkHalf half >>= f).Yields w a w' ↔ w.heap.AcceptsHalf half ∧ (f ()).Yields w a w' := by
  rcases checkHalf_bind half f w with ⟨haccepts, hrun⟩ | ⟨hrefuses, e, hrun⟩
  · rw [Yields, hrun]
    exact ⟨fun hf => ⟨haccepts, hf⟩, And.right⟩
  · rw [Yields, hrun]
    exact iff_of_false (fun hf => nomatch hf.1) fun hf => hrefuses hf.1

theorem describes_of_ofObject (hl : id.Legible caller w) (hd : (ofObject caller id).Yields w d w') :
    id.Describes caller w d w' := by
  simp only [ofObject, flag_bind] at hd
  obtain ⟨enumerable, w₁, he, g₁, hd⟩ := (hl.yields_field?_bind (.refl w.heap)).mp hd
  obtain ⟨configurable, w₂, hc, g₂, hd⟩ := (hl.yields_field?_bind g₁).mp hd
  obtain ⟨getter, w₃, hg, g₃, hd⟩ := (hl.yields_field?_bind g₂).mp hd
  obtain ⟨setter, w₄, hs, g₄, hd⟩ := (hl.yields_field?_bind g₃).mp hd
  obtain ⟨hgetter, hd⟩ := yields_checkHalf_bind.mp hd
  obtain ⟨hsetter, hd⟩ := yields_checkHalf_bind.mp hd
  by_cases hsome : (getter.isSome || setter.isSome) = true
  · rw [if_pos hsome] at hd
    obtain ⟨hvalue, hd⟩ := (hl.yields_missing_bind g₄).mp hd
    obtain ⟨hwritable, hd⟩ := (hl.yields_missing_bind g₄).mp hd
    obtain ⟨rfl, rfl⟩ := yields_pure.mp hd
    have hpresent : ¬ (w.heap.Lacks "get" id ∧ w.heap.Lacks "set" id) := by
      rintro ⟨hget, hset⟩
      rw [hg.eq_none_iff.mpr hget, hs.eq_none_iff.mpr hset] at hsome
      cases hsome
    exact .accessor he hc hg hs hpresent hgetter hsetter hvalue hwritable
  · rw [if_neg hsome] at hd
    obtain ⟨value, w₅, hv, g₅, hd⟩ := (hl.yields_field?_bind g₄).mp hd
    obtain ⟨writable, w₆, hw, g₆, hd⟩ := (hl.yields_field?_bind g₅).mp hd
    obtain ⟨rfl, rfl⟩ := yields_pure.mp hd
    cases hg with
    | missing hget =>
      cases hs with
      | missing hset => exact .data he hc hget hset hv hw
      | _ => exact absurd rfl hsome
    | _ => exact absurd rfl hsome

theorem yields_ofObject_of_describes (hl : id.Legible caller w) (hd : id.Describes caller w d w') :
    (ofObject caller id).Yields w d w' := by
  have g := Heap.Grows.refl w.heap
  simp only [ofObject, flag_bind]
  cases hd with
  | data he hc hget hset hv hw =>
    have g₁ := hl.grows_of_reads g he
    have g₂ := hl.grows_of_reads g₁ hc
    have g₃ := hl.grows_of_reads g₂ hv
    have g₄ := hl.grows_of_reads g₃ hw
    refine (hl.yields_field?_bind g).mpr ⟨_, _, he, g₁, ?_⟩
    refine (hl.yields_field?_bind g₁).mpr ⟨_, _, hc, g₂, ?_⟩
    refine (hl.yields_field?_bind g₂).mpr ⟨_, _, .missing hget, g₂, ?_⟩
    refine (hl.yields_field?_bind g₂).mpr ⟨_, _, .missing hset, g₂, ?_⟩
    refine yields_checkHalf_bind.mpr ⟨nofun, yields_checkHalf_bind.mpr ⟨nofun, ?_⟩⟩
    refine (hl.yields_field?_bind g₂).mpr ⟨_, _, hv, g₃, ?_⟩
    exact (hl.yields_field?_bind g₃).mpr ⟨_, _, hw, g₄, yields_pure.mpr ⟨rfl, rfl⟩⟩
  | @accessor w₁ w₂ w₃ _ _ _ getter setter he hc hg hs hpresent hgetter hsetter hvalue hwritable =>
    have g₁ := hl.grows_of_reads g he
    have g₂ := hl.grows_of_reads g₁ hc
    have g₃ := hl.grows_of_reads g₂ hg
    have g₄ := hl.grows_of_reads g₃ hs
    have hsome : (getter.isSome || setter.isSome) = true := by
      rw [← hg.eq_none_iff, ← hs.eq_none_iff] at hpresent
      cases getter <;> cases setter <;> simp_all
    refine (hl.yields_field?_bind g).mpr ⟨_, _, he, g₁, ?_⟩
    refine (hl.yields_field?_bind g₁).mpr ⟨_, _, hc, g₂, ?_⟩
    refine (hl.yields_field?_bind g₂).mpr ⟨_, _, hg, g₃, ?_⟩
    refine (hl.yields_field?_bind g₃).mpr ⟨_, _, hs, g₄, ?_⟩
    refine yields_checkHalf_bind.mpr ⟨hgetter, yields_checkHalf_bind.mpr ⟨hsetter, ?_⟩⟩
    rw [if_pos hsome]
    refine (hl.yields_missing_bind g₄).mpr ⟨hvalue, ?_⟩
    exact (hl.yields_missing_bind g₄).mpr ⟨hwritable, yields_pure.mpr ⟨rfl, rfl⟩⟩

theorem readsAlong_checkHalf_bind {half : Option Value} {f : Unit → Action σ Fault α}
    {keys : List String} (hf : id.ReadsAlong caller h keys (f ()) w) :
    id.ReadsAlong caller h keys (checkHalf half >>= f) w := by
  unfold ObjectId.ReadsAlong at *
  rcases checkHalf_bind half f w with ⟨-, hrun⟩ | ⟨-, e, hrun⟩
  · rw [hrun]
    exact hf
  · rw [hrun]
    exact ⟨[], List.nil_prefix, rfl, rfl⟩

theorem readsAlong_ofObject (hl : id.Legible caller w) :
    id.ReadsAlong caller w.heap descriptionFields (ofObject caller id) w := by
  have g := Heap.Grows.refl w.heap
  simp only [ofObject, flag_bind]
  refine .bind (hl.field?_eq g _) fun enumerable w₁ he => ?_
  have g₁ := hl.grows_of_reads g he
  refine .bind (hl.field?_eq g₁ _) fun configurable w₂ hc => ?_
  have g₂ := hl.grows_of_reads g₁ hc
  refine .bind (hl.field?_eq g₂ _) fun getter w₃ hg => ?_
  have g₃ := hl.grows_of_reads g₂ hg
  refine .bind (hl.field?_eq g₃ _) fun setter w₄ hs => ?_
  have g₄ := hl.grows_of_reads g₃ hs
  refine readsAlong_checkHalf_bind (readsAlong_checkHalf_bind ?_)
  split
  · refine .bind (hl.field?_eq g₄ _) fun value w₅ hv => ?_
    have g₅ := hl.grows_of_reads g₄ hv
    split
    · exact .of_still rfl rfl
    · refine .bind (hl.field?_eq g₅ _) fun writable w₆ hw => ?_
      split
      · exact .of_still rfl rfl
      · exact .of_still rfl rfl
  · refine .bind (hl.field?_eq g₄ _) fun value w₅ hv => ?_
    have g₅ := hl.grows_of_reads g₄ hv
    exact .bind (hl.field?_eq g₅ _) fun writable w₆ hw => .of_still rfl rfl

/-- A handle gives a copy of what it holds. An object gives what it describes, if it describes a
property at all, and its fields are read in their order, each at most once. Anything else is an
error. -/
theorem ofValue_describes (caller : Caller σ) (w : World σ) :
    (∀ handle, ofValue caller (.descriptor handle) w = ⟨.ok (w.heap.content handle), w, []⟩) ∧
    (∀ id, id.Legible caller w →
      (∀ d w', (ofValue caller (.object id)).Yields w d w' ↔ id.Describes caller w d w') ∧
        id.ReadsAlong caller w.heap descriptionFields (ofValue caller (.object id)) w) ∧
    ∀ v, (∀ handle, v ≠ .descriptor handle) → (∀ id, v ≠ .object id) →
      ofValue caller v w = ⟨.failed (.type (.notDescription (w.heap.display v))), w, []⟩ := by
  refine ⟨fun handle => rfl, fun id hl => ?_, fun v hhandle hobject => ?_⟩
  · have hrun : ofValue caller (.object id) w = ofObject caller id w := rfl
    simp only [Yields, ObjectId.ReadsAlong, hrun]
    exact ⟨fun d w' => ⟨describes_of_ofObject hl, yields_ofObject_of_describes hl⟩,
      readsAlong_ofObject hl⟩
  · cases v with
    | descriptor handle => exact absurd rfl (hhandle handle)
    | object id => exact absurd rfl (hobject id)
    | undefined | null | bool _ | number _ | string _ => rfl

def inheritedDescription : World Unit where
  heap.objects := #[{ kind := .function (.constant "on" (.bool true)) },
    { properties := ⟨[("enumerable", .accessor (some (.object ⟨0⟩)) none false true)]⟩ },
    { prototype := some ⟨1⟩, properties := ⟨[("get", .ordinary .undefined)]⟩ }]
  host := ()

theorem yields_call_on {v : World Unit} (g : inheritedDescription.heap.Grows v.heap) :
    (Value.call (Caller.nested Host.none 1) (.object ⟨0⟩) (.object ⟨2⟩) []).Yields v (.bool true) v := by
  have hcapability := g.keepsFunctions (.object ⟨0⟩) (.constant "on" (.bool true)) rfl
  rw [Value.call, yields_heap_bind, hcapability]
  exact ⟨rfl, rfl⟩

theorem legible_inheritedDescription :
    (⟨2⟩ : ObjectId).Legible (Caller.nested Host.none 1) inheritedDescription := by
  constructor
  · intro o ho
    cases ho with
    | self => decide
    | step hp ho =>
      cases hp
      cases ho with
      | self => decide
      | step hp _ => cases hp
  · rintro key getter setter e c ⟨rest, hl⟩ v g
    have hmem {p : Properties} {d : Descriptor} (hd : p.find? key = some d) :
        (key, d) ∈ p.entries := by
      obtain ⟨before, after, hentries, -⟩ := List.lookup_eq_some_iff.mp hd
      rw [hentries]
      exact List.mem_append_right _ List.mem_cons_self
    have hgetter : getter = .object ⟨0⟩ := by
      cases hl with
      | own hown => cases List.mem_singleton.mp (hmem hown)
      | inherited _ hp hl =>
        cases hp
        cases hl with
        | own hown =>
          cases List.mem_singleton.mp (hmem hown)
          rfl
        | inherited _ hp => cases hp
    rw [hgetter, Action.Preserves, (yields_call_on g).2]
    exact g

theorem ofValue_describes_inherited :
    (⟨2⟩ : ObjectId).Legible (Caller.nested Host.none 1) inheritedDescription ∧
      (ofValue (Caller.nested Host.none 1) (.object ⟨2⟩)).Yields inheritedDescription
        (.accessor none none true false) inheritedDescription := by
  have hlacks (key : String) (hkey : inheritedDescription.heap.find? ⟨2⟩ key = none) :
      inheritedDescription.heap.Lacks key ⟨2⟩ := Heap.find?_eq_none_iff.mp hkey
  have hon : (⟨2⟩ : ObjectId).Reads (Caller.nested Host.none 1) inheritedDescription.heap "enumerable"
      inheritedDescription (some (.bool true)) inheritedDescription :=
    .computed ⟨[⟨1⟩], .inherited rfl rfl (.own rfl)⟩ (yields_call_on (.refl _))
  have hget : inheritedDescription.heap.Finds "get" ⟨2⟩ (.ordinary .undefined) := ⟨[], .own rfl⟩
  have hlegible := legible_inheritedDescription
  refine ⟨hlegible, (((ofValue_describes _ _).2.1 _ hlegible).1 _ _).mpr ?_⟩
  refine .accessor hon (.missing (hlacks _ rfl)) (.data hget) (.missing (hlacks _ rfl)) ?_ ?_ nofun
    (hlacks _ rfl) (hlacks _ rfl)
  · rintro ⟨hmissing, -⟩
    cases hmissing ⟨2⟩ (.self _)
  · rintro _ ⟨⟩
    exact .inl rfl

end Descriptor
end Decoration
