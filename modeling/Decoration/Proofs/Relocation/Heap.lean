import Decoration.Listing
import Decoration.Proofs.Growth
import Decoration.Proofs.Relocation

/-! A heap that holds another one at other places, beside whatever else is in it. -/

namespace Decoration

def Heap.Settled (h : Heap) : Descriptor → Prop
  | .accessor _ (some setter) .. => ∃ name result, h.capability? setter = some (.constant name result)
  | _ => True

theorem Heap.Settled.mono {h h' : Heap} (hk : h.KeepsFunctions h') {d : Descriptor}
    (hd : h.Settled d) : h'.Settled d := by
  match d, hd with
  | .accessor _ (some setter) .., ⟨name, result, hc⟩ => exact ⟨name, result, hk _ _ hc⟩
  | .accessor _ none .., _ => trivial
  | .data .., _ => trivial

@[simp] theorem Heap.settled_setWritable (h : Heap) (flag : Bool) (d : Descriptor) :
    h.Settled (d.setWritable flag) ↔ h.Settled d := by cases d <;> rfl

@[simp] theorem Heap.settled_setEnumerable (h : Heap) (flag : Bool) (d : Descriptor) :
    h.Settled (d.setEnumerable flag) ↔ h.Settled d := by
  match d with
  | .data .. | .accessor _ none .. | .accessor _ (some _) .. => rfl

@[simp] theorem Heap.settled_setConfigurable (h : Heap) (flag : Bool) (d : Descriptor) :
    h.Settled (d.setConfigurable flag) ↔ h.Settled d := by
  match d with
  | .data .. | .accessor _ none .. | .accessor _ (some _) .. => rfl

@[simp] theorem Heap.settled_setValue (h : Heap) (v : Value) (d : Descriptor) :
    h.Settled (d.setValue v) ↔ h.Settled d := by cases d <;> rfl

theorem Heap.find?_of_plain {h : Heap} {id : ObjectId} (hid : (h.object id).prototype = none)
    (hsize : 0 < h.objects.size) (key : String) : h.find? id key = h.own? id key := by
  obtain ⟨n, hn⟩ := Nat.exists_eq_add_of_lt hsize
  rw [Heap.find?, hn, Heap.findWithin, hid]
  cases h.own? id key <;> rfl

inductive SameButNumbers : String → String → Prop
  | same (text : String) : SameButNumbers text text
  | number (m n : Nat) :
    SameButNumbers ("[object #" ++ toString m ++ "]") ("[object #" ++ toString n ++ "]")
  | append {a a' b b' : String} (first : SameButNumbers a a') (second : SameButNumbers b b') :
    SameButNumbers (a ++ b) (a' ++ b')

namespace Relocation

/-- The objects, shared descriptors and memo sites of `h` are in `h'` as well, relocated. Both hold the
library, no object of `h` inherits, and every setter in `h` is a function with a fixed result. -/
structure Mirrors (t : Relocation) (h h' : Heap) : Prop where
  bound : libraryCount ≤ h.objects.size
  objects : h'.objects.size = h.objects.size + t.objects
  cells : h'.cells.size = h.cells.size + t.cells
  memos : h.memos.size = 1 ∧ h'.memos.size = 1
  object : ∀ id, h'.object (t.object id) = t.moved (h.object id)
  content : ∀ handle, h'.content (t.handle handle) = t.descriptor (h.content handle)
  sites : (h'.memo ⟨0⟩).nextSite = (h.memo ⟨0⟩).nextSite + t.sites
  library : ∀ i c, (libraryDecorators ⟨0⟩)[i]? = some c → h.object ⟨i⟩ = { kind := .function c }
  plain : ∀ id, (h.object id).prototype = none
  properties : ∀ id key d, h.own? id key = some d → h.Settled d
  shared : ∀ handle, h.Settled (h.content handle)

namespace Mirrors

variable {t : Relocation} {h h' : Heap}

theorem capability? (m : t.Mirrors h h') (v : Value) :
    h'.capability? (t.value v) = (h.capability? v).map t.capability := by
  cases v with
  | object id => exact (congrArg Object.capability? (m.object id)).trans (capability?_moved _)
  | _ => rfl

theorem isCallable (m : t.Mirrors h h') (v : Value) : h'.isCallable (t.value v) = h.isCallable v := by
  rw [Heap.isCallable, m.capability?, Option.isSome_map, Heap.isCallable]

theorem own? (m : t.Mirrors h h') (id : ObjectId) (key : String) :
    h'.own? (t.object id) key = (h.own? id key).map t.descriptor := by
  rw [Heap.own?, m.object]
  exact find?_properties _ key

theorem find? (m : t.Mirrors h h') (id : ObjectId) (key : String) :
    h.find? id key = h.own? id key ∧ h'.find? (t.object id) key = (h.own? id key).map t.descriptor := by
  have hcount : 0 < libraryCount := by decide
  have hsize : 0 < h.objects.size := Nat.lt_of_lt_of_le hcount m.bound
  have hsize' : 0 < h'.objects.size := by
    rw [m.objects]
    exact Nat.add_pos_left hsize _
  have hplain' : (h'.object (t.object id)).prototype = none := by
    rw [m.object, moved, m.plain]
    rfl
  rw [Heap.find?_of_plain (m.plain id) hsize, Heap.find?_of_plain hplain' hsize', m.own?]
  exact ⟨rfl, rfl⟩

theorem addObject (m : t.Mirrors h h') {o : Object} (hprototype : o.prototype = none)
    (hempty : o.properties = {}) :
    t.Mirrors (h.addObject o).2 (h'.addObject (t.moved o)).2 ∧
      (h'.addObject (t.moved o)).1 = t.object (h.addObject o).1 ∧
      libraryCount ≤ (h.addObject o).1.index := by
  have hnew : (h'.addObject (t.moved o)).1 = t.object (h.addObject o).1 := by
    rw [object_of_le (show libraryCount ≤ (h.addObject o).1.index from m.bound)]
    exact congrArg ObjectId.mk m.objects
  have hkeeps : h.KeepsFunctions (h.addObject o).2 := (Heap.grows_addObject h o).keepsFunctions
  have hold : ∀ i, i < libraryCount → (⟨i⟩ : ObjectId) ≠ (h.addObject o).1 :=
    fun i hi => Heap.ne_addObject (Nat.lt_of_lt_of_le hi m.bound) o
  refine ⟨⟨?_, ?_, m.cells, m.memos, fun id => ?_, m.content, m.sites, fun i c hc => ?_,
    fun id => ?_, fun id key d hd => ?_, fun handle => (m.shared handle).mono hkeeps⟩, hnew, m.bound⟩
  · rw [Heap.addObject, Array.size_push]
    exact Nat.le_succ_of_le m.bound
  · rw [Heap.addObject, Heap.addObject, Array.size_push, Array.size_push, m.objects]
    exact Nat.add_right_comm _ _ _
  · rw [Heap.object_addObject, Heap.object_addObject, hnew, m.object]
    by_cases hid : id = (h.addObject o).1
    · rw [if_pos hid, if_pos (congrArg t.object hid)]
    · rw [if_neg hid, if_neg (fun h => hid (object_inj.mp h))]
  · rw [Heap.object_addObject, if_neg (hold i (List.getElem?_eq_some_iff.mp hc).1)]
    exact m.library i c hc
  · rw [Heap.object_addObject]
    split
    · exact hprototype
    · exact m.plain id
  · rw [Heap.own?, Heap.object_addObject] at hd
    split at hd
    · rw [hempty] at hd
      cases hd
    · exact (m.properties id key d hd).mono hkeeps

theorem insert (m : t.Mirrors h h') {id : ObjectId} (hid : id.index < h.objects.size)
    (hlibrary : libraryCount ≤ id.index) (key : String) {d : Descriptor} (hd : h.Settled d) :
    t.Mirrors (h.setObject id ((h.object id).insert key d))
      (h'.setObject (t.object id) ((h'.object (t.object id)).insert key (t.descriptor d))) := by
  have hid' : (t.object id).index < h'.objects.size := by
    rw [object_of_le hlibrary, m.objects]
    exact Nat.add_lt_add_right hid _
  have hkeeps : h.KeepsFunctions (h.setObject id ((h.object id).insert key d)) :=
    Heap.keepsFunctions_withProperties hid _
  refine ⟨?_, ?_, m.cells, m.memos, fun other => ?_, m.content, m.sites, fun i c hc => ?_,
    fun other => ?_, fun other otherKey otherD hother => ?_, fun handle => (m.shared handle).mono hkeeps⟩
  · rw [Heap.size_setObject]
    exact m.bound
  · rw [Heap.size_setObject, Heap.size_setObject]
    exact m.objects
  · rw [Heap.object_setObject hid, Heap.object_setObject hid', m.object, m.object]
    by_cases heq : other = id
    · rw [if_pos heq, if_pos (congrArg t.object heq), moved_insert]
    · rw [if_neg heq, if_neg fun h => heq (object_inj.mp h)]
  · have hlt := (List.getElem?_eq_some_iff.mp hc).1
    rw [Heap.object_setObject hid, if_neg]
    · exact m.library i c hc
    · rintro rfl
      exact absurd hlt (Nat.not_lt.mpr hlibrary)
  · rw [Heap.object_setObject hid]
    split
    · exact m.plain id
    · exact m.plain other
  · rw [Heap.own?, Heap.object_setObject hid] at hother
    split at hother
    · rw [Object.insert, Properties.find?_insert] at hother
      split at hother
      · cases hother
        exact hd.mono hkeeps
      · exact (m.properties id otherKey otherD hother).mono hkeeps
    · exact (m.properties other otherKey otherD hother).mono hkeeps

theorem link (m : t.Mirrors h h') {a b a' b' : ObjectId} (ha' : a' = t.object a)
    (hb' : b' = t.object b) (ha : a.index < h.objects.size) (hlibrary : libraryCount ≤ a.index)
    (key : String) (writable enumerable configurable : Bool) :
    t.Mirrors
      (h.setObject a ((h.object a).insert key (.data (.object b) writable enumerable configurable)))
      (h'.setObject a'
        ((h'.object a').insert key (.data (.object b') writable enumerable configurable))) := by
  subst ha' hb'
  exact m.insert ha hlibrary key trivial

theorem setContent (m : t.Mirrors h h') (handle : Handle) {d : Descriptor} (hd : h.Settled d) :
    t.Mirrors (h.setContent handle d) (h'.setContent (t.handle handle) (t.descriptor d)) := by
  have hsize : (h.setContent handle d).cells.size = h.cells.size := Array.size_setIfInBounds
  have hsize' : (h'.setContent (t.handle handle) (t.descriptor d)).cells.size = h'.cells.size :=
    Array.size_setIfInBounds
  by_cases hh : handle.index < h.cells.size
  · have hh' : (t.handle handle).index < h'.cells.size := by
      rw [m.cells]
      exact Nat.add_lt_add_right hh _
    refine ⟨m.bound, m.objects, ?_, m.memos, m.object, fun other => ?_, m.sites, m.library, m.plain,
      m.properties, fun other => ?_⟩
    · rw [hsize, hsize', m.cells]
    · rw [Heap.content_setContent hh, Heap.content_setContent hh', m.content]
      by_cases heq : other = handle
      · rw [if_pos heq, if_pos (congrArg t.handle heq)]
      · rw [if_neg heq, if_neg fun h => heq (handle_inj.mp h)]
    · rw [Heap.content_setContent hh]
      split
      · exact hd
      · exact m.shared other
  · have hh' : h'.cells.size ≤ (t.handle handle).index := by
      rw [m.cells]
      exact Nat.add_le_add_right (Nat.le_of_not_lt hh) _
    have hsame : h.setContent handle d = h :=
      congrArg (fun cells => { h with cells }) (Array.setIfInBounds_eq_of_size_le (Nat.le_of_not_lt hh))
    have hsame' : h'.setContent (t.handle handle) (t.descriptor d) = h' :=
      congrArg (fun cells => { h' with cells }) (Array.setIfInBounds_eq_of_size_le hh')
    rwa [hsame, hsame']

theorem addCell (m : t.Mirrors h h') {d : Descriptor} (hd : h.Settled d) :
    t.Mirrors (h.addCell d).2 (h'.addCell (t.descriptor d)).2 ∧
      (h'.addCell (t.descriptor d)).1 = t.handle (h.addCell d).1 := by
  have hnew : (h'.addCell (t.descriptor d)).1 = t.handle (h.addCell d).1 :=
    congrArg Handle.mk m.cells
  refine ⟨⟨m.bound, m.objects, ?_, m.memos, m.object, fun handle => ?_, m.sites, m.library, m.plain,
    m.properties, fun handle => ?_⟩, hnew⟩
  · rw [Heap.addCell, Heap.addCell, Array.size_push, Array.size_push, m.cells]
    exact Nat.add_right_comm _ _ _
  · rw [Heap.content_addCell, Heap.content_addCell, hnew, m.content]
    by_cases hhandle : handle = (h.addCell d).1
    · rw [if_pos hhandle, if_pos (congrArg t.handle hhandle)]
    · rw [if_neg hhandle, if_neg fun h => hhandle (handle_inj.mp h)]
  · rw [Heap.content_addCell]
    split
    · exact hd
    · exact m.shared handle

theorem takeSite (m : t.Mirrors h h') :
    t.Mirrors (h.setMemo ⟨0⟩ { h.memo ⟨0⟩ with nextSite := (h.memo ⟨0⟩).nextSite + 1 })
      (h'.setMemo ⟨0⟩ { h'.memo ⟨0⟩ with nextSite := (h'.memo ⟨0⟩).nextSite + 1 }) := by
  obtain ⟨hsize, hsize'⟩ := m.memos
  have htaken : ∀ {g : Heap}, g.memos.size = 1 → ∀ table, (g.setMemo ⟨0⟩ table).memo ⟨0⟩ = table := by
    intro g hg table
    simp [Heap.memo, Heap.setMemo, hg]
  refine ⟨m.bound, m.objects, m.cells, ?_, m.object, m.content, ?_, m.library, m.plain, m.properties,
    m.shared⟩
  · simp [Heap.setMemo, hsize, hsize']
  · rw [htaken hsize, htaken hsize']
    dsimp only
    rw [m.sites]
    exact Nat.add_right_comm _ _ _

/-! What is shown of an object. -/

theorem constructorName? (m : t.Mirrors h h') (id : ObjectId) :
    h'.constructorName? (t.object id) = h.constructorName? id := by
  rw [Heap.constructorName?, Heap.constructorName?, m.own?]
  cases h.own? id "constructor" with
  | none => rfl
  | some d =>
    cases d with
    | data v w e c =>
      cases v with
      | object constructor =>
        exact (congrArg Object.className? (m.object constructor)).trans (className?_moved _)
      | _ => rfl
    | accessor => rfl

theorem describe (m : t.Mirrors h h') (id : ObjectId) :
    SameButNumbers (h.describe id) (h'.describe (t.object id)) := by
  rw [Heap.describe, Heap.describe, m.object, m.constructorName?]
  have hkind : (t.moved (h.object id)).kind = t.kind (h.object id).kind := rfl
  rw [hkind]
  cases (h.object id).kind with
  | classValue name => exact .same name
  | function c =>
    dsimp only [kind]
    rw [name_capability]
    exact .same _
  | ordinary =>
    dsimp only [kind]
    cases h.constructorName? id with
    | some name => exact .same _
    | none => exact .number id.number (t.object id).number

theorem kindLabel (m : t.Mirrors h h') (d : Descriptor) :
    (t.descriptor d).kindLabel h' = d.kindLabel h := by
  match d with
  | .data v .. =>
    change (if h'.isCallable (t.value v) = true then _ else _) = _
    rw [m.isCallable]
    rfl
  | .accessor (some _) (some _) .. => rfl
  | .accessor (some _) none .. => rfl
  | .accessor none (some _) .. => rfl
  | .accessor none none .. => rfl

theorem rows (m : t.Mirrors h h') (hidden : List String) (id : ObjectId) :
    Listing.rows h' hidden (t.object id) = Listing.rows h hidden id := by
  have hflags : ∀ d : Descriptor, (t.descriptor d).flagsText = d.flagsText := by
    intro d
    rw [Descriptor.flagsText, writable?_descriptor, enumerable_descriptor, configurable_descriptor]
    rfl
  rw [Listing.rows, Listing.rows, m.object]
  change (((h.object id).properties.entries.map _).filter _).map _ = _
  rw [List.filter_map, List.map_map]
  refine List.map_congr_left fun entry _ => ?_
  simp only [Function.comp_apply, m.kindLabel, hflags]

theorem listing_ofObject (m : t.Mirrors h h') (name : String) (id : ObjectId) :
    Listing.ofObject h' name (t.object id) = Listing.ofObject h name id := by
  rw [Listing.ofObject, Listing.ofObject, m.rows]

theorem listing_ofClass (m : t.Mirrors h h') (name : String) (id : ObjectId) :
    Listing.ofClass h' name (t.object id) = Listing.ofClass h name id := by
  rw [Listing.ofClass, Listing.ofClass, m.rows, m.own?]
  cases h.own? id "prototype" with
  | none => rfl
  | some d =>
    cases d with
    | data v w e c =>
      cases v with
      | object prototype =>
        simp [descriptor, value, Descriptor.value?, Value.object?, m.rows]
      | _ => rfl
    | accessor => rfl

end Mirrors
end Relocation
end Decoration
