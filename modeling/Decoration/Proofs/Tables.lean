import Decoration.Proofs.Checked
import Decoration.Proofs.Independence
import Decoration.Proofs.Insertion
import Decoration.Proofs.Instantiation
import Decoration.Proofs.Slotwise

/-! The tables of a run. A class is shown with one row for every slot that it declares, in the order of
their first definition, unless the slot has the name of one of the links between its two objects. -/

namespace Decoration

open Decoration.Action

variable {σ : Type}

namespace Properties

theorem filter_key {p : Properties} (hnodup : p.keys.Nodup) {key : String} {d : Descriptor}
    (hd : p.find? key = some d) : p.entries.filter (·.1 = key) = [(key, d)] := by
  obtain ⟨before, after, hentries, hbefore⟩ := List.lookup_eq_some_iff.mp hd
  rw [keys, hentries, List.map_append, List.map_cons, List.nodup_append] at hnodup
  have hafter : key ∉ after.map (·.1) := (List.nodup_cons.mp hnodup.2.1).1
  have hfirst : before.filter (·.1 = key) = [] := by
    refine List.filter_eq_nil_iff.mpr fun entry hentry heq => ?_
    exact bne_iff_ne.mp (hbefore entry hentry) (of_decide_eq_true heq).symm
  have hlast : after.filter (·.1 = key) = [] := by
    refine List.filter_eq_nil_iff.mpr fun entry hentry heq => hafter ?_
    exact List.mem_map.mpr ⟨entry, hentry, of_decide_eq_true heq⟩
  rw [hentries, List.filter_append, hfirst, List.filter_cons_of_pos (by simp), hlast, List.nil_append]

theorem find?_of_mem {p : Properties} (hnodup : p.keys.Nodup) {key : String} {d : Descriptor}
    (hd : (key, d) ∈ p.entries) : p.find? key = some d := by
  have hkey : key ∈ p.keys := List.mem_map.mpr ⟨_, hd, rfl⟩
  obtain ⟨d', hd'⟩ : ∃ d', p.find? key = some d' :=
    Option.ne_none_iff_exists'.mp fun hnone => find?_eq_none.mp hnone hkey
  have hfilter : (key, d) ∈ p.entries.filter (·.1 = key) := List.mem_filter.mpr ⟨hd, by simp⟩
  rw [filter_key hnodup hd', List.mem_singleton] at hfilter
  cases hfilter
  exact hd'

end Properties

namespace Listing

def Fills (width : Nat) (s column : String) : Prop :=
  ∃ blanks, column = s ++ String.ofList (List.replicate blanks ' ') ∧
    column.length = max width s.length

def Row.Printed (row : Row) (line : List Terminal.Piece) : Prop :=
  ∃ key kind, Fills 16 row.key key ∧ Fills 10 row.kind kind ∧
    line = [⟨"    " ++ key, none⟩, ⟨kind, some { color := some .green, bold := true }⟩,
      ⟨row.flags, some { color := some .white }⟩, ⟨"\n", none⟩]

/-- A section is a line with its label and one for each row. Without rows it is nothing at all. -/
inductive Section.Printed : Section → List Terminal.Piece → Prop
  | empty {label : String} : Printed ⟨label, []⟩ []
  | rows {label : String} {row : Row} {rest : List Row} {lines : List (List Terminal.Piece)}
    (each : List.Forall₂ Row.Printed (row :: rest) lines) :
    Printed ⟨label, row :: rest⟩
      (⟨"  " ++ label, some { color := some .white }⟩ :: ⟨"\n", none⟩ :: lines.flatten)

def Printed (l : Listing) (shown : List Terminal.Piece) : Prop :=
  ∃ sections, List.Forall₂ Section.Printed l.sections sections ∧
    shown = [⟨l.keyword, some { color := some .cyan }⟩, ⟨" ", none⟩, ⟨l.name, some { bold := true }⟩,
      ⟨"\n", none⟩] ++ sections.flatten

theorem fills_padded (width : Nat) (s : String) : Fills width s (padded width s) := by
  refine ⟨width - s.length, rfl, ?_⟩
  rw [padded, String.length_append, String.length_ofList, List.length_replicate]
  omega

theorem Row.printed_pieces (row : Row) : row.Printed row.pieces :=
  ⟨_, _, fills_padded 16 row.key, fills_padded 10 row.kind, rfl⟩

theorem Section.printed_pieces (s : Section) : s.Printed s.pieces := by
  obtain ⟨label, rows⟩ := s
  cases rows with
  | nil => exact .empty
  | cons row rest =>
    rw [pieces, List.isEmpty_cons, if_neg Bool.false_ne_true, List.flatMap_def]
    exact .rows (List.forall₂_map_right_iff.mpr (List.forall₂_same.mpr fun r _ => r.printed_pieces))

theorem printed_pieces (l : Listing) : l.Printed l.pieces := by
  refine ⟨l.sections.map Section.pieces, ?_, by rw [pieces, List.flatMap_def]; rfl⟩
  exact List.forall₂_map_right_iff.mpr (List.forall₂_same.mpr fun s _ => s.printed_pieces)

structure Marks (state : Option Bool) (letter mark : Char) : Prop where
  set : mark = letter ↔ state = some true
  cleared : mark = '-' ↔ state = some false
  blank : mark = ' ' ↔ state = none

structure Row.Shows (h : Heap) (key : String) (d : Descriptor) (row : Row) : Prop where
  key : row.key = key
  method : row.kind = "method" ↔ ∃ v, d.value? = some v ∧ h.isCallable v = true
  value : row.kind = "value" ↔ ∃ v, d.value? = some v ∧ h.isCallable v = false
  pair : row.kind = "get/set" ↔ ∃ getter setter e c, d = .accessor (some getter) (some setter) e c
  getter : row.kind = "get" ↔ ∃ getter e c, d = .accessor (some getter) none e c
  setter : row.kind = "set" ↔ ∃ setter e c, d = .accessor none (some setter) e c
  flags : ∃ w e c, row.flags = String.ofList [w, e, c] ∧ Marks d.writable? 'w' w ∧
    Marks (some d.enumerable) 'e' e ∧ Marks (some d.configurable) 'c' c

/-- A table of an object, shown with the second heap, as what has become of it since the first. Every
declared key has one row, which shows what the object holds under it, every row shows a property that
the object holds, and the rows stand in the order in which their keys were first defined. -/
structure Tabulates (h h' : Heap) (o : ObjectId) (declared : List String) (rows : List Row) :
    Prop where
  complete : ∀ key ∈ declared, key ∉ hiddenKeys →
    ∃ d row, h'.own? o key = some d ∧ rows.filter (·.key = key) = [row] ∧ row.Shows h' key d
  sound : ∀ row ∈ rows, row.key ∉ hiddenKeys ∧
    ∃ d, h'.own? o row.key = some d ∧ row.Shows h' row.key d
  order : ∀ heaps, Heap.Course h heaps h' →
    rows.Pairwise fun row row' => Heap.OwnedBefore heaps o row.key row'.key

def Row.of (h : Heap) (key : String) (d : Descriptor) : Row := ⟨key, d.kindLabel h, d.flagsText⟩

theorem marks_writable (state : Option Bool) :
    Marks state 'w' (state.elim ' ' fun w => if w then 'w' else '-') := by
  rcases state with _ | _ | _ <;> constructor <;> decide

theorem marks_flag (letter : Char) (hdash : letter ≠ '-') (hblank : letter ≠ ' ') (flag : Bool) :
    Marks (some flag) letter (if flag then letter else '-') := by
  cases flag with
  | false => exact ⟨by simp [hdash.symm], by simp, by simp⟩
  | true => exact ⟨by simp, by simp [hdash], by simp [hblank]⟩

theorem Row.shows_of (h : Heap) (key : String) (d : Descriptor) : (Row.of h key d).Shows h key d := by
  have hflags : ∃ w e c, (Row.of h key d).flags = String.ofList [w, e, c] ∧
      Marks d.writable? 'w' w ∧ Marks (some d.enumerable) 'e' e ∧ Marks (some d.configurable) 'c' c :=
    ⟨_, _, _, rfl, marks_writable _, marks_flag 'e' (by decide) (by decide) _,
      marks_flag 'c' (by decide) (by decide) _⟩
  have hkind : (Row.of h key d).kind = d.kindLabel h := rfl
  rcases d with ⟨v, w, e, c⟩ | ⟨_ | getter, _ | setter, e, c⟩
  · cases hv : h.isCallable v <;> refine ⟨rfl, ?_, ?_, ?_, ?_, ?_, hflags⟩ <;>
      simp [hkind, Descriptor.kindLabel, Descriptor.value?, hv]
  all_goals
    refine ⟨rfl, ?_, ?_, ?_, ?_, ?_, hflags⟩ <;>
      simp [hkind, Descriptor.kindLabel, Descriptor.value?]

theorem rows_eq (h : Heap) (hidden : List String) (o : ObjectId) :
    rows h hidden o = ((h.object o).properties.entries.filter (!hidden.contains ·.1)).map
      fun entry => Row.of h entry.1 entry.2 := rfl

theorem keys_rows (h : Heap) (hidden : List String) (o : ObjectId) :
    (rows h hidden o).map (·.key) = (h.ownKeys o).filter (!hidden.contains ·) := by
  rw [rows_eq, List.map_map, Heap.ownKeys, Properties.keys, List.filter_map]
  rfl

theorem filter_rows {h : Heap} {hidden : List String} {o : ObjectId} {key : String} {d : Descriptor}
    (hnodup : (h.ownKeys o).Nodup) (hd : h.own? o key = some d) (hkey : key ∉ hidden) :
    (rows h hidden o).filter (·.key = key) = [Row.of h key d] := by
  have hentry : (h.object o).properties.entries.filter ((fun row => decide (row.key = key)) ∘
      fun entry => Row.of h entry.1 entry.2) = [(key, d)] := Properties.filter_key hnodup hd
  rw [rows_eq, List.filter_map, List.filter_comm, hentry,
    List.filter_cons_of_pos (by simpa using hkey)]
  rfl

theorem own?_of_mem_rows {h : Heap} {hidden : List String} {o : ObjectId} {row : Row}
    (hnodup : (h.ownKeys o).Nodup) (hrow : row ∈ rows h hidden o) :
    row.key ∉ hidden ∧ ∃ d, h.own? o row.key = some d ∧ row.Shows h row.key d := by
  rw [rows_eq] at hrow
  obtain ⟨entry, hentry, rfl⟩ := List.mem_map.mp hrow
  obtain ⟨hmem, hshown⟩ := List.mem_filter.mp hentry
  have hkey : entry.1 ∉ hidden := by simpa using hshown
  exact ⟨hkey, entry.2, Properties.find?_of_mem hnodup hmem, Row.shows_of h _ _⟩

theorem tabulates_rows {h h' : Heap} {heaps : List Heap} {o : ObjectId} {declared : List String}
    (c : Heap.Course h heaps h') (hempty : h.ownKeys o = [])
    (hdeclared : ∀ key ∈ declared, key ∈ h'.ownKeys o) :
    Tabulates h h' o declared (rows h' hiddenKeys o) := by
  have hnodup : (h'.ownKeys o).Nodup := c.nodup_ownKeys (hempty ▸ List.nodup_nil)
  refine ⟨fun key hkey hshown => ?_, fun row => own?_of_mem_rows hnodup, fun heaps c => ?_⟩
  · obtain ⟨d, hd⟩ : ∃ d, h'.own? o key = some d := Option.ne_none_iff_exists'.mp fun hnone =>
      Heap.own?_eq_none.mp hnone (hdeclared key hkey)
    exact ⟨d, _, hd, filter_rows hnodup hd hshown, Row.shows_of h' key d⟩
  · have hkeys : ((rows h' hiddenKeys o).map (·.key)).Pairwise (Heap.OwnedBefore heaps o) := by
      rw [keys_rows]
      exact (c.pairwise_ownKeys hempty).filter _
    exact List.pairwise_map.mp hkeys

end Listing

namespace Engine

variable {e : Engine σ} {pair : ClassPair} {env : Environment} {u : ElementUnit}
  {units : List ElementUnit} {decl : ClassDecl} {w w' : World σ} {id : ObjectId}

theorem owned_of_evaluateUnit (hs : e.store = .ordinary σ)
    (h : (e.evaluateUnit pair env u).Yields w () w') :
    u.name ∈ w'.heap.ownKeys (pair.side u.isStatic) := by
  have howned : ∀ {v : World σ} {d : Descriptor},
      (v.heap.object (pair.side u.isStatic)).Accepts u.name d →
      u.name ∈ (v.insert (pair.side u.isStatic) u.name d).heap.ownKeys (pair.side u.isStatic) :=
    fun haccepts => Heap.mem_ownKeys_of_own? (World.own?_insert_self (Heap.lt_size_of_accepts haccepts))
  obtain ⟨ds, w₁, made, w₂, -, -, h⟩ := yields_evaluateUnit.mp h
  split at h
  · rw [hs] at h
    obtain ⟨haccepts, rfl⟩ := Store.yields_install.mp h
    exact howned haccepts
  · obtain ⟨start, w₃, -, hfrom⟩ := yields_bind.mp h
    obtain ⟨w₄, -, haccepts, rfl⟩ := (yields_decorateFrom hs).mp hfrom
    exact howned haccepts

theorem owned_of_evaluateUnits (hc : e.caller.Stepwise Heap.Step) (hs : e.store = .ordinary σ)
    (h : (e.evaluateUnits pair env units).Yields w () w') :
    ∀ u ∈ units, u.name ∈ w'.heap.ownKeys (pair.side u.isStatic) := by
  induction units generalizing w with
  | nil => exact fun u hu => nomatch hu
  | cons first rest ih =>
    obtain ⟨⟨⟩, w₁, hfirst, hrest⟩ := yields_bind.mp h
    refine List.forall_mem_cons.mpr ⟨?_, ih hrest⟩
    exact (stepwise_evaluateUnits hc hs pair env rest).mem_ownKeys hrest
      (owned_of_evaluateUnit hs hfirst)

theorem owned_of_evaluateClass (hc : e.caller.Stepwise Heap.Step) (hs : e.store = .ordinary σ)
    {w₀ : World σ}
    (hcreate : (ClassPair.create decl.name : Action σ DecorationFault ClassPair).Yields w pair w₀)
    (h : (e.evaluateClass decl env).Yields w id w') (isStatic : Bool) :
    ∀ name ∈ ClassElement.names isStatic decl.elements, name ∈ w'.heap.ownKeys (pair.side isStatic) := by
  intro name hname
  obtain ⟨⟨pair', units⟩, w₁, ds, hmembers, hclass, -⟩ := yields_evaluateClass.mp h
  obtain ⟨w₀', hcreate', hplan, hunits⟩ := yields_evaluateMembers.mp hmembers
  obtain ⟨rfl, rfl⟩ := hcreate.unique hcreate'
  have hunit := (ElementUnit.mem_names_ofElements hplan isStatic name).mpr hname
  obtain ⟨u, hu, rfl⟩ := List.mem_map.mp hunit
  obtain ⟨hmem, hside⟩ := List.mem_filter.mp hu
  have howned := owned_of_evaluateUnits hc hs hunits u hmem
  rw [beq_iff_eq.mp hside] at howned
  exact (stepwise_decorateClass hc pair env decl.decorators).mem_ownKeys hclass howned

end Engine

namespace Command

variable {e : Engine Unit} {traced : Bool} {before after specs : List DeclarationSpec}
  {env env' : Environment} {w w' : World Unit}

inductive Reaches (e : Engine Unit) :
    List DeclarationSpec → Environment → World Unit → Environment → World Unit → Prop
  | done {env : Environment} {w : World Unit} : Reaches e [] env w env w
  | declared {spec : DeclarationSpec} {specs : List DeclarationSpec} {d : Declaration} {id : ObjectId}
    {env env₁ env₂ : Environment} {w w₁ w₂ : World Unit} (build : spec.build = .ok d)
    (declare : (e.declare env d).Yields w (id, env₁) w₁) (rest : Reaches e specs env₁ w₁ env₂ w₂) :
    Reaches e (spec :: specs) env w env₂ w₂

theorem exists_reaches (success : (runAll e traced specs env w).failure = none) :
    ∃ env' w', Reaches e specs env w env' w' := by
  induction specs generalizing env w with
  | nil => exact ⟨env, w, .done⟩
  | cons spec rest ih =>
    rcases runAll_cases e traced spec rest env w with ⟨fault, -, hrun⟩ | ⟨d, hbuild, hdeclared⟩
    · rw [hrun] at success
      cases success
    · rcases hdeclared with ⟨id, env₁, w₁, hdeclare⟩ | ⟨err, failure, -, hrun⟩
      · rw [runAll_declared hbuild hdeclare] at success
        obtain ⟨env', w', r⟩ := ih success
        exact ⟨env', w', .declared hbuild hdeclare r⟩
      · rw [hrun] at success
        cases success

theorem Reaches.of_append (r : Reaches e (before ++ after) env w env' w') :
    ∃ env₁ w₁, Reaches e before env w env₁ w₁ ∧ Reaches e after env₁ w₁ env' w' := by
  induction before generalizing env w with
  | nil => exact ⟨env, w, .done, r⟩
  | cons spec rest ih =>
    cases r with
    | declared build declare rest =>
      obtain ⟨env₁, w₁, hbefore, hafter⟩ := ih rest
      exact ⟨env₁, w₁, .declared build declare hbefore, hafter⟩

theorem Reaches.out_append (r : Reaches e before env w env' w') (traced : Bool)
    (after : List DeclarationSpec) : (runAll e traced (before ++ after) env w).out =
      (runAll e traced before env w).out ++ (runAll e traced after env' w').out := by
  induction r with
  | done => rfl
  | declared build declare _ ih =>
    rw [List.cons_append, runAll_declared build declare, runAll_declared build declare]
    simp only [Transcript.followedBy, ih, List.append_assoc]

theorem stepwise_engine (config : Config) : (engine config).caller.Stepwise Heap.Step :=
  Caller.stepwise_nested (fun _ _ _ _ _ => Stepwise.pure _) Caller.depthLimit

theorem yields_declare_ofClass {decl : ClassDecl} {id : ObjectId} :
    (e.declare env (.ofClass decl)).Yields w (id, env') w' ↔
      (e.evaluateClass decl env).Yields w id w' ∧ env.bind decl.name (.object id) = env' := by
  constructor
  · intro h
    obtain ⟨id', w₁, hclass, h⟩ := yields_bind.mp h
    obtain ⟨hresult, rfl⟩ := yields_pure.mp h
    cases hresult
    exact ⟨hclass, rfl⟩
  · rintro ⟨hclass, rfl⟩
    exact yields_bind.mpr ⟨id, w', hclass, yields_pure.mpr ⟨rfl, rfl⟩⟩

theorem listing_ofClass {h : Heap} {decl : ClassDecl} {constructor prototype : ObjectId}
    (hl : h.Links constructor prototype) :
    listing h constructor (.ofClass decl) = ⟨"class", decl.name,
      [⟨"static", Listing.rows h Listing.hiddenKeys constructor⟩,
        ⟨"prototype", Listing.rows h Listing.hiddenKeys prototype⟩]⟩ := by
  rw [listing, Listing.ofClass, hl.link]
  rfl

end Command

open Command

/-- The tables of a run are complete but for two names. If a run comes past a class, whatever stands
before it and after it, it prints the two tables of the class, each as it was left by the evaluation:
with one row for every slot that the class declares on this side and that is called neither `prototype`
nor `constructor`, with the kind and the attributes of what is held there, and in the order in which the
keys were first defined. -/
theorem Manifest.run_tables (config : Config) (traced : Bool) (before after : List DeclarationSpec)
    (spec : ClassSpec)
    (success : (Manifest.run config traced ⟨before ++ [.classSpec spec]⟩).failure = none) :
    ∃ decl env w constructor prototype w' statics others shown later,
      spec.build = .ok decl ∧
      Reaches (engine config) before libraryEnvironment ⟨libraryHeap, ()⟩ env w ∧
      ((engine config).evaluateClass decl env).Yields w constructor w' ∧
      w'.heap.Links constructor prototype ∧
      (Manifest.run config traced ⟨before ++ .classSpec spec :: after⟩).out =
        (Manifest.run config traced ⟨before⟩).out ++ shown ++ later ∧
      (Listing.mk "class" spec.name [⟨"static", statics⟩, ⟨"prototype", others⟩]).Printed shown ∧
      Listing.Tabulates w.heap w'.heap constructor (ClassElement.names true decl.elements) statics ∧
      Listing.Tabulates w.heap w'.heap prototype (ClassElement.names false decl.elements) others ∧
      ∃ heaps, Heap.Course w.heap heaps w'.heap ∧
        (((engine config).evaluateClass decl env w).events.map (·.heap)).Sublist heaps := by
  obtain ⟨env₂, w₂, hall⟩ := exists_reaches success
  obtain ⟨env, w, hbefore, hspec⟩ := hall.of_append
  cases hspec with
  | declared build declare rest =>
  obtain ⟨decl, hdecl, rfl⟩ := Except.map_eq_ok.mp build
  obtain ⟨hclass, rfl⟩ := yields_declare_ofClass.mp declare
  obtain ⟨pair, w₀, hcreate, rfl, hlinks⟩ := Engine.links_of_evaluateClass (stepwise_engine config) rfl
    hclass
  obtain ⟨heaps, hcourse, hmoments⟩ :=
    (Engine.stepwise_evaluateClass (stepwise_engine config) rfl decl env).exists_course w
  rw [hclass.2] at hcourse
  have htables : ∀ isStatic, Listing.Tabulates w.heap _ (pair.side isStatic) _ _ := fun isStatic =>
    Listing.tabulates_rows hcourse (Heap.ownKeys_of_size_le (Engine.fresh_of_create hcreate isStatic))
      (Engine.owned_of_evaluateClass (stepwise_engine config) rfl hcreate hclass isStatic)
  have hname : decl.name = spec.name := DeclarationSpec.name_of_build build
  have hout := hbefore.out_append traced (.classSpec spec :: after)
  rw [runAll_declared build declare, listing_ofClass hlinks, hname] at hout
  exact ⟨decl, env, w, _, _, _, _, _, _, _, hdecl, hbefore, hclass, hlinks,
    hout.trans (List.append_assoc _ _ _).symm, Listing.printed_pieces _, htables true, htables false,
    heaps, hcourse, hmoments⟩

def spotSpec : ClassSpec where
  name := "Spot"
  decorators := [.bare "annotation"]
  members := [
    { method := some "norm", decorators := [.bare "readonly"] }, { getter := some "x" },
    { field := some "origin", isStatic := true }, { setter := some "x" }]

theorem Manifest.run_tables_spot :
    (Manifest.run {} false ⟨[.objectSpec unitSpec] ++ [.classSpec spotSpec]⟩).failure = none ∧
    ∃ statics others shown later,
      (Manifest.run {} false
          ⟨[.objectSpec unitSpec] ++ .classSpec spotSpec :: [.classSpec lineSpec]⟩).out =
        (Manifest.run {} false ⟨[.objectSpec unitSpec]⟩).out ++ shown ++ later ∧
      (Listing.mk "class" "Spot" [⟨"static", statics⟩, ⟨"prototype", others⟩]).Printed shown ∧
      (∃ row, statics.filter (·.key = "origin") = [row]) ∧
      (∃ row, others.filter (·.key = "norm") = [row]) ∧
      (∃ row, others.filter (·.key = "x") = [row]) := by
  have success : (Manifest.run {} false
      ⟨[.objectSpec unitSpec] ++ [.classSpec spotSpec]⟩).failure = none := by decide +kernel
  obtain ⟨decl, env, w, constructor, prototype, w', statics, others, shown, later, hdecl, -, -, -, hout,
    hshown, hstatics, hothers, -⟩ := Manifest.run_tables {} false [.objectSpec unitSpec] [.classSpec lineSpec]
      spotSpec success
  obtain ⟨rfl⟩ : decl = _ := Except.ok.inj (hdecl.symm.trans rfl)
  obtain ⟨-, _, -, horigin, -⟩ := hstatics.complete "origin" (by decide) (by decide)
  obtain ⟨-, _, -, hnorm, -⟩ := hothers.complete "norm" (by decide) (by decide)
  obtain ⟨-, _, -, hx, -⟩ := hothers.complete "x" (by decide) (by decide)
  exact ⟨success, statics, others, shown, later, hout, hshown, ⟨_, horigin⟩, ⟨_, hnorm⟩, ⟨_, hx⟩⟩

def namesakeSpec : ClassSpec where
  name := "C"
  members := [{ method := some "prototype" }]

/-- The method is declared and defined, but there is no row for it. -/
theorem Manifest.run_hides_namesake :
    (Manifest.run {} false ⟨[.classSpec namesakeSpec]⟩).failure = none ∧
    (∃ decl, namesakeSpec.build = .ok decl ∧
      "prototype" ∈ ClassElement.names false decl.elements) ∧
    ¬∃ statics others,
      (Listing.mk "class" "C" [⟨"static", statics⟩, ⟨"prototype", others⟩]).Printed
        (Manifest.run {} false ⟨[.classSpec namesakeSpec]⟩).out ∧
      ∃ row ∈ others, row.key = "prototype" := by
  refine ⟨by decide +kernel, ⟨_, rfl, by decide⟩, ?_⟩
  rintro ⟨statics, others, ⟨sections, hsections, hout⟩, row, hrow, -⟩
  have hheader : (Manifest.run {} false ⟨[.classSpec namesakeSpec]⟩).out.length = 4 := by
    decide +kernel
  obtain ⟨first, rest, rfl⟩ := List.exists_cons_of_ne_nil (List.ne_nil_of_mem hrow)
  rw [hout] at hheader
  cases hsections with
  | cons _ hsections =>
    cases hsections with
    | cons hothers _ =>
      cases hothers
      simp at hheader

end Decoration
