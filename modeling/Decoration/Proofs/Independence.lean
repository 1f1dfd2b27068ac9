import Decoration.Command.Run
import Decoration.Proofs.Relocation.Building
import Mathlib.Data.List.Forall2

/-! Declarations of a manifest do not see each other: a run of all of them is the runs of each one alone,
one after the other, up to the first that fails. -/

namespace Decoration

instance (v : Value) : Decidable v.Portable :=
  match v with
  | .object id => inferInstanceAs (Decidable (id.index < libraryCount))
  | .descriptor _ => isFalse id
  | .undefined | .null | .bool _ | .number _ | .string _ => isTrue trivial

structure Heap.HasLibrary (h : Heap) : Prop where
  bound : libraryCount ≤ h.objects.size
  memos : h.memos.size = 1
  library : ∀ i c, (libraryDecorators ⟨0⟩)[i]? = some c → h.object ⟨i⟩ = { kind := .function c }

namespace Command

def libraryHeap : Heap := (Environment.withLibrary {} {}).2

def libraryEnvironment : Environment := (Environment.withLibrary {} {}).1

theorem size_libraryHeap : libraryHeap.objects.size = libraryCount := by decide

theorem library_libraryHeap (i : Nat) (c : Capability) (hc : (libraryDecorators ⟨0⟩)[i]? = some c) :
    libraryHeap.object ⟨i⟩ = { kind := .function c } := by
  have hall : ∀ i : Fin libraryCount,
      libraryHeap.object ⟨i⟩ = { kind := .function (libraryDecorators ⟨0⟩)[i] } := by decide
  obtain ⟨hi, rfl⟩ := List.getElem?_eq_some_iff.mp hc
  exact hall ⟨i, hi⟩

theorem hasLibrary_libraryHeap : libraryHeap.HasLibrary :=
  ⟨Nat.le_of_eq size_libraryHeap.symm, by decide, library_libraryHeap⟩

theorem object_libraryHeap_of_le {id : ObjectId} (hid : libraryCount ≤ id.index) :
    libraryHeap.object id = .absent :=
  Heap.object_of_size_le (Nat.le_trans (Nat.le_of_eq size_libraryHeap) hid)

theorem object_libraryHeap (id : ObjectId) :
    (∃ c ∈ libraryDecorators ⟨0⟩, (libraryDecorators ⟨0⟩)[id.index]? = some c ∧
      libraryHeap.object id = { kind := .function c }) ∨
    libraryCount ≤ id.index ∧ libraryHeap.object id = .absent := by
  rcases Nat.lt_or_ge id.index libraryCount with hid | hid
  · have hat : (libraryDecorators ⟨0⟩)[id.index]? = some _ := List.getElem?_eq_getElem hid
    exact .inl ⟨_, List.getElem_mem hid, hat, library_libraryHeap _ _ hat⟩
  · exact .inr ⟨hid, object_libraryHeap_of_le hid⟩

theorem own?_libraryHeap (id : ObjectId) (key : String) : libraryHeap.own? id key = none := by
  rw [Heap.own?]
  rcases object_libraryHeap id with ⟨c, -, -, hc⟩ | ⟨-, habsent⟩
  · rw [hc]
    rfl
  · rw [habsent]
    rfl

theorem content_libraryHeap (handle : Handle) : libraryHeap.content handle = default := by
  rw [Heap.content, Array.getElem?_eq_none (Nat.zero_le _)]
  rfl

theorem portable_libraryEnvironment (name : String) (v : Value)
    (h : libraryEnvironment.lookup? name = some v) : v.Portable := by
  have hall : ∀ scope ∈ libraryEnvironment.scopes, ∀ entry ∈ scope, entry.2.Portable := by decide
  obtain ⟨scope, hscope, hmem⟩ := Environment.exists_mem_of_lookup? h
  exact hall scope hscope (name, v) hmem

end Command

def Relocation.behind (h : Heap) : Relocation :=
  ⟨h.objects.size - libraryCount, h.cells.size, (h.memo ⟨0⟩).nextSite⟩

namespace Heap.HasLibrary

open Command Relocation

theorem mirrors {h : Heap} (hl : h.HasLibrary) : (behind h).Mirrors libraryHeap h := by
  refine ⟨hasLibrary_libraryHeap.bound, ?_, ?_, ⟨hasLibrary_libraryHeap.memos, hl.memos⟩, fun id => ?_,
    fun handle => ?_, ?_, library_libraryHeap, fun id => ?_, fun id key d hd => ?_, fun handle => ?_⟩
  · rw [size_libraryHeap, behind, Nat.add_comm]
    exact (Nat.sub_add_cancel hl.bound).symm
  · rw [behind]
    exact (Nat.zero_add _).symm
  · rcases object_libraryHeap id with ⟨c, hmem, hat, hc⟩ | ⟨hid, habsent⟩
    · have hid : id.index < libraryCount := (List.getElem?_eq_some_iff.mp hat).1
      have hc' : h.object id = { kind := .function c } := hl.library _ _ hat
      rw [object_of_lt hid, hc', hc, moved, kind, capability_of_library hmem]
      rfl
    · rw [object_of_le hid, habsent, moved_absent]
      refine Heap.object_of_size_le ?_
      have := hl.bound
      simp only [behind]
      omega
  · rw [content_libraryHeap, descriptor_default, Heap.content, Array.getElem?_eq_none]
    · rfl
    · exact Nat.le_add_left _ _
  · rw [behind]
    exact (Nat.zero_add _).symm
  · rcases object_libraryHeap id with ⟨c, -, -, hc⟩ | ⟨-, habsent⟩
    · rw [hc]
    · rw [habsent]
      rfl
  · rw [own?_libraryHeap] at hd
    cases hd
  · rw [content_libraryHeap]
    trivial

theorem of_mirrors {t : Relocation} {h h' : Heap} (m : t.Mirrors h h') : h'.HasLibrary := by
  refine ⟨?_, m.memos.2, fun i c hc => ?_⟩
  · rw [m.objects]
    exact Nat.le_add_right_of_le m.bound
  · have hi : i < libraryCount := (List.getElem?_eq_some_iff.mp hc).1
    have hobject := m.object ⟨i⟩
    rw [object_of_lt hi, m.library i c hc, moved, kind,
      capability_of_library (List.mem_of_getElem? hc)] at hobject
    exact hobject

end Heap.HasLibrary

namespace Command

/-- The same failure, up to the numbers of objects. -/
inductive Failure.Alike : Failure → Failure → Prop
  | same (failure : Failure) : Alike failure failure
  | evaluation (keyword name : String) {fault fault' : DecorationFault} (faults : fault.Alike fault') :
    Alike (.evaluation keyword name fault) (.evaluation keyword name fault')

theorem Failure.Alike.chain {failure failure' : Failure} (h : failure.Alike failure')
    (cause : Cause → String) :
    List.Forall₂ SameButNumbers (failure.chain cause) (failure'.chain cause) := by
  have hsame : ∀ list : List String, List.Forall₂ SameButNumbers list list :=
    fun list => List.forall₂_same.mpr fun x _ => .same x
  cases h with
  | same => exact hsame _
  | evaluation keyword name faults =>
    cases faults with
    | same => exact hsame _
    | invocation decorator source sites =>
      refine .cons (.same _) (.cons ?_ (hsame _))
      exact .append (.append (.append (.same _) sites) (.same _)) (.same _)
    | installRejected name source targets =>
      refine .cons (.same _) (.cons ?_ (hsame _))
      exact .append (.append (.append (.same _) targets) (.same _)) (.same _)

theorem listing_mirrors {t : Relocation} {h h' : Heap} (m : t.Mirrors h h') (id : ObjectId)
    (d : Declaration) : listing h' (t.object id) d = listing h id d := by
  cases d with
  | ofClass decl => exact m.listing_ofClass decl.name id
  | ofLiteral name _ => exact m.listing_ofObject name id

/-- What the runs of single declarations say about a run of all of them. -/
structure Transcript.Follows (singles : List Transcript) (whole : Transcript) : Prop where
  out : whole.out = (singles.takeWhile (·.failure.isNone)).flatMap (·.out)
  failure : Option.Rel Failure.Alike (singles.findSome? (·.failure)) whole.failure

namespace Transcript.Follows

variable {singles : List Transcript} {single : Transcript}

theorem cons {rest first : Transcript} (h : Follows singles rest) (hfailure : single.failure = none)
    (hout : first.out = single.out) : Follows (single :: singles) (first.followedBy rest) := by
  refine ⟨?_, ?_⟩
  · rw [List.takeWhile_cons_of_pos (by rw [hfailure]; rfl), List.flatMap_cons, ← h.out, ← hout]
    rfl
  · rw [List.findSome?_cons, hfailure]
    exact h.failure

theorem failed {whole : Transcript} {failure failure' : Failure} (hsingle : single.failure = some failure)
    (hwhole : whole.failure = some failure') (hout : whole.out = []) (h : failure.Alike failure')
    (singles : List Transcript) : Follows (single :: singles) whole := by
  refine ⟨?_, ?_⟩
  · rw [List.takeWhile_cons_of_neg (by rw [hsingle]; exact Bool.false_ne_true), hout]
    rfl
  · rw [List.findSome?_cons, hsingle, hwhole]
    exact .some h

theorem isSome {whole : Transcript} (h : Follows singles whole) :
    whole.failure.isSome = (singles.findSome? (·.failure)).isSome := by
  have hsome : ∀ a b : Option Failure, Option.Rel Failure.Alike a b → b.isSome = a.isSome := by
    intro a b hab
    cases hab <;> rfl
  exact hsome _ _ h.failure

end Transcript.Follows

/-- In the environment the decorators of the declarations stand for what they stand for at first. -/
def SeesLibrary (env : Environment) (specs : List DeclarationSpec) : Prop :=
  ∀ spec ∈ specs, ∀ d ∈ spec.decorators, env.lookup? d.head = libraryEnvironment.lookup? d.head

theorem SeesLibrary.bind {env : Environment} {specs : List DeclarationSpec} (h : SeesLibrary env specs)
    {name : String} (free : ∀ spec ∈ specs, ∀ d ∈ spec.decorators, d.head ≠ name) (v : Value) :
    SeesLibrary (env.bind name v) specs := by
  intro spec hspec d hd
  rw [Environment.lookup?_bind, if_neg (free spec hspec d hd)]
  exact h spec hspec d hd

/-- From any world that starts with the library, and in any environment with the right heads, declarations
are evaluated as each is at the start of a run of its own. -/
theorem runAll_follows (config : Config) (traced : Bool) {specs : List DeclarationSpec}
    (free : specs.Pairwise fun earlier later => ∀ d ∈ later.decorators, d.head ≠ earlier.name)
    {env : Environment} {w : World Unit} (hl : w.heap.HasLibrary)
    (henv : SeesLibrary env specs) :
    Transcript.Follows
      (specs.map fun spec =>
        runAll (engine config) traced [spec] libraryEnvironment ⟨libraryHeap, ()⟩)
      (runAll (engine config) traced specs env w) := by
  -- A success leaves a heap that has the library, so the next declaration is at the start of a run again.
  induction specs generalizing env w with
  | nil => exact ⟨rfl, .none⟩
  | cons spec rest ih =>
    obtain ⟨hfirst, hrest⟩ := List.pairwise_cons.mp free
    obtain ⟨hspec, henv⟩ := List.forall_mem_cons.mp henv
    rw [List.map_cons]
    cases hbuild : spec.build with
    | error fault =>
      rw [runAll, runAll, hbuild]
      exact .failed rfl rfl rfl (.same _) _
    | ok d =>
      have hshared : d.Shared libraryEnvironment env := DeclarationSpec.shared_of_build hbuild
        fun x hx => ⟨hspec x hx, fun v hv => portable_libraryEnvironment _ v hv⟩
      have halike := Engine.alike_declare (e := engine config) (w := ⟨libraryHeap, ()⟩) rfl rfl
        hl.mirrors hshared
      obtain ⟨outcome, mirrors, -⟩ := halike
      rw [runAll, runAll, hbuild]
      dsimp only
      generalize (engine config).declare libraryEnvironment d ⟨libraryHeap, ()⟩ = r at outcome mirrors ⊢
      generalize (engine config).declare env d w = r' at outcome mirrors ⊢
      rcases r with ⟨x | e | _, v, events⟩ <;> rcases r' with ⟨x' | e' | _, v', events'⟩ <;>
        cases outcome
      case ok.ok.ok related =>
        obtain ⟨id, env₁⟩ := x
        obtain ⟨id', env₁'⟩ := x'
        obtain ⟨⟨hid, -⟩, -, henv₁⟩ := related
        dsimp only at hid henv₁
        subst hid henv₁
        have hfree : ∀ later ∈ rest, ∀ x ∈ later.decorators, x.head ≠ d.name := by
          rw [DeclarationSpec.name_of_build hbuild]
          exact hfirst
        have hsees := SeesLibrary.bind henv hfree (.object ((Relocation.behind w.heap).object id))
        have hnext := ih hrest (Heap.HasLibrary.of_mirrors mirrors) hsees
        refine hnext.cons rfl ?_
        have hlisting := congrArg Listing.pieces (listing_mirrors mirrors id d)
        exact hlisting.trans (List.append_nil _).symm
      case failed.failed.failed related => exact .failed rfl rfl rfl (.evaluation _ _ related) _
      case exhausted.exhausted.exhausted => exact .failed rfl rfl rfl (.same _) _

end Command

theorem Terminal.render_flatMap {α : Type} (colored : Bool) (f : α → List Terminal.Piece)
    (list : List α) :
    Terminal.render colored (list.flatMap f) =
      String.join (list.map fun x => Terminal.render colored (f x)) := by
  induction list with
  | nil => rfl
  | cons x rest ih =>
    rw [List.flatMap_cons, List.map_cons, String.join_cons, ← ih, Terminal.render, List.map_append,
      String.join_append]
    rfl

/-- Declarations do not interfere. In a manifest where no decorator starts with the name of an earlier
declaration, a run writes what runs of the single declarations write, up to the first that fails, and
fails if one of them does, and like the first of these. -/
theorem Manifest.run_singles (config : Config) (traced : Bool) (m : Manifest)
    (free : m.declarations.Pairwise fun earlier later =>
      ∀ d ∈ later.decorators, d.head ≠ earlier.name) :
    let whole := m.run config traced
    let singles := m.declarations.map fun d => Manifest.run config traced ⟨[d]⟩
    (∀ colored, Terminal.render colored whole.out =
      String.join ((singles.takeWhile (·.failure.isNone)).map (Terminal.render colored ·.out))) ∧
    (whole.failure.isSome ↔ ∃ single ∈ singles, single.failure.isSome) ∧
    Option.Rel Command.Failure.Alike (singles.findSome? (·.failure)) whole.failure := by
  intro whole singles
  have h : Command.Transcript.Follows singles whole :=
    Command.runAll_follows config traced free Command.hasLibrary_libraryHeap fun _ _ _ _ => rfl
  refine ⟨fun colored => ?_, ?_, h.failure⟩
  · rw [h.out, Terminal.render_flatMap]
  · rw [h.isSome, List.isSome_findSome?, List.any_eq_true]

def pointSpec : ClassSpec where
  name := "Point"
  decorators := [.bare "annotation"]
  members := [{ method := some "norm", decorators := [.bare "memoize", .bare "readonly"] }]

def unitSpec : ObjectSpec where
  name := "unit"
  properties := [{ name := "x", decorators := [.call "provide" [.bool true]] }]

def lineSpec : ClassSpec where
  name := "Line"
  decorators := [.bare "Origin.mark"]

def mixedManifest : Manifest where
  declarations := [.classSpec pointSpec, .objectSpec unitSpec, .classSpec lineSpec, .objectSpec unitSpec]

theorem Manifest.run_singles_mixedManifest :
    (mixedManifest.declarations.Pairwise fun earlier later =>
      ∀ d ∈ later.decorators, d.head ≠ earlier.name) ∧
    (mixedManifest.run {} true).failure.isSome :=
  ⟨by decide +kernel, (Manifest.run_singles {} true mixedManifest (by decide +kernel)).2.1.mpr
    ⟨Manifest.run {} true ⟨[.classSpec lineSpec]⟩, by simp [mixedManifest], by decide +kernel⟩⟩

end Decoration
