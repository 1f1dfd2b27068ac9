import Decoration.Manifest.Reader
import Decoration.Proofs.Constants
import Decoration.Proofs.Relocation.Building

/-! The literals of a manifest. One literal means one value wherever it is written, but for `null` as the
value of a field, which is no value at all. -/

namespace Decoration

open Decoration.Action

variable {σ : Type} {host : Host σ} {depth : Nat} {config : Config} {env : Environment}
  {json j : Json} {field : String → Option Json} {l : Literal}

theorem Except.mapM_append_cons {ε α β : Type} {f : α → Except ε β} {earlier later : List α} {x : α}
    {results : List β} (h : (earlier ++ x :: later).mapM f = .ok results) :
    ∃ es y ls, results = es ++ y :: ls ∧ f x = .ok y ∧ later.mapM f = .ok ls := by
  rw [List.mapM_append, List.mapM_cons] at h
  obtain ⟨es, -, h⟩ := Except.bind_eq_ok.mp h
  obtain ⟨rest, hrest, h⟩ := Except.bind_eq_ok.mp h
  obtain ⟨y, hy, hrest⟩ := Except.bind_eq_ok.mp hrest
  obtain ⟨ls, hls, hrest⟩ := Except.bind_eq_ok.mp hrest
  cases hrest
  cases h
  exact ⟨es, y, ls, rfl, hy, hls⟩

theorem Except.exists_mem_of_mapM {ε α β : Type} {f : α → Except ε β} {list : List α} {x : α}
    {results : List β} (hx : x ∈ list) (h : list.mapM f = .ok results) :
    ∃ y ∈ results, f x = .ok y := by
  obtain ⟨earlier, later, rfl⟩ := List.append_of_mem hx
  obtain ⟨es, y, ls, rfl, hy, -⟩ := Except.mapM_append_cons h
  exact ⟨y, List.mem_append_right _ List.mem_cons_self, hy⟩

namespace Json

theorem literal?_canonical (j : Json) : j.canonical.literal? = j.literal? := by
  cases j <;> rfl

theorem argument_of_literal? (h : j.literal? = some l) : j.argument = .ok (.literal l) := by
  rw [argument, h]

theorem argument_of_not_literal (h : j.literal? = none) :
    j.argument = .error (.argumentNotLiteral j) := by
  rw [argument, h]

theorem constantBody_of_literal? (name : String) (h : j.literal? = some l) :
    constantBody name j = .ok (.constant name l.value) := by
  rw [constantBody, result, h]
  rfl

theorem constantBody_of_not_literal (name : String) (h : j.literal? = none) :
    constantBody name j = .error (.resultNotLiteral j) := by
  rw [constantBody, result, h]
  rfl

theorem literals_of_mapM {arguments : List Json} {list : List Expr}
    (h : arguments.mapM argument = .ok list) : ∃ literals : List Literal,
      list = literals.map Expr.literal ∧ arguments.map literal? = literals.map some := by
  induction arguments generalizing list with
  | nil =>
    cases h
    exact ⟨[], rfl, rfl⟩
  | cons first rest ih =>
    rw [List.mapM_cons] at h
    obtain ⟨x, hx, h⟩ := Except.bind_eq_ok.mp h
    obtain ⟨others, hothers, h⟩ := Except.bind_eq_ok.mp h
    cases h
    obtain ⟨literals, rfl, hliterals⟩ := ih hothers
    cases hliteral : first.literal? with
    | none => cases hx.symm.trans (argument_of_not_literal hliteral)
    | some l =>
      cases hx.symm.trans (argument_of_literal? hliteral)
      refine ⟨l :: literals, rfl, ?_⟩
      rw [List.map_cons, hliteral, hliterals, List.map_cons]

end Json

def Literal.inMember (l : Literal) (form : ConstantForm) : Value :=
  if form = .value ∧ l = .null then .undefined else l.value

namespace MemberSpec

variable {m : MemberSpec} {form : ConstantForm}

def fieldNames : List String :=
  ["method", "getter", "setter", "field", "static", "returns", "value", "decorators"]

def place? (m : MemberSpec) : Option (String × ConstantForm) :=
  match m.method, m.getter, m.setter, m.field with
  | some _, none, none, none => some ("returns", .method)
  | none, some _, none, none => some ("returns", .getter)
  | none, none, none, some _ => some ("value", .value)
  | _, _, _, _ => none

def Writes (m : MemberSpec) (form : ConstantForm) (j : Json) : Prop :=
  ∃ json field key, ofJson? json = some m ∧ Json.fields? fieldNames 7 json = some field ∧
    m.place? = some (key, form) ∧ field key = some j

theorem constants_of_ofJson? (h : ofJson? json = some m)
    (hfields : Json.fields? fieldNames 7 json = some field) :
    m.returns = ((field "returns").getD .null).canonical ∧
      (field "value").elim (some none) (Json.optional? fun value => some value.canonical) =
        some m.value := by
  simp only [ofJson?, bind, pure, Option.bind_eq_some_iff] at h
  obtain ⟨field', hfields', method, -, getter, -, setter, -, fieldName, -, isStatic, -, value, hvalue,
    decorators, -, h⟩ := h
  obtain rfl : field = field' := Option.some.inj (hfields.symm.trans hfields')
  cases h
  exact ⟨rfl, hvalue⟩

theorem element_of_writes (hw : m.Writes form j) : ∃ name,
    form = .method ∧ m.element = (do return (name, .method (← constantBody name j.canonical))) ∨
    form = .getter ∧ m.element = (do return (name, .getter (← constantBody name j.canonical))) ∨
    form = .value ∧ m.element = (do
      return (name, .field (← (if j.literal? = some .null then none else some j.canonical).mapM
        Json.argument))) := by
  obtain ⟨json, field, key, hjson, hfields, hplace, hj⟩ := hw
  obtain ⟨hreturns, hvalue⟩ := constants_of_ofJson? hjson hfields
  unfold place? at hplace
  unfold element
  split at hplace <;> cases hplace <;> rename_i name hmethod hgetter hsetter hfield
  · rw [hj, Option.getD_some] at hreturns
    rw [hmethod, hgetter, hsetter, hfield, hreturns]
    exact ⟨name, .inl ⟨rfl, rfl⟩⟩
  · rw [hj, Option.getD_some] at hreturns
    rw [hmethod, hgetter, hsetter, hfield, hreturns]
    exact ⟨name, .inr (.inl ⟨rfl, rfl⟩)⟩
  · rw [hj, Option.elim_some] at hvalue
    rw [hmethod, hgetter, hsetter, hfield]
    refine ⟨name, .inr (.inr ⟨rfl, ?_⟩)⟩
    have hnull : m.value = if j.literal? = some .null then none else some j.canonical := by
      cases j <;> simp_all [Json.optional?, Json.literal?]
    rw [hnull]

theorem element_of_literal? (hw : m.Writes form j) (h : j.literal? = some l) :
    ∃ name kind, m.element = .ok (name, kind) ∧ kind.constant? = some (form, l.inMember form) := by
  have hcanonical := (Json.literal?_canonical j).trans h
  obtain ⟨name, ⟨rfl, helement⟩ | ⟨rfl, helement⟩ | ⟨rfl, helement⟩⟩ := element_of_writes hw
  · rw [Json.constantBody_of_literal? _ hcanonical] at helement
    exact ⟨name, _, helement, rfl⟩
  · rw [Json.constantBody_of_literal? _ hcanonical] at helement
    exact ⟨name, _, helement, rfl⟩
  · rw [h] at helement
    by_cases hnull : l = .null
    · rw [if_pos (congrArg some hnull)] at helement
      refine ⟨name, _, helement, ?_⟩
      rw [Literal.inMember, if_pos ⟨rfl, hnull⟩]
      rfl
    · rw [if_neg fun heq => hnull (Option.some.inj heq), Option.mapM_some,
        Json.argument_of_literal? hcanonical] at helement
      refine ⟨name, _, helement, ?_⟩
      rw [Literal.inMember, if_neg fun heq => hnull heq.2]
      rfl

theorem element_of_not_literal (hw : m.Writes form j) (h : j.literal? = none) :
    ∃ fault, m.element = .error fault := by
  have hcanonical := (Json.literal?_canonical j).trans h
  obtain ⟨name, ⟨rfl, helement⟩ | ⟨rfl, helement⟩ | ⟨rfl, helement⟩⟩ := element_of_writes hw
  · rw [Json.constantBody_of_not_literal _ hcanonical] at helement
    exact ⟨_, helement⟩
  · rw [Json.constantBody_of_not_literal _ hcanonical] at helement
    exact ⟨_, helement⟩
  · rw [h, if_neg nofun, Option.mapM_some, Json.argument_of_not_literal hcanonical] at helement
    exact ⟨_, helement⟩

theorem exists_element_of_build {c : ClassSpec} {decl : ClassDecl} (hm : m ∈ c.members)
    (hbuild : c.build = .ok decl) : ∃ element ∈ decl.elements, m.build = .ok element := by
  obtain ⟨decorators, -, h⟩ := Except.bind_eq_ok.mp hbuild
  obtain ⟨elements, helements, h⟩ := Except.bind_eq_ok.mp h
  cases h
  exact Except.exists_mem_of_mapM hm helements

theorem spares_of_build {c : ClassSpec} {decl : ClassDecl} (hbuild : c.build = .ok decl)
    (caller : Caller σ) : ∀ x ∈ decl.elements, ∀ y, x.kind = .field (some y) →
      (y.evaluate caller env).Spares := by
  intro x hx y hy
  obtain ⟨decorators, -, h⟩ := Except.bind_eq_ok.mp hbuild
  obtain ⟨elements, helements, h⟩ := Except.bind_eq_ok.mp h
  cases h
  obtain ⟨m, -, hm⟩ := Except.exists_of_mem_mapM helements x hx
  obtain ⟨⟨name, kind⟩, helement, hm⟩ := Except.bind_eq_ok.mp hm
  obtain ⟨decorators, -, hm⟩ := Except.bind_eq_ok.mp hm
  cases hm
  have hfixed : (⟨name, m.isStatic, decorators, kind⟩ : ClassElement).unit.shape.Fixed :=
    fixed_of_element helement
  rw [show kind = .field (some y) from hy] at hfixed
  obtain ⟨l, rfl⟩ := hfixed y rfl
  exact Spares.pure _

/-- What a member comes to: it is built, and when the members of a class that it is in have been
evaluated it gives the value, unless decorators or later units of its slot have been at it. -/
structure Means (host : Host σ) (depth : Nat) (m : MemberSpec) (v : Value) (form : ConstantForm) :
    Prop where
  builds : ∃ name kind, m.element = .ok (name, kind)
  gives : ∀ name kind (c : ClassSpec) decl, m.element = .ok (name, kind) → m ∈ c.members →
    c.build = .ok decl → ∀ config env w pair units w',
      ((Engine.hosted host depth config).evaluateMembers decl env).Yields w (pair, units) w' →
      ∃ earlier u later, units = earlier ++ u :: later ∧ (name, m.isStatic, kind) ∈ u.bodies ∧
        (u.decorators = [] →
          (∀ x ∈ later, x.decorators = [] ∧ x.inSlot name m.isStatic = false) →
          w'.Gives (Caller.nested host (depth + 1)) (pair.side m.isStatic) name v form)

theorem means_of_writes (host : Host σ) (depth : Nat) (hw : m.Writes form j)
    (h : j.literal? = some l) : m.Means host depth (l.inMember form) form := by
  obtain ⟨name, kind, helement, hkind⟩ := element_of_literal? hw h
  refine ⟨⟨name, kind, helement⟩, ?_⟩
  intro name' kind' c decl helement' hm hbuild config env w pair units w' hmembers
  cases helement.symm.trans helement'
  obtain ⟨element, hmem, hbuilt⟩ := exists_element_of_build hm hbuild
  obtain ⟨_, helement', hbuilt⟩ := Except.bind_eq_ok.mp hbuilt
  cases helement.symm.trans helement'
  obtain ⟨decorators, -, hbuilt⟩ := Except.bind_eq_ok.mp hbuilt
  cases hbuilt
  exact Engine.gives_of_evaluateMembers hmem hkind (spares_of_build hbuild _) hmembers

end MemberSpec

namespace PropertySpec

variable {p : PropertySpec} {form : ConstantForm}

def fieldNames : List String := ["name", "kind", "value", "decorators"]

def form? (p : PropertySpec) : Option ConstantForm :=
  match p.kind with
  | .init => some .value
  | .method => some .method
  | .getter => some .getter
  | .setter => none

def Writes (p : PropertySpec) (form : ConstantForm) (j : Json) : Prop :=
  ∃ json field, ofJson? json = some p ∧ Json.fields? fieldNames 1 json = some field ∧
    p.form? = some form ∧ field "value" = some j

theorem value_of_writes (hw : p.Writes form j) : p.value = j.canonical := by
  obtain ⟨json, field, hjson, hfields, -, hj⟩ := hw
  simp only [ofJson?, bind, pure, Option.bind_eq_some_iff] at hjson
  obtain ⟨field', hfields', nameField, -, name, -, kind, -, decorators, -, h⟩ := hjson
  obtain rfl : field = field' := Option.some.inj (hfields.symm.trans hfields')
  cases h
  exact congrArg (fun value => (Option.getD value .null).canonical) hj

theorem propertyKind_of_literal? (hw : p.Writes form j) (h : j.literal? = some l) :
    ∃ kind, p.propertyKind = .ok kind ∧ kind.constant? = some (form, l.value) := by
  have hcanonical := (Json.literal?_canonical j).trans h
  have hvalue := value_of_writes hw
  obtain ⟨json, field, -, -, hform, -⟩ := hw
  rw [propertyKind, hvalue, Json.argument_of_literal? hcanonical,
    Json.constantBody_of_literal? _ hcanonical]
  cases hkind : p.kind <;> rw [form?, hkind] at hform <;> cases hform <;> exact ⟨_, rfl, rfl⟩

theorem propertyKind_of_not_literal (hw : p.Writes form j) (h : j.literal? = none) :
    ∃ fault, p.propertyKind = .error fault := by
  have hcanonical := (Json.literal?_canonical j).trans h
  have hvalue := value_of_writes hw
  obtain ⟨json, field, -, -, hform, -⟩ := hw
  rw [propertyKind, hvalue, Json.argument_of_not_literal hcanonical,
    Json.constantBody_of_not_literal _ hcanonical]
  cases hkind : p.kind <;> rw [form?, hkind] at hform <;> cases hform <;> exact ⟨_, rfl⟩

/-- What a property comes to if it has no decorators: it is built, and when an object literal that it is
in has been evaluated it gives the value, unless decorators or other properties of its key come later. A
setter does not take the place of a getter. -/
structure Means (host : Host σ) (depth : Nat) (p : PropertySpec) (v : Value) (form : ConstantForm) :
    Prop where
  builds : ∃ kind, p.propertyKind = .ok kind
  gives : p.decorators = [] → ∀ (o : ObjectSpec) literal earlier later,
    o.properties = earlier ++ p :: later → o.build = .ok literal →
    (∀ q ∈ later, q.decorators = [] ∧ (q.name = p.name → form = .getter ∧ q.kind = .setter)) →
    ∀ config env w id w', ((Engine.hosted host depth config).evaluateLiteral literal env).Yields w id w' →
      w'.Gives (Caller.nested host (depth + 1)) id p.name v form

theorem build_eq_ok {built : LiteralProperty} (h : p.build = .ok built) :
    ∃ kind decorators, p.propertyKind = .ok kind ∧
      p.decorators.mapM DecoratorSpec.build = .ok decorators ∧ built = ⟨p.name, decorators, kind⟩ := by
  obtain ⟨kind, hkind, h⟩ := Except.bind_eq_ok.mp h
  obtain ⟨decorators, hdecorators, h⟩ := Except.bind_eq_ok.mp h
  cases h
  exact ⟨kind, decorators, hkind, hdecorators, rfl⟩

theorem decorators_of_build {built : LiteralProperty} (h : p.build = .ok built)
    (hdecorators : p.decorators = []) : built.decorators = [] := by
  obtain ⟨kind, decorators, -, hlist, rfl⟩ := build_eq_ok h
  rw [hdecorators] at hlist
  cases hlist
  rfl

theorem means_of_writes (host : Host σ) (depth : Nat) (hw : p.Writes form j)
    (h : j.literal? = some l) : p.Means host depth l.value form := by
  obtain ⟨kind, hkind, hconstant⟩ := propertyKind_of_literal? hw h
  refine ⟨⟨kind, hkind⟩, ?_⟩
  intro hdecorators o literal earlier later hsplit hbuild hlater config env w id w' hevaluated
  obtain ⟨properties, hproperties, h⟩ := Except.bind_eq_ok.mp hbuild
  cases h
  have hspared : ∀ q ∈ properties, ∀ x, q.kind = .init x →
      (x.evaluate (Caller.nested host (depth + 1)) env).Spares := by
    intro q hq x hx
    obtain ⟨spec, -, hspec⟩ := Except.exists_of_mem_mapM hproperties q hq
    obtain ⟨kind, decorators, hkind, -, rfl⟩ := build_eq_ok hspec
    have hfixed := fixed_of_propertyKind hkind
    rw [show kind = .init x from hx] at hfixed
    obtain ⟨l, rfl⟩ := hfixed
    exact Spares.pure _
  rw [hsplit] at hproperties
  obtain ⟨before, built, after, rfl, hbuilt, hafter⟩ := Except.mapM_append_cons hproperties
  have hnone := decorators_of_build hbuilt hdecorators
  obtain ⟨kind', decorators, hkind', -, rfl⟩ := build_eq_ok hbuilt
  cases hkind.symm.trans hkind'
  refine Engine.gives_of_evaluateLiteral (p := ⟨p.name, decorators, kind⟩) rfl hconstant hnone
    (fun q hq => ?_) hspared hevaluated
  obtain ⟨spec, hspec, hq⟩ := Except.exists_of_mem_mapM hafter q hq
  refine ⟨decorators_of_build hq (hlater spec hspec).1, fun hkey => ?_⟩
  obtain ⟨kind, decorators, hkind, -, rfl⟩ := build_eq_ok hq
  obtain ⟨hform, hsetter⟩ := (hlater spec hspec).2 hkey
  rw [propertyKind, hsetter] at hkind
  cases hkind
  exact ⟨hform, _, rfl⟩

end PropertySpec

/-- A construction hands the capability what its chain gives, and after that the decorator's own
arguments, with the value at this position. -/
def Decorator.Hands (caller : Caller σ) (d : Decorator) (i : Nat) (v : Value) : Prop :=
  ∀ target name (given : List Value) (w : World σ), ∃ all : List Value,
    given <+: all ∧ all[given.length + i]? = some v ∧
    (d.construct caller target name given w).events =
      ⟨w.heap, .construction d all⟩ :: (caller d.capability .construct all w).events ∧
    (d.construct caller target name given w).world = (caller d.capability .construct all w).world ∧
    ∀ result, (d.construct caller target name given w).outcome = .ok result ↔
      (caller d.capability .construct all w).outcome = .ok result

theorem Decorator.hands_of_extra {d : Decorator} {i : Nat} {v : Value} (caller : Caller σ)
    (h : d.extra[i]? = some v) : d.Hands caller i v := by
  intro target name given w
  refine ⟨given ++ d.extra, List.prefix_append _ _, ?_, ?_⟩
  · rw [List.getElem?_append_right (Nat.le_add_right _ _), Nat.add_sub_cancel_left, h]
  · have hconstruct : d.construct caller target name given w =
        Action.bind (Action.emit (.construction d (given ++ d.extra)))
          (fun _ => (caller d.capability .construct (given ++ d.extra)).mapFault
            fun h => .invocation d.label (site h target name)) w := rfl
    rw [hconstruct]
    unfold Action.bind Action.emit Action.mapFault
    dsimp only
    generalize caller d.capability .construct (given ++ d.extra) w = run
    rcases run with ⟨a | fault | _, w', events⟩ <;> simp

namespace DecoratorSpec

variable {d : DecoratorSpec} {i : Nat}

def Writes (d : DecoratorSpec) (i : Nat) (j : Json) : Prop :=
  ∃ json field items, ofJson? json = some d ∧ Json.fields? ["name", "args"] 1 json = some field ∧
    field "args" = some (.array items) ∧ items[i]? = some j

/-- What an argument comes to: a decorator that is collected has the value at this position of its own
arguments, and is handed it by every chain. -/
def Means (d : DecoratorSpec) (i : Nat) (v : Value) : Prop :=
  ∀ x, d.build = .ok x → ∀ {σ : Type} (caller : Caller σ) env w decorator w',
    (Decorator.collectOne caller env x).Yields w decorator w' →
      decorator.extra[i]? = some v ∧ decorator.Hands caller i v

theorem call_of_writes (hw : d.Writes i j) :
    ∃ name arguments, d = .call name arguments ∧ arguments[i]? = some j.canonical := by
  obtain ⟨json, field, items, hjson, hfields, hargs, hj⟩ := hw
  cases json with
  | object members =>
    simp only [ofJson?, bind, pure, Option.bind_eq_some_iff] at hjson
    obtain ⟨field', hfields', nameField, -, name, -, arguments, harguments, h⟩ := hjson
    obtain rfl : field = field' := Option.some.inj (hfields.symm.trans hfields')
    cases h
    rw [hargs, Option.elim_some] at harguments
    have hmap : arguments = items.map Json.canonical := by
      have hall : items.mapM (fun item => some item.canonical) = some (items.map Json.canonical) :=
        List.mapM_pure
      exact Option.some.inj (harguments.symm.trans hall)
    exact ⟨name, arguments, rfl, by rw [hmap, List.getElem?_map, hj, Option.map_some]⟩
  | string name => cases hfields
  | null | bool _ | integer _ | real _ | array _ => cases hjson

theorem literals_of_build {name : String} {arguments : List Json} {x : DecoratorExpr}
    (h : (call name arguments).build = .ok x) : ∃ literals : List Literal,
      x.arguments = literals.map Expr.literal ∧ arguments.map Json.literal? = literals.map some := by
  obtain ⟨list, hlist, h⟩ := Except.bind_eq_ok.mp h
  cases h
  exact Json.literals_of_mapM hlist

theorem extra_of_collectOne {caller : Caller σ} {x : DecoratorExpr} {literals : List Literal}
    {w w' : World σ} {decorator : Decorator} (hx : x.arguments = literals.map Expr.literal)
    (h : (Decorator.collectOne caller env x).Yields w decorator w') :
    decorator.extra = literals.map Literal.value := by
  obtain ⟨callee, v, -, h⟩ := yields_bind.mp h
  rw [yields_heap_bind] at h
  cases hc : v.heap.capability? callee with
  | none =>
    rw [hc] at h
    cases h.1
  | some capability =>
    rw [hc] at h
    dsimp only at h
    rw [hx, Expr.mapM_evaluate_literal] at h
    obtain ⟨extra, v', hextra, h⟩ := yields_bind.mp h
    obtain ⟨rfl, -⟩ := yields_pure.mp (yields_mapFault.mp hextra)
    have h := yields_report_bind.mp h
    obtain ⟨rfl, -⟩ := yields_pure.mp h
    rfl

theorem getElem?_of_writes {literals : List Literal} {arguments : List Json}
    (hargument : arguments[i]? = some j.canonical)
    (hliterals : arguments.map Json.literal? = literals.map some) :
    literals[i]?.map some = some j.literal? := by
  have hi := congrArg (·[i]?) hliterals
  simp only [List.getElem?_map, hargument, Option.map_some, Json.literal?_canonical] at hi
  exact hi.symm

theorem means_of_writes (hw : d.Writes i j) (h : j.literal? = some l) : d.Means i l.value := by
  intro x hbuild σ caller env w decorator w' hcollected
  obtain ⟨name, arguments, rfl, hargument⟩ := call_of_writes hw
  obtain ⟨literals, hx, hliterals⟩ := literals_of_build hbuild
  obtain ⟨l', hl', heq⟩ := Option.map_eq_some_iff.mp (getElem?_of_writes hargument hliterals)
  have hextra : decorator.extra[i]? = some l.value := by
    rw [extra_of_collectOne hx hcollected, List.getElem?_map, hl', Option.map_some]
    cases heq.trans h
    rfl
  exact ⟨hextra, Decorator.hands_of_extra caller hextra⟩

theorem build_of_not_literal (hw : d.Writes i j) (h : j.literal? = none) :
    ∃ fault, d.build = .error fault := by
  obtain ⟨name, arguments, rfl, hargument⟩ := call_of_writes hw
  cases hbuild : (call name arguments).build with
  | error fault => exact ⟨fault, rfl⟩
  | ok x =>
    obtain ⟨literals, -, hliterals⟩ := literals_of_build hbuild
    obtain ⟨l', -, heq⟩ := Option.map_eq_some_iff.mp (getElem?_of_writes hargument hliterals)
    cases heq.trans h

end DecoratorSpec

namespace DeclarationSpec

theorem exists_decorator_of_build {spec : DeclarationSpec} {declaration : Declaration}
    (h : spec.build = .ok declaration) : ∀ d ∈ spec.decorators, ∃ x, d.build = .ok x := by
  intro d hd
  cases spec with
  | classSpec c =>
    obtain ⟨decl, hdecl, -⟩ := Except.map_eq_ok.mp h
    rcases List.mem_append.mp hd with hd | hd
    · obtain ⟨decorators, hdecorators, -⟩ := Except.bind_eq_ok.mp hdecl
      obtain ⟨x, -, hx⟩ := Except.exists_mem_of_mapM hd hdecorators
      exact ⟨x, hx⟩
    · obtain ⟨m, hm, hd⟩ := List.mem_flatMap.mp hd
      obtain ⟨element, -, helement⟩ := MemberSpec.exists_element_of_build hm hdecl
      obtain ⟨_, -, helement⟩ := Except.bind_eq_ok.mp helement
      obtain ⟨decorators, hdecorators, -⟩ := Except.bind_eq_ok.mp helement
      obtain ⟨x, -, hx⟩ := Except.exists_mem_of_mapM hd hdecorators
      exact ⟨x, hx⟩
  | objectSpec o =>
    obtain ⟨literal, hliteral, -⟩ := Except.map_eq_ok.mp h
    obtain ⟨p, hp, hd⟩ := List.mem_flatMap.mp hd
    obtain ⟨properties, hproperties, -⟩ := Except.bind_eq_ok.mp hliteral
    obtain ⟨built, -, hbuilt⟩ := Except.exists_mem_of_mapM hp hproperties
    obtain ⟨kind, decorators, -, hdecorators, -⟩ := PropertySpec.build_eq_ok hbuilt
    obtain ⟨x, -, hx⟩ := Except.exists_mem_of_mapM hd hdecorators
    exact ⟨x, hx⟩

theorem exists_fault {spec : DeclarationSpec} (h : ∀ declaration, spec.build ≠ .ok declaration) :
    ∃ fault, spec.build = .error fault := by
  cases hbuild : spec.build with
  | error fault => exact ⟨fault, rfl⟩
  | ok declaration => exact absurd hbuild (h declaration)

theorem build_fails_of_member {m : MemberSpec} {c : ClassSpec} (hm : m ∈ c.members)
    (h : ∃ fault, m.element = .error fault) : ∃ fault, (classSpec c).build = .error fault := by
  refine exists_fault fun declaration hbuild => ?_
  obtain ⟨fault, hfault⟩ := h
  obtain ⟨decl, hdecl, -⟩ := Except.map_eq_ok.mp hbuild
  obtain ⟨element, -, helement⟩ := MemberSpec.exists_element_of_build hm hdecl
  obtain ⟨_, hbuilt, -⟩ := Except.bind_eq_ok.mp helement
  cases hfault.symm.trans hbuilt

theorem build_fails_of_property {p : PropertySpec} {o : ObjectSpec} (hp : p ∈ o.properties)
    (h : ∃ fault, p.propertyKind = .error fault) : ∃ fault, (objectSpec o).build = .error fault := by
  refine exists_fault fun declaration hbuild => ?_
  obtain ⟨fault, hfault⟩ := h
  obtain ⟨literal, hliteral, -⟩ := Except.map_eq_ok.mp hbuild
  obtain ⟨properties, hproperties, -⟩ := Except.bind_eq_ok.mp hliteral
  obtain ⟨built, -, hbuilt⟩ := Except.exists_mem_of_mapM hp hproperties
  obtain ⟨kind, _, hkind, -⟩ := PropertySpec.build_eq_ok hbuilt
  cases hfault.symm.trans hkind

theorem build_fails_of_decorator {d : DecoratorSpec} {spec : DeclarationSpec} (hd : d ∈ spec.decorators)
    (h : ∃ fault, d.build = .error fault) : ∃ fault, spec.build = .error fault := by
  refine exists_fault fun declaration hbuild => ?_
  obtain ⟨fault, hfault⟩ := h
  obtain ⟨x, hx⟩ := exists_decorator_of_build hbuild d hd
  cases hfault.symm.trans hx

/-- Wherever a literal is written it means one value, except that `null` for a field is undefined, and a
declaration with an array or an object at one of these places cannot be built. -/
theorem literal_meaning (host : Host σ) (depth : Nat) (j : Json) :
    (∀ l, j.literal? = some l →
      (∀ m form, MemberSpec.Writes m form j → m.Means host depth (l.inMember form) form) ∧
      (∀ p form, PropertySpec.Writes p form j → p.Means host depth l.value form) ∧
      ∀ d i, DecoratorSpec.Writes d i j → d.Means i l.value) ∧
    (j.literal? = none →
      (∀ m form c, MemberSpec.Writes m form j → m ∈ c.members →
        ∃ fault, (classSpec c).build = .error fault) ∧
      (∀ p form o, PropertySpec.Writes p form j → p ∈ o.properties →
        ∃ fault, (objectSpec o).build = .error fault) ∧
      ∀ d i (spec : DeclarationSpec), DecoratorSpec.Writes d i j → d ∈ spec.decorators →
        ∃ fault, spec.build = .error fault) := by
  refine ⟨fun l h => ⟨?_, ?_, ?_⟩, fun h => ⟨?_, ?_, ?_⟩⟩
  · exact fun m form hw => MemberSpec.means_of_writes host depth hw h
  · exact fun p form hw => PropertySpec.means_of_writes host depth hw h
  · exact fun d i hw => DecoratorSpec.means_of_writes hw h
  · exact fun m form c hw hm => build_fails_of_member hm (MemberSpec.element_of_not_literal hw h)
  · exact fun p form o hw hp => build_fails_of_property hp (PropertySpec.propertyKind_of_not_literal hw h)
  · exact fun d i spec hw hd => build_fails_of_decorator hd (DecoratorSpec.build_of_not_literal hw h)

def threefold : ClassSpec where
  name := "Three"
  members := [
    { method := some "of", returns := .integer 3 },
    { field := some "at", value := some (.integer 3) }]

def threefoldUnits : List ElementUnit := [
  { name := "of", isStatic := false, decorators := [],
    shape := .method (.constant "of" (.number (Number.ofInt 3))) },
  { name := "at", isStatic := false, decorators := [],
    shape := .field (some (.literal (.number (Number.ofInt 3)))) }]

theorem literal_meaning_threefold :
    ∃ (decl : ClassDecl) (pair : ClassPair) (units : List ElementUnit) (w' : World Unit),
      threefold.build = .ok decl ∧
      ((Engine.hosted Host.none 0 {}).evaluateMembers decl {}).Yields ⟨{}, ()⟩ (pair, units) w' ∧
      w'.Gives (Caller.nested Host.none 1) pair.prototype "of" (.number (Number.ofInt 3)) .method := by
  have hw : MemberSpec.Writes { method := some "of", returns := .integer 3 } .method (.integer 3) :=
    ⟨.object [("method", .string "of"), ("returns", .integer 3)], _, "returns", rfl, rfl, rfl, rfl⟩
  have hmeans := ((literal_meaning (Host.none : Host Unit) 0 (.integer 3)).1 _ rfl).1 _ _ hw
  refine ⟨_, _, threefoldUnits, _, rfl, ⟨rfl, rfl⟩, ?_⟩
  obtain ⟨earlier, u, later, hunits, -, hgives⟩ := hmeans.gives "of" _ threefold _ rfl
    (by simp [threefold]) rfl {} {} ⟨{}, ()⟩ _ threefoldUnits _ ⟨rfl, rfl⟩
  have hplain : u.decorators = [] ∧
      ∀ x ∈ later, x.decorators = [] ∧ x.inSlot "of" false = false := by
    rcases earlier with _ | ⟨first, _ | ⟨second, rest⟩⟩
    · cases hunits
      simp [ElementUnit.inSlot]
    · cases hunits
      simp
    · simp [threefoldUnits] at hunits
  exact hgives hplain.1 hplain.2

theorem null_field_undefined :
    ∃ (c : ClassSpec) (decl : ClassDecl) (pair : ClassPair) (units : List ElementUnit) (w' : World Unit),
      ofJson? (.object [("class", .string "Null"), ("members", .array [
        .object [("field", .string "x"), ("value", .null)],
        .object [("getter", .string "y"), ("returns", .null)]])]) = some (.classSpec c) ∧
      c.build = .ok decl ∧
      ((Engine.hosted Host.none 0 {}).evaluateMembers decl {}).Yields ⟨{}, ()⟩ (pair, units) w' ∧
      (pair.prototype.get (Caller.nested Host.none 1) "x").Yields w' .undefined w' ∧
      (pair.prototype.get (Caller.nested Host.none 1) "y").Yields w' .null w' :=
  ⟨_, _, _, _, _, rfl, rfl, ⟨rfl, rfl⟩, ⟨rfl, rfl⟩, ⟨rfl, rfl⟩⟩

end DeclarationSpec
end Decoration
