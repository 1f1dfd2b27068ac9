import Decoration.Proofs.Dotted
import Decoration.Proofs.Relocation.Building
import Mathlib.Data.List.Forall2
import Mathlib.Tactic.MkIffOfInductiveProp

/-! Which specifications of a manifest can be built, and what is built from them: every member and every
decorator that is written, in its place, and nothing else. -/

namespace Decoration

theorem Except.mapM_eq_ok {ε α β : Type} {f : α → Except ε β} {R : α → β → Prop}
    (hf : ∀ x y, f x = .ok y ↔ R x y) {list : List α} {results : List β} :
    list.mapM f = .ok results ↔ List.Forall₂ R list results := by
  induction list generalizing results with
  | nil =>
    rw [List.mapM_nil, List.forall₂_nil_left_iff]
    exact ⟨fun h => (Except.ok.inj h).symm, fun h => congrArg Except.ok h.symm⟩
  | cons x rest ih =>
    rw [List.mapM_cons, List.forall₂_cons_left_iff]
    constructor
    · intro h
      obtain ⟨y, hy, h⟩ := Except.bind_eq_ok.mp h
      obtain ⟨ys, hys, h⟩ := Except.bind_eq_ok.mp h
      exact ⟨y, ys, (hf x y).mp hy, ih.mp hys, (Except.ok.inj h).symm⟩
    · rintro ⟨y, ys, hy, hys, rfl⟩
      refine Except.bind_eq_ok.mpr ⟨y, (hf x y).mpr hy, ?_⟩
      exact Except.bind_eq_ok.mpr ⟨ys, ih.mpr hys, rfl⟩

theorem exists_forall₂_iff {α β : Type} {R : α → β → Prop} {list : List α} :
    (∃ results, List.Forall₂ R list results) ↔ ∀ x ∈ list, ∃ y, R x y := by
  induction list with
  | nil => exact ⟨fun _ => by simp, fun _ => ⟨[], .nil⟩⟩
  | cons x rest ih =>
    simp only [List.forall_mem_cons, ← ih, List.forall₂_cons_left_iff]
    constructor
    · rintro ⟨_, y, ys, hy, hys, rfl⟩
      exact ⟨⟨y, hy⟩, ys, hys⟩
    · rintro ⟨⟨y, hy⟩, ys, hys⟩
      exact ⟨_, y, ys, hy, hys, rfl⟩

namespace Json

def IsScalar : Json → Prop
  | array _ | object _ => False
  | _ => True

inductive Says : Json → Literal → Prop
  | null : Says null .null
  | bool (value : Bool) : Says (bool value) (.bool value)
  | integer (value : Int) : Says (integer value) (.number (Number.ofInt value))
  | real (value : Number) : Says (real value) (.number value)
  | string (value : String) : Says (string value) (.string value)

variable {j : Json} {l : Literal}

theorem exists_says_iff : (∃ l, j.Says l) ↔ j.IsScalar := by
  constructor
  · rintro ⟨l, h⟩
    cases h <;> trivial
  · intro h
    cases j with
    | null => exact ⟨_, .null⟩
    | bool value => exact ⟨_, .bool value⟩
    | integer value => exact ⟨_, .integer value⟩
    | real value => exact ⟨_, .real value⟩
    | string value => exact ⟨_, .string value⟩
    | array items => exact h.elim
    | object members => exact h.elim

theorem literal?_eq_some : j.literal? = some l ↔ j.Says l := by
  constructor
  · intro h
    cases j <;> cases h <;> constructor
  · rintro (_ | _) <;> rfl

theorem argument_eq_ok {x : Expr} : j.argument = .ok x ↔ ∃ l, j.Says l ∧ .literal l = x := by
  simp only [← literal?_eq_some]
  unfold argument
  cases j.literal? with
  | none => simp
  | some l => simp

theorem constantBody_eq_ok {name : String} {body : Capability} :
    constantBody name j = .ok body ↔ ∃ l, j.Says l ∧ .constant name l.value = body := by
  simp only [← literal?_eq_some]
  unfold constantBody result
  cases j.literal? with
  | none => simp [Except.map]
  | some l => simp [Except.map]

end Json

def inParentheses : List String → String
  | [] => ""
  | texts => "(" ++ ", ".intercalate texts ++ ")"

namespace DecoratorSpec

def arguments : DecoratorSpec → List Json
  | bare _ => []
  | call _ arguments => arguments

def Valid (d : DecoratorSpec) : Prop := ∀ j ∈ d.arguments, j.IsScalar

structure Becomes (d : DecoratorSpec) (x : DecoratorExpr) : Prop where
  callee : x.callee = Expr.path d.name
  arguments : List.Forall₂ (fun j y => ∃ l, j.Says l ∧ .literal l = y) d.arguments x.arguments
  label : x.label = "@" ++ d.name ++ inParentheses (x.arguments.map Expr.text)

variable {d : DecoratorSpec} {x : DecoratorExpr}

theorem label_eq (name : String) (list : List Expr) :
    DecoratorExpr.label { callee := Expr.path name, arguments := list } =
      "@" ++ name ++ inParentheses (list.map Expr.text) := by
  cases list with
  | nil => simp [DecoratorExpr.label, Expr.text_path, inParentheses]
  | cons first rest => simp [DecoratorExpr.label, Expr.text_path, inParentheses]

theorem build_eq_ok_iff : d.build = .ok x ↔ d.Becomes x := by
  have hmapM := @Except.mapM_eq_ok _ _ _ Json.argument _ (fun _ _ => Json.argument_eq_ok)
  constructor
  · intro h
    cases d with
    | bare name =>
      cases h
      exact ⟨rfl, .nil, label_eq name []⟩
    | call name arguments =>
      obtain ⟨list, hlist, h⟩ := Except.bind_eq_ok.mp h
      cases h
      exact ⟨rfl, hmapM.mp hlist, label_eq name list⟩
  · rintro ⟨hcallee, harguments, -⟩
    obtain ⟨callee, list⟩ := x
    obtain rfl : callee = Expr.path d.name := hcallee
    cases d with
    | bare name =>
      obtain rfl := List.forall₂_nil_left_iff.mp harguments
      rfl
    | call name arguments => exact Except.bind_eq_ok.mpr ⟨list, hmapM.mpr harguments, rfl⟩

theorem exists_becomes_iff : (∃ x, d.Becomes x) ↔ d.Valid := by
  unfold Valid
  simp only [← Json.exists_says_iff]
  constructor
  · rintro ⟨x, h⟩ j hj
    obtain ⟨y, l, hl, -⟩ := exists_forall₂_iff.mp ⟨_, h.arguments⟩ j hj
    exact ⟨l, hl⟩
  · intro h
    have hall : ∀ j ∈ d.arguments, ∃ y, ∃ l, j.Says l ∧ Expr.literal l = y := by
      intro j hj
      obtain ⟨l, hl⟩ := h j hj
      exact ⟨.literal l, l, hl, rfl⟩
    obtain ⟨list, hlist⟩ := exists_forall₂_iff.mpr hall
    exact ⟨{ callee := Expr.path d.name, arguments := list }, rfl, hlist, label_eq d.name list⟩

theorem mapM_build_eq_ok {list : List DecoratorSpec} {xs : List DecoratorExpr} :
    list.mapM build = .ok xs ↔ List.Forall₂ Becomes list xs :=
  Except.mapM_eq_ok fun _ _ => build_eq_ok_iff

theorem exists_forall₂_becomes_iff {list : List DecoratorSpec} :
    (∃ xs, List.Forall₂ Becomes list xs) ↔ ∀ d ∈ list, d.Valid := by
  simp only [exists_forall₂_iff, exists_becomes_iff]

end DecoratorSpec

namespace MemberSpec

def names (m : MemberSpec) : List String :=
  m.method.toList ++ m.getter.toList ++ m.setter.toList ++ m.field.toList

/-- The values that matter: what a method or a getter returns, and the initial value of a field if it has
one. -/
def used (m : MemberSpec) : List Json :=
  (if m.method.isSome || m.getter.isSome then [m.returns] else []) ++
    if m.field.isSome then m.value.toList else []

structure Valid (m : MemberSpec) : Prop where
  names : m.names.length = 1
  used : ∀ j ∈ m.used, j.IsScalar
  decorators : ∀ d ∈ m.decorators, d.Valid

@[mk_iff]
inductive Says (m : MemberSpec) (name : String) : ElementKind → Prop
  | method {l : Literal} (named : m.method = some name) (returns : m.returns.Says l) :
    Says m name (.method (.constant name l.value))
  | getter {l : Literal} (named : m.getter = some name) (returns : m.returns.Says l) :
    Says m name (.getter (.constant name l.value))
  | setter (named : m.setter = some name) : Says m name (.setter (.constant name .null))
  | empty (named : m.field = some name) (absent : m.value = none) : Says m name (.field none)
  | initialized {j : Json} {l : Literal} (named : m.field = some name) (present : m.value = some j)
    (value : j.Says l) : Says m name (.field (some (.literal l)))

structure Becomes (m : MemberSpec) (e : ClassElement) : Prop where
  names : m.names = [e.name]
  kind : m.Says e.name e.kind
  isStatic : e.isStatic = m.isStatic
  decorators : List.Forall₂ DecoratorSpec.Becomes m.decorators e.decorators

variable {m : MemberSpec} {name : String} {kind : ElementKind} {e : ClassElement}

theorem names_eq_singleton : m.names = [name] ↔
    m.method = some name ∧ m.getter = none ∧ m.setter = none ∧ m.field = none ∨
    m.method = none ∧ m.getter = some name ∧ m.setter = none ∧ m.field = none ∨
    m.method = none ∧ m.getter = none ∧ m.setter = some name ∧ m.field = none ∨
    m.method = none ∧ m.getter = none ∧ m.setter = none ∧ m.field = some name := by
  unfold names
  cases m.method <;> cases m.getter <;> cases m.setter <;> cases m.field <;> simp

theorem says_of_element (h : m.element = .ok (name, kind)) :
    m.names = [name] ∧ m.Says name kind := by
  unfold element at h
  split at h <;> rename_i hmethod hgetter hsetter hfield
  · obtain ⟨body, hbody, h⟩ := Except.bind_eq_ok.mp h
    obtain ⟨l, hl, rfl⟩ := Json.constantBody_eq_ok.mp hbody
    cases h
    exact ⟨by simp [names, *], .method hmethod hl⟩
  · obtain ⟨body, hbody, h⟩ := Except.bind_eq_ok.mp h
    obtain ⟨l, hl, rfl⟩ := Json.constantBody_eq_ok.mp hbody
    cases h
    exact ⟨by simp [names, *], .getter hgetter hl⟩
  · cases h
    exact ⟨by simp [names, *], .setter hsetter⟩
  · obtain ⟨initializer, hinitializer, h⟩ := Except.bind_eq_ok.mp h
    cases h
    refine ⟨by simp [names, *], ?_⟩
    cases hvalue : m.value with
    | none =>
      rw [hvalue] at hinitializer
      cases hinitializer
      exact .empty hfield hvalue
    | some j =>
      rw [hvalue] at hinitializer
      obtain ⟨x, hx, rfl⟩ := Except.map_eq_ok.mp hinitializer
      obtain ⟨l, hl, rfl⟩ := Json.argument_eq_ok.mp hx
      exact .initialized hfield hvalue hl
  · cases h

theorem element_of_says (hnames : m.names = [name]) (hsaid : m.Says name kind) :
    m.element = .ok (name, kind) := by
  -- The name is the only one, so the other three places are empty.
  cases hsaid with
  | method named returns =>
    obtain ⟨hgetter, hsetter, hfield⟩ : m.getter = none ∧ m.setter = none ∧ m.field = none := by
      simpa [named] using names_eq_singleton.mp hnames
    rw [element, named, hgetter, hsetter, hfield]
    exact Except.bind_eq_ok.mpr ⟨_, Json.constantBody_eq_ok.mpr ⟨_, returns, rfl⟩, rfl⟩
  | getter named returns =>
    obtain ⟨hmethod, hsetter, hfield⟩ : m.method = none ∧ m.setter = none ∧ m.field = none := by
      simpa [named] using names_eq_singleton.mp hnames
    rw [element, named, hmethod, hsetter, hfield]
    exact Except.bind_eq_ok.mpr ⟨_, Json.constantBody_eq_ok.mpr ⟨_, returns, rfl⟩, rfl⟩
  | setter named =>
    obtain ⟨hmethod, hgetter, hfield⟩ : m.method = none ∧ m.getter = none ∧ m.field = none := by
      simpa [named] using names_eq_singleton.mp hnames
    rw [element, named, hmethod, hgetter, hfield]
  | empty named absent =>
    obtain ⟨hmethod, hgetter, hsetter⟩ : m.method = none ∧ m.getter = none ∧ m.setter = none := by
      simpa [named] using names_eq_singleton.mp hnames
    rw [element, named, hmethod, hgetter, hsetter, absent]
    rfl
  | initialized named present value =>
    obtain ⟨hmethod, hgetter, hsetter⟩ : m.method = none ∧ m.getter = none ∧ m.setter = none := by
      simpa [named] using names_eq_singleton.mp hnames
    have hvalue := Json.argument_eq_ok.mpr ⟨_, value, rfl⟩
    rw [element, named, hmethod, hgetter, hsetter, present, Option.mapM_some, hvalue]
    rfl

theorem element_eq_ok : m.element = .ok (name, kind) ↔ m.names = [name] ∧ m.Says name kind :=
  ⟨says_of_element, fun h => element_of_says h.1 h.2⟩

theorem build_eq_ok_iff : m.build = .ok e ↔ m.Becomes e := by
  constructor
  · intro h
    obtain ⟨⟨name, kind⟩, helement, h⟩ := Except.bind_eq_ok.mp h
    obtain ⟨decorators, hdecorators, h⟩ := Except.bind_eq_ok.mp h
    cases h
    obtain ⟨hnames, hkind⟩ := element_eq_ok.mp helement
    exact ⟨hnames, hkind, rfl, DecoratorSpec.mapM_build_eq_ok.mp hdecorators⟩
  · obtain ⟨name, isStatic, decorators, kind⟩ := e
    rintro ⟨hnames, hkind, rfl, hdecorators⟩
    refine Except.bind_eq_ok.mpr ⟨(name, kind), element_eq_ok.mpr ⟨hnames, hkind⟩, ?_⟩
    exact Except.bind_eq_ok.mpr ⟨decorators, DecoratorSpec.mapM_build_eq_ok.mpr hdecorators, rfl⟩

theorem exists_says_iff (h : m.names = [name]) :
    (∃ kind, m.Says name kind) ↔ ∀ j ∈ m.used, j.IsScalar := by
  simp only [← Json.exists_says_iff, says_iff]
  rcases names_eq_singleton.mp h with hplace | hplace | hplace | hplace
  · simp [used, hplace]
  · simp [used, hplace]
  · simp [used, hplace]
  · cases hvalue : m.value with
    | none => simp [used, hplace, hvalue]
    | some j => simp [used, hplace, hvalue]

theorem exists_becomes_iff : (∃ e, m.Becomes e) ↔ m.Valid := by
  constructor
  · rintro ⟨e, h⟩
    have hused := (exists_says_iff h.names).mp ⟨e.kind, h.kind⟩
    exact ⟨by simp [h.names], hused, DecoratorSpec.exists_forall₂_becomes_iff.mp ⟨_, h.decorators⟩⟩
  · intro h
    obtain ⟨name, hname⟩ := List.length_eq_one_iff.mp h.names
    obtain ⟨kind, hkind⟩ := (exists_says_iff hname).mpr h.used
    obtain ⟨decorators, hdecorators⟩ := DecoratorSpec.exists_forall₂_becomes_iff.mpr h.decorators
    exact ⟨{ name, isStatic := m.isStatic, decorators, kind }, hname, hkind, rfl, hdecorators⟩

end MemberSpec

namespace PropertySpec

def used (p : PropertySpec) : List Json := if p.kind = .setter then [] else [p.value]

structure Valid (p : PropertySpec) : Prop where
  used : ∀ j ∈ p.used, j.IsScalar
  decorators : ∀ d ∈ p.decorators, d.Valid

@[mk_iff]
inductive Says (p : PropertySpec) : PropertyKind → Prop
  | init {l : Literal} (kind : p.kind = .init) (value : p.value.Says l) : Says p (.init (.literal l))
  | method {l : Literal} (kind : p.kind = .method) (value : p.value.Says l) :
    Says p (.method (.constant p.name l.value))
  | getter {l : Literal} (kind : p.kind = .getter) (value : p.value.Says l) :
    Says p (.getter (.constant p.name l.value))
  | setter (kind : p.kind = .setter) : Says p (.setter (.constant p.name .null))

structure Becomes (p : PropertySpec) (x : LiteralProperty) : Prop where
  key : x.key = p.name
  kind : p.Says x.kind
  decorators : List.Forall₂ DecoratorSpec.Becomes p.decorators x.decorators

variable {p : PropertySpec} {kind : PropertyKind} {x : LiteralProperty}

theorem propertyKind_eq_ok : p.propertyKind = .ok kind ↔ p.Says kind := by
  unfold propertyKind
  cases hkind : p.kind with
  | init =>
    simp only [Except.map_eq_ok, Json.argument_eq_ok]
    simp [says_iff, hkind, eq_comm]
  | method =>
    rw [Except.map_eq_ok]
    simp [says_iff, hkind, Json.constantBody_eq_ok, eq_comm]
  | getter =>
    rw [Except.map_eq_ok]
    simp [says_iff, hkind, Json.constantBody_eq_ok, eq_comm]
  | setter => simp [says_iff, hkind, eq_comm]

theorem build_eq_ok_iff : p.build = .ok x ↔ p.Becomes x := by
  constructor
  · intro h
    obtain ⟨kind, hkind, h⟩ := Except.bind_eq_ok.mp h
    obtain ⟨decorators, hdecorators, h⟩ := Except.bind_eq_ok.mp h
    cases h
    exact ⟨rfl, propertyKind_eq_ok.mp hkind, DecoratorSpec.mapM_build_eq_ok.mp hdecorators⟩
  · obtain ⟨key, decorators, kind⟩ := x
    rintro ⟨rfl, hkind, hdecorators⟩
    refine Except.bind_eq_ok.mpr ⟨kind, propertyKind_eq_ok.mpr hkind, ?_⟩
    exact Except.bind_eq_ok.mpr ⟨decorators, DecoratorSpec.mapM_build_eq_ok.mpr hdecorators, rfl⟩

theorem exists_says_iff : (∃ kind, p.Says kind) ↔ ∀ j ∈ p.used, j.IsScalar := by
  simp only [← Json.exists_says_iff, says_iff]
  cases hkind : p.kind <;> simp [used, hkind]

theorem exists_becomes_iff : (∃ x, p.Becomes x) ↔ p.Valid := by
  constructor
  · rintro ⟨x, h⟩
    have hused := exists_says_iff.mp ⟨x.kind, h.kind⟩
    exact ⟨hused, DecoratorSpec.exists_forall₂_becomes_iff.mp ⟨_, h.decorators⟩⟩
  · intro h
    obtain ⟨kind, hkind⟩ := exists_says_iff.mpr h.used
    obtain ⟨decorators, hdecorators⟩ := DecoratorSpec.exists_forall₂_becomes_iff.mpr h.decorators
    exact ⟨{ key := p.name, decorators, kind }, rfl, hkind, hdecorators⟩

end PropertySpec

namespace ClassSpec

structure Valid (c : ClassSpec) : Prop where
  decorators : ∀ d ∈ c.decorators, d.Valid
  members : ∀ m ∈ c.members, m.Valid

structure Becomes (c : ClassSpec) (decl : ClassDecl) : Prop where
  name : decl.name = c.name
  decorators : List.Forall₂ DecoratorSpec.Becomes c.decorators decl.decorators
  elements : List.Forall₂ MemberSpec.Becomes c.members decl.elements

variable {c : ClassSpec} {decl : ClassDecl}

theorem build_eq_ok_iff : c.build = .ok decl ↔ c.Becomes decl := by
  have hmembers := @Except.mapM_eq_ok _ _ _ _ _ @MemberSpec.build_eq_ok_iff
  constructor
  · intro h
    obtain ⟨decorators, hdecorators, h⟩ := Except.bind_eq_ok.mp h
    obtain ⟨elements, helements, h⟩ := Except.bind_eq_ok.mp h
    cases h
    exact ⟨rfl, DecoratorSpec.mapM_build_eq_ok.mp hdecorators, hmembers.mp helements⟩
  · obtain ⟨name, decorators, elements⟩ := decl
    rintro ⟨rfl, hdecorators, helements⟩
    refine Except.bind_eq_ok.mpr ⟨decorators, DecoratorSpec.mapM_build_eq_ok.mpr hdecorators, ?_⟩
    exact Except.bind_eq_ok.mpr ⟨elements, hmembers.mpr helements, rfl⟩

theorem exists_becomes_iff : (∃ decl, c.Becomes decl) ↔ c.Valid := by
  constructor
  · rintro ⟨decl, h⟩
    have hmembers := exists_forall₂_iff.mp ⟨_, h.elements⟩
    exact ⟨DecoratorSpec.exists_forall₂_becomes_iff.mp ⟨_, h.decorators⟩,
      fun m hm => MemberSpec.exists_becomes_iff.mp (hmembers m hm)⟩
  · intro h
    obtain ⟨decorators, hdecorators⟩ := DecoratorSpec.exists_forall₂_becomes_iff.mpr h.decorators
    obtain ⟨elements, helements⟩ :=
      exists_forall₂_iff.mpr fun m hm => MemberSpec.exists_becomes_iff.mpr (h.members m hm)
    exact ⟨{ name := c.name, decorators, elements }, rfl, hdecorators, helements⟩

end ClassSpec

namespace ObjectSpec

def Valid (o : ObjectSpec) : Prop := ∀ p ∈ o.properties, p.Valid

def Becomes (o : ObjectSpec) (literal : ObjectLiteral) : Prop :=
  List.Forall₂ PropertySpec.Becomes o.properties literal.properties

variable {o : ObjectSpec} {literal : ObjectLiteral}

theorem build_eq_ok_iff : o.build = .ok literal ↔ o.Becomes literal := by
  have hproperties := @Except.mapM_eq_ok _ _ _ _ _ @PropertySpec.build_eq_ok_iff
  constructor
  · intro h
    obtain ⟨properties, hbuild, h⟩ := Except.bind_eq_ok.mp h
    cases h
    exact hproperties.mp hbuild
  · intro h
    exact Except.bind_eq_ok.mpr ⟨literal.properties, hproperties.mpr h, rfl⟩

theorem exists_becomes_iff : (∃ literal, o.Becomes literal) ↔ o.Valid := by
  constructor
  · rintro ⟨literal, h⟩ p hp
    exact PropertySpec.exists_becomes_iff.mp (exists_forall₂_iff.mp ⟨_, h⟩ p hp)
  · intro h
    obtain ⟨properties, hproperties⟩ :=
      exists_forall₂_iff.mpr fun p hp => PropertySpec.exists_becomes_iff.mpr (h p hp)
    exact ⟨{ properties }, hproperties⟩

end ObjectSpec

namespace DeclarationSpec

/-- A class or a literal is built exactly if it is valid, and then into what is written: the members and
the decorators correspond one to one. -/
theorem build_iff_valid :
    (∀ c : ClassSpec, ((∃ decl, c.build = .ok decl) ↔ c.Valid) ∧
      ∀ decl, c.build = .ok decl ↔ c.Becomes decl) ∧
    ∀ o : ObjectSpec, ((∃ literal, o.build = .ok literal) ↔ o.Valid) ∧
      ∀ literal, o.build = .ok literal ↔ o.Becomes literal := by
  constructor
  · intro c
    simp only [ClassSpec.build_eq_ok_iff, ClassSpec.exists_becomes_iff, implies_true, and_self]
  · intro o
    simp only [ObjectSpec.build_eq_ok_iff, ObjectSpec.exists_becomes_iff, implies_true, and_self]

end DeclarationSpec

end Decoration
