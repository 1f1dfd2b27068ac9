import Decoration.Manifest.Building
import Decoration.Proofs.Relocation.Engine

/-! What is built from a specification: paths and literals, and functions with fixed results. It means
the same in two environments that share the heads of its decorators. -/

namespace Decoration

variable {env env' : Environment}

theorem Except.exists_of_mem_mapM {ε α β : Type} {f : α → Except ε β} {list : List α} {results : List β}
    (h : list.mapM f = .ok results) : ∀ y ∈ results, ∃ x ∈ list, f x = .ok y := by
  induction list generalizing results with
  | nil =>
    cases h
    exact fun _ h => nomatch h
  | cons x rest ih =>
    rw [List.mapM_cons] at h
    obtain ⟨y, hy, h⟩ := Except.bind_eq_ok.mp h
    obtain ⟨ys, hys, h⟩ := Except.bind_eq_ok.mp h
    cases h
    refine List.forall_mem_cons.mpr ⟨⟨x, List.mem_cons_self, hy⟩, fun z hz => ?_⟩
    obtain ⟨x', hx', hz⟩ := ih hys z hz
    exact ⟨x', List.mem_cons_of_mem _ hx', hz⟩

namespace Json

theorem isLiteral_of_argument {json : Json} {x : Expr} (h : json.argument = .ok x) : x.IsLiteral := by
  unfold argument at h
  split at h
  · rename_i l _
    exact ⟨l, (Except.ok.inj h).symm⟩
  · exact nomatch h

theorem fixed_of_constantBody {name : String} {json : Json} {c : Capability}
    (h : constantBody name json = .ok c) : c.Fixed := by
  obtain ⟨v, hv, rfl⟩ := Except.map_eq_ok.mp h
  unfold result at hv
  split at hv
  · rename_i l _
    refine ⟨name, v, rfl, ?_⟩
    rw [← Except.ok.inj hv]
    exact l.primitive_value
  · exact nomatch hv

end Json

namespace Expr

theorem exists_literals {list : List Expr} (h : ∀ x ∈ list, x.IsLiteral) :
    ∃ literals : List Literal, list = literals.map literal := by
  induction list with
  | nil => exact ⟨[], rfl⟩
  | cons x rest ih =>
    obtain ⟨⟨l, rfl⟩, hrest⟩ := List.forall_mem_cons.mp h
    obtain ⟨literals, rfl⟩ := ih hrest
    exact ⟨l :: literals, rfl⟩

theorem segments_fst (cs : List Char) : (segments cs).1 = cs.takeWhile (· ≠ '.') := by
  induction cs with
  | nil => rfl
  | cons c rest ih =>
    rw [segments]
    by_cases hc : c = '.'
    · simp [hc]
    · simp [hc, ih]

theorem head?_path (s : String) : (path s).head? = some (String.ofList (s.toList.takeWhile (· ≠ '.'))) := by
  have hfold : ∀ (others : List (List Char)) (x : Expr),
      (others.foldl (fun object property => member object (String.ofList property)) x).head? =
        x.head? := by
    intro others
    induction others with
    | nil => exact fun _ => rfl
    | cons property others ih => exact fun x => ih _
  rw [path, ← segments_fst]
  exact hfold _ _

end Expr

namespace DecoratorSpec

def name : DecoratorSpec → String
  | bare name => name
  | call name _ => name

def head (d : DecoratorSpec) : String := String.ofList (d.name.toList.takeWhile (· ≠ '.'))

theorem shared_of_build {d : DecoratorSpec} {x : DecoratorExpr} (h : d.build = .ok x)
    (hhead : env.Shares env' d.head) : x.Shared env env' := by
  have hpath : ∀ s name, (Expr.path s).head? = some name →
      name = String.ofList (s.toList.takeWhile (· ≠ '.')) := by
    intro s name hname
    rw [Expr.head?_path] at hname
    exact (Option.some.inj hname).symm
  cases d with
  | bare s =>
    cases h
    refine ⟨fun name hname => ?_, [], rfl⟩
    rw [hpath s name hname]
    exact hhead
  | call s arguments =>
    obtain ⟨list, hlist, hx⟩ := Except.bind_eq_ok.mp h
    cases hx
    refine ⟨fun name hname => ?_, Expr.exists_literals fun x hx => ?_⟩
    · rw [hpath s name hname]
      exact hhead
    · obtain ⟨json, -, hjson⟩ := Except.exists_of_mem_mapM hlist x hx
      exact Json.isLiteral_of_argument hjson

theorem shared_of_mapM {list : List DecoratorSpec} {xs : List DecoratorExpr}
    (h : list.mapM build = .ok xs) (hheads : ∀ d ∈ list, env.Shares env' d.head) :
    ∀ x ∈ xs, x.Shared env env' := by
  intro x hx
  obtain ⟨d, hd, hbuild⟩ := Except.exists_of_mem_mapM h x hx
  exact shared_of_build hbuild (hheads d hd)

end DecoratorSpec

theorem MemberSpec.fixed_of_element {m : MemberSpec} {name : String} {isStatic : Bool}
    {decorators : List DecoratorExpr} {kind : ElementKind} (helement : m.element = .ok (name, kind)) :
    (⟨name, isStatic, decorators, kind⟩ : ClassElement).unit.shape.Fixed := by
  unfold element at helement
  split at helement
  · obtain ⟨c, hc, h⟩ := Except.bind_eq_ok.mp helement
    cases h
    exact Json.fixed_of_constantBody hc
  · obtain ⟨c, hc, h⟩ := Except.bind_eq_ok.mp helement
    cases h
    refine ⟨fun x hx => ?_, fun _ h => nomatch h⟩
    obtain rfl := Option.some.inj hx
    exact Json.fixed_of_constantBody hc
  · cases helement
    refine ⟨fun _ h => (nomatch h), fun x hx => ?_⟩
    obtain rfl := Option.some.inj hx
    exact ⟨_, .null, rfl, trivial⟩
  · obtain ⟨initializer, hinitializer, h⟩ := Except.bind_eq_ok.mp helement
    cases h
    intro x hx
    obtain rfl : initializer = some x := hx
    cases hvalue : m.value with
    | none =>
      rw [hvalue] at hinitializer
      exact nomatch hinitializer
    | some json =>
      rw [hvalue] at hinitializer
      obtain ⟨x', hx', h⟩ := Except.map_eq_ok.mp hinitializer
      cases h
      exact Json.isLiteral_of_argument hx'
  · exact nomatch helement

theorem MemberSpec.shared_of_build {m : MemberSpec} {e : ClassElement} (h : m.build = .ok e)
    (hheads : ∀ d ∈ m.decorators, env.Shares env' d.head) : e.Shared env env' := by
  obtain ⟨⟨name, kind⟩, helement, h⟩ := Except.bind_eq_ok.mp h
  obtain ⟨decorators, hdecorators, h⟩ := Except.bind_eq_ok.mp h
  cases h
  exact ⟨DecoratorSpec.shared_of_mapM hdecorators hheads, MemberSpec.fixed_of_element helement⟩

theorem PropertySpec.fixed_of_propertyKind {p : PropertySpec} {kind : PropertyKind}
    (hkind : p.propertyKind = .ok kind) : kind.Fixed := by
  unfold propertyKind at hkind
  split at hkind
  · obtain ⟨x, hx, rfl⟩ := Except.map_eq_ok.mp hkind
    exact Json.isLiteral_of_argument hx
  · obtain ⟨c, hc, rfl⟩ := Except.map_eq_ok.mp hkind
    exact Json.fixed_of_constantBody hc
  · obtain ⟨c, hc, rfl⟩ := Except.map_eq_ok.mp hkind
    exact Json.fixed_of_constantBody hc
  · cases hkind
    exact ⟨_, .null, rfl, trivial⟩

theorem PropertySpec.shared_of_build {p : PropertySpec} {x : LiteralProperty} (h : p.build = .ok x)
    (hheads : ∀ d ∈ p.decorators, env.Shares env' d.head) : x.Shared env env' := by
  obtain ⟨kind, hkind, h⟩ := Except.bind_eq_ok.mp h
  obtain ⟨decorators, hdecorators, h⟩ := Except.bind_eq_ok.mp h
  cases h
  exact ⟨DecoratorSpec.shared_of_mapM hdecorators hheads, p.fixed_of_propertyKind hkind⟩

namespace DeclarationSpec

def name : DeclarationSpec → String
  | classSpec spec => spec.name
  | objectSpec spec => spec.name

def decorators : DeclarationSpec → List DecoratorSpec
  | classSpec spec => spec.decorators ++ spec.members.flatMap (·.decorators)
  | objectSpec spec => spec.properties.flatMap (·.decorators)

theorem name_of_build {spec : DeclarationSpec} {d : Declaration} (h : spec.build = .ok d) :
    d.name = spec.name := by
  cases spec with
  | classSpec spec =>
    obtain ⟨decl, hdecl, rfl⟩ := Except.map_eq_ok.mp h
    obtain ⟨decorators, -, h⟩ := Except.bind_eq_ok.mp hdecl
    obtain ⟨elements, -, h⟩ := Except.bind_eq_ok.mp h
    cases h
    rfl
  | objectSpec spec =>
    obtain ⟨literal, -, rfl⟩ := Except.map_eq_ok.mp h
    rfl

theorem shared_of_build {spec : DeclarationSpec} {d : Declaration} (h : spec.build = .ok d)
    (hheads : ∀ x ∈ spec.decorators, env.Shares env' x.head) : d.Shared env env' := by
  cases spec with
  | classSpec spec =>
    obtain ⟨decl, hdecl, rfl⟩ := Except.map_eq_ok.mp h
    obtain ⟨decorators, hdecorators, h⟩ := Except.bind_eq_ok.mp hdecl
    obtain ⟨elements, helements, h⟩ := Except.bind_eq_ok.mp h
    cases h
    obtain ⟨hclass, hmembers⟩ := List.forall_mem_append.mp hheads
    refine ⟨DecoratorSpec.shared_of_mapM hdecorators hclass, fun e he => ?_⟩
    obtain ⟨m, hm, hbuild⟩ := Except.exists_of_mem_mapM helements e he
    exact m.shared_of_build hbuild fun x hx => hmembers x (List.mem_flatMap.mpr ⟨m, hm, hx⟩)
  | objectSpec spec =>
    obtain ⟨literal, hliteral, rfl⟩ := Except.map_eq_ok.mp h
    obtain ⟨properties, hproperties, h⟩ := Except.bind_eq_ok.mp hliteral
    cases h
    intro x hx
    obtain ⟨p, hp, hbuild⟩ := Except.exists_of_mem_mapM hproperties x hx
    exact p.shared_of_build hbuild fun y hy => hheads y (List.mem_flatMap.mpr ⟨p, hp, hy⟩)

end DeclarationSpec
end Decoration
