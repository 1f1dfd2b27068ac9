import Decoration.Expr
import Decoration.Object.Access

/-! Lexical environments, the decorators that a program finds in its own, and the evaluation of
expressions. -/

namespace Decoration

/-- The bindings of the scopes, innermost scope first and latest binding first. -/
structure Environment where
  scopes : List (List (String × Value)) := []
deriving DecidableEq, Repr, Inhabited

def libraryDecorators (memo : MemoId) : List Capability :=
  [.edit .readonly, .edit .nonenumerable, .edit .enumerable, .edit .nonconfigurable,
    .edit .provide, .edit (.memoize memo), .edit .deprecated, .mark .annotated, .mark .isTestable]

namespace Environment

def child (env : Environment) : Environment := ⟨[] :: env.scopes⟩

def bind (env : Environment) (name : String) (value : Value) : Environment :=
  match env.scopes with
  | [] => ⟨[[(name, value)]]⟩
  | scope :: outer => ⟨((name, value) :: scope) :: outer⟩

def lookup? (env : Environment) (name : String) : Option Value :=
  env.scopes.findSome? (·.lookup name)

theorem exists_mem_of_lookup? {env : Environment} {name : String} {v : Value}
    (h : env.lookup? name = some v) : ∃ scope ∈ env.scopes, (name, v) ∈ scope := by
  obtain ⟨scope, hscope, h⟩ := List.exists_of_findSome?_eq_some h
  obtain ⟨before, after, rfl, -⟩ := List.lookup_eq_some_iff.mp h
  exact ⟨_, hscope, by simp⟩

theorem lookup?_bind (env : Environment) (name other : String) (value : Value) :
    (env.bind name value).lookup? other = if other = name then some value else env.lookup? other := by
  have hlookup : ∀ scope : List (String × Value), ((name, value) :: scope).lookup other =
      if other = name then some value else scope.lookup other := by
    intro scope
    by_cases h : other = name
    · rw [if_pos h, List.lookup_cons, beq_iff_eq.mpr h]
    · rw [if_neg h, List.lookup_cons, beq_false_of_ne h]
  obtain ⟨_ | ⟨scope, outer⟩⟩ := env
  · change List.findSome? (·.lookup other) [[(name, value)]] = _
    rw [List.findSome?_cons, hlookup]
    by_cases h : other = name <;> simp [h, lookup?]
  · change List.findSome? (·.lookup other) (((name, value) :: scope) :: outer) = _
    rw [List.findSome?_cons, hlookup]
    by_cases h : other = name <;> simp [h, lookup?, List.findSome?_cons]

theorem tail_bind (env : Environment) (name : String) (value : Value) :
    (env.bind name value).scopes.tail = env.scopes.tail := by
  rcases env with ⟨_ | ⟨scope, outer⟩⟩ <;> rfl

def bindFunctions : List Capability → Environment → Heap → Environment × Heap
  | [], env, h => (env, h)
  | c :: rest, env, h =>
    let (function, h) := h.addObject { kind := .function c }
    bindFunctions rest (env.bind c.name (.object function)) h

def withLibrary (env : Environment) (h : Heap) : Environment × Heap :=
  let (memo, h) := h.addMemo
  bindFunctions (libraryDecorators memo) env h

end Environment

def Literal.value : Literal → Value
  | undefined => .undefined
  | null => .null
  | bool value => .bool value
  | number value => .number value
  | string value => .string value

variable {σ : Type}

def Expr.evaluate (caller : Caller σ) (env : Environment) : Expr → Action σ Fault Value
  | literal value => pure value.value
  | identifier name =>
    match env.lookup? name with
    | some value => pure value
    | none => Action.fail (.reference (.unbound name))
  | member object property => do
    match ← object.evaluate caller env with
    | .object id => id.get caller property
    | other =>
      let h ← Action.heap
      Action.fail (.type (.noMembers (h.display other) property))

end Decoration
