import Decoration.Proofs.Memoized

/-! Members that are memoized or deprecated: their functions come to lie under one more layer. -/

namespace Decoration

def Descriptor.function? : Descriptor → Option Value
  | .data value .. => some value
  | .accessor getter .. => getter

namespace Memoization

variable {σ : Type} {M : Memoization σ} {w : World σ} {v : Value} {c : Capability} {n : Nat}

theorem Layered.wrap {memo : MemoId} (layered : M.Layered w.heap v c n) (table : M.tables memo)
    (key : String) : ∃ v' w', (memo.wrap key v : Action σ Fault Value).Yields w v' w' ∧
      M.Layered w'.heap v' c (n + 1) ∧ M.Passes w [] w' := by
  have hpasses := Passes.wrapped table layered key
  refine ⟨.object ⟨w.heap.objects.size⟩, _, ⟨rfl, rfl⟩, ?_, hpasses⟩
  have hfunction := Heap.capability?_addObject (w.heap.setMemo memo
    { w.heap.memo memo with nextSite := (w.heap.memo memo).nextSite + 1 })
    (.memoized key memo (w.heap.memo memo).nextSite v)
  exact .layer hfunction (.memoized table) (layered.mono hpasses.keeps)

theorem Layered.isCallable {h : Heap} (layered : M.Layered h v c n) : h.isCallable v = true := by
  cases layered with
  | original function _ | layer function _ _ => rw [Heap.isCallable, function, Option.isSome_some]

theorem Layered.memoize {memo : MemoId} {d : Descriptor} (layered : M.Layered w.heap v c n)
    (table : M.tables memo) (hd : d.function? = some v) (key : String) (extra : List Value) :
    ∃ d' v' w', ((Edit.memoize memo).apply key extra d : Action σ Fault Descriptor).Yields w d' w' ∧
      d'.function? = some v' ∧ M.Layered w'.heap v' c (n + 1) ∧ M.Passes w [] w' := by
  obtain ⟨v', w', hyields, hlayered, hpasses⟩ := layered.wrap table key
  cases d with
  | data value writable enumerable configurable =>
    obtain rfl := Option.some.inj hd
    refine ⟨.data v' writable enumerable configurable, v', w', ?_, rfl, hlayered, hpasses⟩
    rw [Edit.apply, Edit.wrapMemoized, Action.yields_heap_bind]
    dsimp only
    rw [if_pos layered.isCallable, Action.yields_bind]
    exact ⟨v', w', hyields, Action.yields_pure.mpr ⟨rfl, rfl⟩⟩
  | accessor getter setter enumerable configurable =>
    obtain rfl : getter = some v := hd
    refine ⟨.accessor (some v') setter enumerable configurable, v', w', ?_, rfl, hlayered, hpasses⟩
    rw [Edit.apply, Edit.wrapMemoized, Action.yields_heap_bind]
    dsimp only
    rw [Action.yields_bind]
    exact ⟨v', w', hyields, Action.yields_pure.mpr ⟨rfl, rfl⟩⟩

theorem Aside.function {h : Heap} (hc : ∀ key memo site wrapped, c ≠ .memoized key memo site wrapped) :
    M.Aside h (h.addObject { kind := .function c }).2 where
  bound _ _ hb := hb
  table _ _ := rfl
  keeps := (Heap.grows_addObject h _).keepsFunctions
  wraps {v memo site wrapped} hsite := by
    obtain ⟨htable, key, hfunction⟩ := hsite
    rw [Heap.capability?_function] at hfunction
    split at hfunction
    · exact absurd (Option.some.inj hfunction) (hc key memo site wrapped)
    · exact ⟨htable, key, hfunction⟩

theorem Layered.deprecate (layered : M.Layered w.heap v c n) (writable enumerable configurable : Bool)
    (key : String) (extra : List Value) :
    ∃ v' w', (Edit.deprecated.apply key extra (.data v writable enumerable configurable) :
        Action σ Fault Descriptor).Yields w (.data v' writable enumerable configurable) w' ∧
      M.Layered w'.heap v' c (n + 1) ∧ M.Passes w [] w' := by
  let message := (extra.head?.bind Value.string?).getD Edit.defaultDeprecation
  obtain ⟨f, w', hyields⟩ := (Capability.deprecated key message v).exists_yields_function w
  have haside : M.Aside w.heap w'.heap := by
    obtain ⟨-, rfl⟩ := Action.yields_onHeap.mp hyields
    exact .function fun _ _ _ _ h => nomatch h
  refine ⟨.object f, w', ?_, ?_, .aside haside⟩
  · rw [Edit.apply, Edit.wrapDeprecated, Action.yields_heap_bind]
    dsimp only
    rw [if_pos layered.isCallable, Action.yields_bind]
    exact ⟨f, w', hyields, Action.yields_pure.mpr ⟨rfl, rfl⟩⟩
  · exact .layer (Capability.capability?_of_yields hyields) .deprecated (layered.mono haside.keeps)

end Memoization
end Decoration
