import Decoration.Proofs.Memoized

/-! What the tables keep, told from what has happened: a result is found if its call was answered since
the table was last cleared, and it is the answer of the original function. -/

namespace Decoration.Memoization

variable {σ : Type} {M : Memoization σ} {w w' w₀ : World σ} {h h' : Heap} {v wrapped wrapped' : Value}
  {c : Capability} {n : Nat} {q : Query} {x : Value} {past : List Entry} {memo : MemoId} {site : Nat}

def kept : List Entry → Query → Option Value
  | [], _ => none
  | .answered q x :: past, q' => if q' = q then some x else kept past q'
  | .failed _ :: past, q => kept past q
  | .cleared memo :: past, q => if q.memo = memo then none else kept past q

theorem answered_of_kept (hx : kept past q = some x) : q.Answered past := by
  induction past with
  | nil => exact nomatch hx
  | cons entry past ih =>
    have hskip : ∀ {e : Entry}, e ≠ .cleared q.memo → kept past q = some x → q.Answered (e :: past) := by
      intro e he hrest
      obtain ⟨result, later, earlier, rfl, hlater⟩ := ih hrest
      refine ⟨result, e :: later, earlier, rfl, fun hmem => ?_⟩
      rcases List.mem_cons.mp hmem with heq | hmem
      · exact he heq.symm
      · exact hlater hmem
    cases entry with
    | answered q' result =>
      by_cases hq : q = q'
      · subst hq
        exact ⟨result, [], past, rfl, List.not_mem_nil⟩
      · rw [kept, if_neg hq] at hx
        exact hskip (fun e => nomatch e) hx
    | failed q' => exact hskip (fun e => nomatch e) hx
    | cleared memo =>
      by_cases hmemo : q.memo = memo
      · rw [kept, if_pos hmemo] at hx
        exact nomatch hx
      · rw [kept, if_neg hmemo] at hx
        exact hskip (fun e => hmemo (Entry.cleared.inj e).symm) hx

theorem exists_kept_of_answered (answered : q.Answered past) : ∃ x, kept past q = some x := by
  obtain ⟨result, later, earlier, rfl, hlater⟩ := answered
  induction later with
  | nil => exact ⟨result, if_pos rfl⟩
  | cons entry later ih =>
    obtain ⟨hentry, hlater⟩ := not_or.mp (mt List.mem_cons.mpr hlater)
    obtain ⟨y, hy⟩ := ih hlater
    cases entry with
    | answered q' result' =>
      by_cases hq : q = q'
      · exact ⟨result', if_pos hq⟩
      · exact ⟨y, (if_neg hq).trans hy⟩
    | failed q' => exact ⟨y, hy⟩
    | cleared memo => exact ⟨y, (if_neg fun e => hentry (congrArg _ e)).trans hy⟩

theorem kept_of_cleared (hx : kept (.cleared memo :: past) q = some x) : kept past q = some x := by
  by_cases hmemo : q.memo = memo
  · rw [kept, if_pos hmemo] at hx
    exact nomatch hx
  · rwa [kept, if_neg hmemo] at hx

structure Sited (M : Memoization σ) (h : Heap) : Prop where
  bound : ∀ memo, M.tables memo → memo.index < h.memos.size
  layered : ∀ {v memo site wrapped}, M.IsSite h v memo site wrapped → ∃ c n, M.Layered h wrapped c n
  taken : ∀ {v memo site wrapped}, M.IsSite h v memo site wrapped → site < (h.memo memo).nextSite
  single : ∀ {v v' memo site wrapped wrapped'}, M.IsSite h v memo site wrapped →
    M.IsSite h v' memo site wrapped' → wrapped = wrapped'

/-- The tables keep what was answered and not forgotten since, and these are answers of the original
functions. -/
structure Sound (M : Memoization σ) (past : List Entry) (h : Heap) : Prop where
  sited : M.Sited h
  found : ∀ {q : Query}, M.tables q.memo → q.receiver.IsReceiver → q.find? h = kept past q
  taken : ∀ {q : Query} {x}, M.tables q.memo → q.receiver.IsReceiver → kept past q = some x →
    q.site < (h.memo q.memo).nextSite
  right : ∀ {q : Query} {v wrapped c n x}, M.IsSite h v q.memo q.site wrapped →
    q.receiver.IsReceiver → M.Layered h wrapped c n → kept past q = some x →
    M.answer c q.receiver q.arguments = .ok x

namespace Sited

theorem of_wraps (sited : M.Sited h)
    (bound : ∀ memo, M.tables memo → memo.index < h.memos.size → memo.index < h'.memos.size)
    (next : ∀ memo, M.tables memo → (h.memo memo).nextSite ≤ (h'.memo memo).nextSite)
    (keeps : h.KeepsFunctions h')
    (wraps : ∀ {v memo site wrapped}, M.IsSite h' v memo site wrapped → M.IsSite h v memo site wrapped) :
    M.Sited h' where
  bound memo hmemo := bound memo hmemo (sited.bound memo hmemo)
  layered hsite := by
    obtain ⟨c, n, hlayered⟩ := sited.layered (wraps hsite)
    exact ⟨c, n, hlayered.mono keeps⟩
  taken hsite := Nat.lt_of_lt_of_le (sited.taken (wraps hsite)) (next _ hsite.1)
  single hsite hsite' := sited.single (wraps hsite) (wraps hsite')

theorem aside (sited : M.Sited h) (aside : M.Aside h h') : M.Sited h' :=
  sited.of_wraps aside.bound (fun memo hmemo => by rw [aside.table memo hmemo]) aside.keeps aside.wraps

theorem isSite_setMemo_iff {m : Memo} {memo' : MemoId} :
    M.IsSite (h.setMemo memo m) v memo' site wrapped ↔ M.IsSite h v memo' site wrapped := by
  rw [IsSite, Heap.capability?_setMemo]
  rfl

theorem nextSite_setMemo (sited : M.Sited h) (hmemo : M.tables memo) {m : Memo}
    (next : m.nextSite = (h.memo memo).nextSite) (other : MemoId) :
    ((h.setMemo memo m).memo other).nextSite = (h.memo other).nextSite := by
  rw [Heap.memo_setMemo (sited.bound memo hmemo)]
  by_cases hother : other = memo
  · rw [if_pos hother, hother, next]
  · rw [if_neg hother]

theorem setMemo (sited : M.Sited h) (hmemo : M.tables memo) {m : Memo}
    (next : m.nextSite = (h.memo memo).nextSite) : M.Sited (h.setMemo memo m) :=
  sited.of_wraps (fun other _ hb => by rwa [Heap.size_memos_setMemo])
    (fun other _ => Nat.le_of_eq (sited.nextSite_setMemo hmemo next other).symm)
    (Heap.keepsFunctions_setMemo m) isSite_setMemo_iff.mp

theorem isSite_wrap {key : String} {memo' : MemoId}
    (hsite : M.IsSite ((memo.wrap key wrapped : Action σ Fault Value) w).world.heap v memo' site wrapped') :
    M.IsSite w.heap v memo' site wrapped' ∨
      memo' = memo ∧ site = (w.heap.memo memo').nextSite ∧ wrapped' = wrapped := by
  obtain ⟨htable, key', hfunction⟩ := hsite
  rw [MemoId.heap_wrap, Heap.capability?_function] at hfunction
  split at hfunction
  · obtain ⟨-, rfl, rfl, rfl⟩ := Capability.memoized.inj (Option.some.inj hfunction)
    exact .inr ⟨rfl, rfl, rfl⟩
  · rw [Heap.capability?_setMemo] at hfunction
    exact .inl ⟨htable, key', hfunction⟩

theorem memo_wrap (hb : memo.index < w.heap.memos.size) (key : String) (wrapped : Value)
    (other : MemoId) :
    ((memo.wrap key wrapped : Action σ Fault Value) w).world.heap.memo other =
      if other = memo then { w.heap.memo memo with nextSite := (w.heap.memo memo).nextSite + 1 }
      else w.heap.memo other := Heap.memo_setMemo hb _ other

theorem nextSite_le_wrap (hb : memo.index < w.heap.memos.size) (key : String) (wrapped : Value)
    (other : MemoId) : (w.heap.memo other).nextSite ≤
      (((memo.wrap key wrapped : Action σ Fault Value) w).world.heap.memo other).nextSite := by
  rw [memo_wrap hb]
  by_cases hother : other = memo
  · rw [if_pos hother, hother]
    exact Nat.le_succ _
  · rw [if_neg hother]

theorem wrap (sited : M.Sited w.heap) (hmemo : M.tables memo) (layered : M.Layered w.heap wrapped c n)
    (key : String) : M.Sited ((memo.wrap key wrapped : Action σ Fault Value) w).world.heap := by
  have hb := sited.bound memo hmemo
  have hkeeps := (Passes.wrapped (M := M) hmemo layered key).keeps
  have hnext : ((((memo.wrap key wrapped : Action σ Fault Value) w).world.heap.memo memo)).nextSite =
      (w.heap.memo memo).nextSite + 1 := by
    rw [memo_wrap hb, if_pos rfl]
  refine ⟨fun other hother => ?_, fun hsite => ?_, fun hsite => ?_, fun hsite hsite' => ?_⟩
  · exact (Array.size_setIfInBounds ..).symm ▸ sited.bound other hother
  · rcases isSite_wrap hsite with hold | ⟨rfl, rfl, rfl⟩
    · obtain ⟨c, n, hlayered⟩ := sited.layered hold
      exact ⟨c, n, hlayered.mono hkeeps⟩
    · exact ⟨c, n, layered.mono hkeeps⟩
  · rcases isSite_wrap hsite with hold | ⟨rfl, rfl, rfl⟩
    · exact Nat.lt_of_lt_of_le (sited.taken hold) (nextSite_le_wrap hb key wrapped _)
    · rw [hnext]
      exact Nat.lt_succ_self _
  · rcases isSite_wrap hsite with hold | ⟨-, hnumber, hwrapped⟩ <;>
      rcases isSite_wrap hsite' with hold' | ⟨-, hnumber', hwrapped'⟩
    · exact sited.single hold hold'
    -- An earlier site has a number below the one that is handed out now.
    · exact absurd hnumber' (Nat.ne_of_lt (sited.taken hold))
    · exact absurd hnumber (Nat.ne_of_lt (sited.taken hold'))
    · exact hwrapped.trans hwrapped'.symm

end Sited

theorem Fresh.sited (fresh : M.Fresh h) : M.Sited h where
  bound := fresh.bound
  layered hsite := absurd hsite (fresh.unused _ _ _ _)
  taken hsite := absurd hsite (fresh.unused _ _ _ _)
  single hsite := absurd hsite (fresh.unused _ _ _ _)

theorem Sited.layered_of_keeps (sited : M.Sited h) (keeps : h.KeepsFunctions h')
    (hsite : M.IsSite h v memo site wrapped) (layered : M.Layered h' wrapped c n) :
    M.Layered h wrapped c n := by
  obtain ⟨c', n', hlayered⟩ := sited.layered hsite
  obtain ⟨rfl, rfl⟩ := (hlayered.mono keeps).unique layered
  exact hlayered

namespace Sound

theorem of_fresh (fresh : M.Fresh h) : M.Sound [] h where
  sited := fresh.sited
  found hmemo _ := Memo.find?_of_empty (fresh.empty _ hmemo) _
  taken _ _ hx := nomatch hx
  right _ _ _ hx := nomatch hx

theorem of_kept_eq {past' : List Entry} (sound : M.Sound past h)
    (same : ∀ q : Query, M.tables q.memo → q.receiver.IsReceiver → kept past' q = kept past q) :
    M.Sound past' h where
  sited := sound.sited
  found hmemo hreceiver := (sound.found hmemo hreceiver).trans (same _ hmemo hreceiver).symm
  taken hmemo hreceiver hx := sound.taken hmemo hreceiver ((same _ hmemo hreceiver).symm.trans hx)
  right hsite hreceiver hlayered hx :=
    sound.right hsite hreceiver hlayered ((same _ hsite.1 hreceiver).symm.trans hx)

theorem of_results_eq (sound : M.Sound past h) (sited : M.Sited h') (keeps : h.KeepsFunctions h')
    (results : ∀ memo, M.tables memo → (h'.memo memo).results = (h.memo memo).results)
    (next : ∀ memo, M.tables memo → (h.memo memo).nextSite ≤ (h'.memo memo).nextSite)
    (wraps : ∀ {v memo site wrapped}, M.IsSite h' v memo site wrapped →
      (h.memo memo).nextSite ≤ site ∨ M.IsSite h v memo site wrapped) : M.Sound past h' where
  sited := sited
  found {q} hmemo hreceiver := by
    rw [← sound.found hmemo hreceiver, Query.find?, Query.find?, Memo.find?, Memo.find?,
      results _ hmemo, q.key_eq h' h]
  taken hmemo hreceiver hx := Nat.lt_of_lt_of_le (sound.taken hmemo hreceiver hx) (next _ hmemo)
  right hsite hreceiver hlayered hx := by
    rcases wraps hsite with hnew | hold
    · exact absurd (sound.taken hsite.1 hreceiver hx) (Nat.not_lt_of_le hnew)
    · exact sound.right hold hreceiver (sound.sited.layered_of_keeps keeps hold hlayered) hx

theorem aside (sound : M.Sound past h) (aside : M.Aside h h') : M.Sound past h' :=
  sound.of_results_eq (sound.sited.aside aside) aside.keeps
    (fun memo hmemo => by rw [aside.table memo hmemo])
    (fun memo hmemo => by rw [aside.table memo hmemo]) (fun hsite => .inr (aside.wraps hsite))

theorem wrap (sound : M.Sound past w.heap) (hmemo : M.tables memo)
    (layered : M.Layered w.heap wrapped c n) (key : String) :
    M.Sound past ((memo.wrap key wrapped : Action σ Fault Value) w).world.heap := by
  have hb := sound.sited.bound memo hmemo
  refine sound.of_results_eq (sound.sited.wrap hmemo layered key)
    (Passes.wrapped (M := M) hmemo layered key).keeps (fun other _ => ?_)
    (fun other _ => Sited.nextSite_le_wrap hb key wrapped other) (fun hsite => ?_)
  · rw [Sited.memo_wrap hb]
    by_cases hother : other = memo
    · rw [if_pos hother, hother]
    · rw [if_neg hother]
  · rcases Sited.isSite_wrap hsite with hold | ⟨-, hnumber, -⟩
    · exact .inr hold
    · exact .inl (Nat.le_of_eq hnumber.symm)

theorem clear (sound : M.Sound past h) (hmemo : M.tables memo) :
    M.Sound (.cleared memo :: past) (h.setMemo memo (h.memo memo).clear) where
  sited := sound.sited.setMemo hmemo rfl
  found {q} hq hreceiver := by
    rw [Query.find?, Heap.memo_setMemo (sound.sited.bound memo hmemo), kept]
    by_cases hsame : q.memo = memo
    · rw [if_pos hsame, if_pos hsame]
      exact Memo.find?_of_empty rfl _
    · rw [if_neg hsame, if_neg hsame, ← sound.found hq hreceiver, q.key_eq _ h, Query.find?]
  taken hq hreceiver hx := by
    rw [sound.sited.nextSite_setMemo (m := (h.memo memo).clear) hmemo rfl]
    exact sound.taken hq hreceiver (kept_of_cleared hx)
  right hsite hreceiver hlayered hx := by
    have hold := Sited.isSite_setMemo_iff.mp hsite
    have hlayered := sound.sited.layered_of_keeps (Heap.keepsFunctions_setMemo _) hold hlayered
    exact sound.right hold hreceiver hlayered (kept_of_cleared hx)

theorem recalled (sound : M.Sound past h) (hmemo : M.tables q.memo)
    (hreceiver : q.receiver.IsReceiver) (hx : q.find? h = some x) : M.Sound (.answered q x :: past) h := by
  refine sound.of_kept_eq fun q' _ _ => ?_
  rw [kept]
  by_cases hq : q' = q
  · rw [if_pos hq, hq, ← sound.found hmemo hreceiver, hx]
  · rw [if_neg hq]

theorem insert (sound : M.Sound past h) (hsite : M.IsSite h v q.memo q.site wrapped)
    (hreceiver : q.receiver.IsReceiver) (layered : M.Layered h wrapped c n)
    (answer : M.answer c q.receiver q.arguments = .ok x) :
    M.Sound (.answered q x :: past)
      (h.setMemo q.memo ((h.memo q.memo).insert (q.key h) x)) where
  sited := sound.sited.setMemo hsite.1 rfl
  found {q'} hmemo' hreceiver' := by
    rw [Query.find?, Heap.memo_setMemo (sound.sited.bound _ hsite.1), q'.key_eq _ h, kept]
    by_cases hsame : q'.memo = q.memo
    · rw [if_pos hsame, Memo.find?_insert]
      by_cases hq : q' = q
      · rw [if_pos hq, if_pos (congrArg (Query.key · h) hq)]
      · rw [if_neg hq, if_neg fun hkey => hq (Query.key_inj hsame hreceiver' hreceiver hkey), ← hsame]
        exact sound.found hmemo' hreceiver'
    · rw [if_neg hsame, if_neg fun hq => hsame (congrArg _ hq)]
      exact sound.found hmemo' hreceiver'
  taken {q' y} hmemo' hreceiver' hy := by
    rw [sound.sited.nextSite_setMemo (m := (h.memo q.memo).insert (q.key h) x) hsite.1 rfl]
    by_cases hq : q' = q
    · rw [hq]
      exact sound.sited.taken hsite
    · rw [kept, if_neg hq] at hy
      exact sound.taken hmemo' hreceiver' hy
  right {q' v' wrapped' c' n' y} hsite' hreceiver' hlayered' hy := by
    have hold := Sited.isSite_setMemo_iff.mp hsite'
    have hlayered := sound.sited.layered_of_keeps (Heap.keepsFunctions_setMemo _) hold hlayered'
    by_cases hq : q' = q
    · subst hq
      rw [kept, if_pos rfl] at hy
      -- All functions at a site wrap the same function, so the answer is that of the same original.
      obtain rfl := sound.sited.single hold hsite
      obtain ⟨rfl, -⟩ := hlayered.unique layered
      exact answer.trans (congrArg _ (Option.some.inj hy))
    · rw [kept, if_neg hq] at hy
      exact sound.right hold hreceiver' hlayered hy

end Sound
end Decoration.Memoization
