import Decoration.Capability.Response
import Decoration.Proofs.Growth
import Decoration.Proofs.Text.Arguments

/-! Functions wrapped through memo tables: what is known of the functions that are wrapped, and what may
happen to the tables in the course of time. -/

namespace Decoration

variable {σ ε α : Type}

def Outcome.ofExcept : Except ε α → Outcome ε α
  | .ok a => .ok a
  | .error e => .failed e

def Value.IsReceiver (v : Value) : Prop := v = .undefined ∨ ∃ id, v = .object id

/-- A layer of memoization through one of the tables, or of deprecation, around a function. -/
inductive Capability.Wraps (tables : MemoId → Prop) : Capability → Value → Prop
  | memoized {key : String} {memo : MemoId} {site : Nat} {wrapped : Value} (table : tables memo) :
    Wraps tables (.memoized key memo site wrapped) wrapped
  | deprecated {key message : String} {wrapped : Value} :
    Wraps tables (.deprecated key message wrapped) wrapped

/-- The original functions that are wrapped through some tables. The answer of each follows from the
receiver and the arguments, and it is given whenever calls may be nested as deep as it needs. -/
structure Memoization (σ : Type) where
  host : Host σ
  tables : MemoId → Prop
  original : Capability → Prop
  plain : ∀ {c wrapped}, original c → ¬ c.Wraps tables wrapped
  answer : Capability → Value → List Value → Except Fault Value
  need : Capability → Value → List Value → Nat

namespace Memoization

structure Query where
  memo : MemoId
  site : Nat
  receiver : Value
  arguments : List Value
deriving DecidableEq, Repr

inductive Entry where
  | answered (query : Query) (result : Value)
  | failed (query : Query)
  | cleared (memo : MemoId)
deriving DecidableEq, Repr

def Entry.of (q : Query) : Except Fault Value → Entry
  | .ok result => .answered q result
  | .error _ => .failed q

namespace Query

def key (q : Query) (h : Heap) : MemoKey :=
  ⟨q.site, Memo.receiverNumber q.receiver, Memo.argumentsText h q.arguments⟩

def find? (q : Query) (h : Heap) : Option Value := (h.memo q.memo).find? (q.key h)

/-- Among some entries, latest first, the call was answered and its table has not been cleared since. -/
def Answered (q : Query) (past : List Entry) : Prop :=
  ∃ result later earlier, past = later ++ .answered q result :: earlier ∧ .cleared q.memo ∉ later

def compute (q : Query) (caller : Caller σ) (wrapped : Value) : Action σ Fault Value := do
  let key := q.key (← Action.heap)
  let result ← wrapped.call caller q.receiver q.arguments
  Action.modifyHeap fun h => h.setMemo q.memo ((h.memo q.memo).insert key result)
  return result

end Query

variable (M : Memoization σ)

def IsSite (h : Heap) (v : Value) (memo : MemoId) (site : Nat) (wrapped : Value) : Prop :=
  M.tables memo ∧ ∃ key, h.capability? v = some (.memoized key memo site wrapped)

inductive Layered (h : Heap) : Value → Capability → Nat → Prop
  | original {v : Value} {c : Capability} (function : h.capability? v = some c)
    (original : M.original c) : Layered h v c 0
  | layer {v wrapped : Value} {outer c : Capability} {n : Nat} (function : h.capability? v = some outer)
    (wraps : outer.Wraps M.tables wrapped) (within : Layered h wrapped c n) : Layered h v c (n + 1)

structure Fresh (h : Heap) : Prop where
  bound : ∀ memo, M.tables memo → memo.index < h.memos.size
  empty : ∀ memo, M.tables memo → (h.memo memo).results = []
  unused : ∀ v memo site wrapped, ¬ M.IsSite h v memo site wrapped

structure Aside (h h' : Heap) : Prop where
  bound : ∀ memo, M.tables memo → memo.index < h.memos.size → memo.index < h'.memos.size
  table : ∀ memo, M.tables memo → h'.memo memo = h.memo memo
  keeps : h.KeepsFunctions h'
  wraps : ∀ {v memo site wrapped}, M.IsSite h' v memo site wrapped → M.IsSite h v memo site wrapped

/-- What may happen from one world to another: functions are wrapped through the tables and called, also
by each other, results are forgotten, and other things happen that have nothing to do with it. The
entries are listed latest first. -/
inductive Passes : World σ → List Entry → World σ → Prop
  | still {w : World σ} : Passes w [] w
  | trans {w w' w'' : World σ} {earlier later : List Entry} (first : Passes w earlier w')
    (second : Passes w' later w'') : Passes w (later ++ earlier) w''
  | aside {w w' : World σ} (aside : M.Aside w.heap w'.heap) : Passes w [] w'
  | wrapped {w : World σ} {memo : MemoId} {wrapped : Value} {c : Capability} {n : Nat}
    (table : M.tables memo) (layered : M.Layered w.heap wrapped c n) (key : String) :
    Passes w [] ((memo.wrap key wrapped : Action σ Fault Value) w).world
  | cleared {w : World σ} {memo : MemoId} (table : M.tables memo) :
    Passes w [.cleared memo] { w with heap := w.heap.setMemo memo (w.heap.memo memo).clear }
  | recalled {w : World σ} {v wrapped result : Value} {q : Query}
    (site : M.IsSite w.heap v q.memo q.site wrapped) (isReceiver : q.receiver.IsReceiver)
    (found : q.find? w.heap = some result) : Passes w [.answered q result] w
  | answered {w : World σ} {v wrapped result : Value} {q : Query} {c : Capability} {n depth : Nat}
    {log : List Entry} (site : M.IsSite w.heap v q.memo q.site wrapped)
    (isReceiver : q.receiver.IsReceiver) (layered : M.Layered w.heap wrapped c n)
    (deep : M.need c q.receiver q.arguments + n ≤ depth)
    (within : Passes w log (wrapped.call (.nested M.host depth) q.receiver q.arguments w).world)
    (answer : (wrapped.call (.nested M.host depth) q.receiver q.arguments w).outcome = .ok result) :
    Passes w (.answered q result :: log) (q.compute (.nested M.host depth) wrapped w).world
  | failed {w : World σ} {v wrapped : Value} {q : Query} {depth : Nat} {log : List Entry}
    (site : M.IsSite w.heap v q.memo q.site wrapped)
    (within : Passes w log (wrapped.call (.nested M.host depth) q.receiver q.arguments w).world)
    (failure : ∀ result,
      (wrapped.call (.nested M.host depth) q.receiver q.arguments w).outcome ≠ .ok result) :
    Passes w (.failed q :: log) (q.compute (.nested M.host depth) wrapped w).world

/-- Whatever has happened since the first world, each original function gives its answer, and what it
does in between is among what may happen. -/
structure Pure (w₀ : World σ) : Prop where
  outcome : ∀ {past w c receiver arguments depth}, M.Passes w₀ past w → M.original c →
    receiver.IsReceiver → M.need c receiver arguments ≤ depth →
    (Caller.nested M.host depth c (.call receiver) arguments w).outcome =
      .ofExcept (M.answer c receiver arguments)
  passes : ∀ {past w c receiver arguments depth}, M.Passes w₀ past w → M.original c →
    receiver.IsReceiver → M.need c receiver arguments ≤ depth →
    ∃ log, M.Passes w log (Caller.nested M.host depth c (.call receiver) arguments w).world

end Memoization

theorem Value.IsReceiver.receiverNumber_inj {r r' : Value} (hr : r.IsReceiver) (hr' : r'.IsReceiver)
    (h : Memo.receiverNumber r = Memo.receiverNumber r') : r = r' := by
  rcases hr with rfl | ⟨id, rfl⟩ <;> rcases hr' with rfl | ⟨id', rfl⟩
  · rfl
  · exact absurd h (Nat.ne_of_lt id'.number_pos)
  · exact absurd h.symm (Nat.ne_of_lt id.number_pos)
  · exact congrArg Value.object (ObjectId.number_injective h)

theorem Capability.Wraps.unique {tables : MemoId → Prop} {c : Capability} {v v' : Value}
    (h : c.Wraps tables v) (h' : c.Wraps tables v') : v = v' := by
  cases h <;> cases h' <;> rfl

theorem Value.call_of_capability? {caller : Caller σ} {v r : Value} {a : List Value} {c : Capability}
    {w : World σ} (h : w.heap.capability? v = some c) :
    v.call caller r a w = caller c (.call r) a w := by
  have hheap : ∀ f : Heap → Action σ Fault Value, (Action.heap >>= f) w = f w.heap w := fun _ => rfl
  rw [Value.call, hheap, h]

namespace Memo

theorem find?_insert (m : Memo) (key other : MemoKey) (result : Value) :
    (m.insert key result).find? other = if other = key then some result else m.find? other := by
  by_cases h : other = key
  · rw [find?, insert, h, List.lookup_cons_self, if_pos rfl]
  · rw [find?, insert, List.lookup_cons, beq_eq_false_iff_ne.mpr h, if_neg h, find?]
    dsimp only
    -- An entry that was dropped had another key.
    induction m.results with
    | nil => rfl
    | cons entry rest ih =>
      obtain ⟨k, x⟩ := entry
      by_cases hk : k = key
      · have hother : (other == k) = false := beq_eq_false_iff_ne.mpr (hk ▸ h)
        rw [List.filter_cons_of_neg (by simpa using hk), ih, List.lookup_cons, hother]
      · rw [List.filter_cons_of_pos (by simpa using hk), List.lookup_cons, List.lookup_cons, ih]

theorem find?_of_empty {m : Memo} (h : m.results = []) (key : MemoKey) : m.find? key = none := by
  rw [find?, h, List.lookup_nil]

end Memo

namespace Heap

variable {h : Heap} {memo : MemoId}

theorem memo_setMemo (hb : memo.index < h.memos.size) (m : Memo) (other : MemoId) :
    (h.setMemo memo m).memo other = if other = memo then m else h.memo other := by
  by_cases he : other = memo
  · simp [Heap.memo, Heap.setMemo, he, hb]
  · have hne : memo.index ≠ other.index := fun e => he (by cases memo; cases other; simp_all)
    simp [Heap.memo, Heap.setMemo, he, hne]

@[simp] theorem size_memos_setMemo (m : Memo) : (h.setMemo memo m).memos.size = h.memos.size :=
  Array.size_setIfInBounds

@[simp] theorem capability?_setMemo (m : Memo) (v : Value) :
    (h.setMemo memo m).capability? v = h.capability? v := by
  cases v <;> rfl

theorem keepsFunctions_setMemo (m : Memo) : h.KeepsFunctions (h.setMemo memo m) :=
  fun v _ hc => (capability?_setMemo m v).trans hc

theorem capability?_function (h : Heap) (c : Capability) (v : Value) :
    (h.addObject { kind := .function c }).2.capability? v =
      if v = .object ⟨h.objects.size⟩ then some c else h.capability? v := by
  cases v with
  | object id =>
    rw [capability?, object_addObject, addObject]
    by_cases hid : id = ⟨h.objects.size⟩
    · rw [if_pos hid, if_pos (congrArg _ hid)]
      rfl
    · rw [if_neg hid, if_neg fun e => hid (Value.object.inj e)]
      rfl
  | _ => rfl

end Heap

theorem MemoId.heap_wrap (memo : MemoId) (key : String) (wrapped : Value) (w : World σ) :
    ((memo.wrap key wrapped : Action σ ε Value) w).world.heap =
      ((w.heap.setMemo memo
        { w.heap.memo memo with nextSite := (w.heap.memo memo).nextSite + 1 }).addObject
          { kind := .function (.memoized key memo (w.heap.memo memo).nextSite wrapped) }).2 := rfl

namespace Memoization

namespace Query

variable {q q' : Query} {caller : Caller σ} {wrapped x : Value} {w : World σ}

theorem key_eq (q : Query) (h h' : Heap) : q.key h = q.key h' :=
  congrArg (MemoKey.mk q.site (Memo.receiverNumber q.receiver)) (Memo.argumentsText_eq h h' q.arguments)

theorem key_inj {h : Heap} (hmemo : q.memo = q'.memo) (hq : q.receiver.IsReceiver)
    (hq' : q'.receiver.IsReceiver) (hkey : q.key h = q'.key h) : q = q' := by
  obtain ⟨hsite, hreceiver, harguments⟩ := MemoKey.mk.inj hkey
  have hr := hq.receiverNumber_inj hq' hreceiver
  have ha := Memo.argumentsText_injective h harguments
  cases q
  cases q'
  exact (Query.mk.injEq ..).mpr ⟨hmemo, hsite, hr, ha⟩

theorem call_eq (q : Query) (caller : Caller σ) (wrapped : Value) (w : World σ) :
    q.memo.call caller q.site wrapped q.receiver q.arguments w =
      match q.find? w.heap with
      | some result => ⟨.ok result, w, []⟩
      | none => q.compute caller wrapped w := by
  change (match q.find? w.heap with
    | some result => pure result
    | none => _ : Action σ Fault Value) w = _
  cases q.find? w.heap <;> rfl

theorem compute_of_ok (h : (wrapped.call caller q.receiver q.arguments w).outcome = .ok x) :
    (q.compute caller wrapped w).outcome = .ok x ∧
      (q.compute caller wrapped w).world.heap =
        (wrapped.call caller q.receiver q.arguments w).world.heap.setMemo q.memo
          (((wrapped.call caller q.receiver q.arguments w).world.heap.memo q.memo).insert
            (q.key w.heap) x) := by
  change (Action.bind (wrapped.call caller q.receiver q.arguments) _ w).outcome = _ ∧
    (Action.bind (wrapped.call caller q.receiver q.arguments) _ w).world.heap = _
  unfold Action.bind
  generalize wrapped.call caller q.receiver q.arguments w = r at h ⊢
  obtain ⟨outcome, w', events⟩ := r
  obtain rfl : outcome = .ok x := h
  exact ⟨rfl, rfl⟩

theorem compute_of_ne
    (h : ∀ x, (wrapped.call caller q.receiver q.arguments w).outcome ≠ .ok x) :
    (q.compute caller wrapped w).outcome = (wrapped.call caller q.receiver q.arguments w).outcome ∧
      (q.compute caller wrapped w).world = (wrapped.call caller q.receiver q.arguments w).world := by
  change (Action.bind (wrapped.call caller q.receiver q.arguments) _ w).outcome = _ ∧
    (Action.bind (wrapped.call caller q.receiver q.arguments) _ w).world = _
  unfold Action.bind
  generalize wrapped.call caller q.receiver q.arguments w = r at h ⊢
  rcases r with ⟨a | e | _, w', events⟩
  · exact absurd rfl (h a)
  · exact ⟨rfl, rfl⟩
  · exact ⟨rfl, rfl⟩

end Query

variable {M : Memoization σ} {h h' : Heap} {v wrapped wrapped' : Value} {c c' : Capability} {n n' : Nat}
  {memo : MemoId} {site : Nat}

theorem Layered.mono (keeps : h.KeepsFunctions h') (layered : M.Layered h v c n) :
    M.Layered h' v c n := by
  induction layered with
  | original function original => exact .original (keeps _ _ function) original
  | layer function wraps _ ih => exact .layer (keeps _ _ function) wraps ih

theorem Layered.unique (layered : M.Layered h v c n) (layered' : M.Layered h v c' n') :
    c = c' ∧ n = n' := by
  induction layered generalizing n' with
  | original function original =>
    cases layered' with
    | original function' _ => exact ⟨Option.some.inj (function.symm.trans function'), rfl⟩
    | layer function' wraps' _ =>
      obtain rfl := Option.some.inj (function.symm.trans function')
      exact absurd wraps' (M.plain original)
  | layer function wraps _ ih =>
    cases layered' with
    | original function' original' =>
      obtain rfl := Option.some.inj (function.symm.trans function')
      exact absurd wraps (M.plain original')
    | layer function' wraps' within' =>
      obtain rfl := Option.some.inj (function.symm.trans function')
      obtain rfl := wraps.unique wraps'
      obtain ⟨hc, hn⟩ := ih within'
      exact ⟨hc, congrArg (· + 1) hn⟩

theorem Layered.within (layered : M.Layered h v c n) (hsite : M.IsSite h v memo site wrapped) :
    ∃ m, n = m + 1 ∧ M.Layered h wrapped c m := by
  obtain ⟨htable, key, hfunction⟩ := hsite
  cases layered with
  | original function original =>
    obtain rfl := Option.some.inj (function.symm.trans hfunction)
    exact absurd (.memoized htable) (M.plain original)
  | layer function wraps within =>
    obtain rfl := Option.some.inj (function.symm.trans hfunction)
    obtain rfl := wraps.unique (.memoized htable)
    exact ⟨_, rfl, within⟩

theorem IsSite.mono (keeps : h.KeepsFunctions h') (hsite : M.IsSite h v memo site wrapped) :
    M.IsSite h' v memo site wrapped :=
  ⟨hsite.1, hsite.2.imp fun _ => keeps _ _⟩

theorem Passes.keeps {w w' : World σ} {log : List Entry} (passes : M.Passes w log w') :
    w.heap.KeepsFunctions w'.heap := by
  induction passes with
  | still | recalled => exact .refl _
  | trans _ _ ih ih' => exact ih.trans ih'
  | aside aside => exact aside.keeps
  | wrapped =>
    rw [MemoId.heap_wrap]
    exact (Heap.keepsFunctions_setMemo _).trans (Heap.grows_addObject _ _).keepsFunctions
  | cleared => exact Heap.keepsFunctions_setMemo _
  | answered _ _ _ _ _ answer ih =>
    rw [(Query.compute_of_ok answer).2]
    exact ih.trans (Heap.keepsFunctions_setMemo _)
  | failed _ _ failure ih =>
    rw [(Query.compute_of_ne failure).2]
    exact ih

end Memoization
end Decoration
