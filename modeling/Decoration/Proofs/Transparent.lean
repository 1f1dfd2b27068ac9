import Decoration.Proofs.Memoized.Layer
import Decoration.Proofs.Memoized.Sound

/-! Memoization is transparent: under layers of memoization and deprecation every call gives the answer
of the original function, and runs it only if the table has no result. -/

namespace Decoration.Memoization

variable {σ : Type} {M : Memoization σ} {w w' w₀ : World σ} {v wrapped receiver : Value}
  {arguments : List Value} {c : Capability} {n depth : Nat} {q : Query} {past log : List Entry}

theorem Sound.call (sound : M.Sound past w.heap) (hsite : M.IsSite w.heap v q.memo q.site wrapped)
    (hreceiver : q.receiver.IsReceiver) (layered : M.Layered w.heap wrapped c n)
    (deep : M.need c q.receiver q.arguments + n ≤ depth)
    (outcome : (wrapped.call (.nested M.host depth) q.receiver q.arguments w).outcome =
      .ofExcept (M.answer c q.receiver q.arguments))
    (within : M.Passes w log (wrapped.call (.nested M.host depth) q.receiver q.arguments w).world) :
    (q.memo.call (.nested M.host depth) q.site wrapped q.receiver q.arguments w).outcome =
        .ofExcept (M.answer c q.receiver q.arguments) ∧
      ∃ log, M.Passes w (.of q (M.answer c q.receiver q.arguments) :: log)
        (q.memo.call (.nested M.host depth) q.site wrapped q.receiver q.arguments w).world := by
  rw [Query.call_eq]
  cases hfound : q.find? w.heap with
  | some x =>
    have hx := (sound.found hsite.1 hreceiver).symm.trans hfound
    rw [sound.right hsite hreceiver layered hx]
    exact ⟨rfl, [], .recalled hsite hreceiver hfound⟩
  | none =>
    cases hanswer : M.answer c q.receiver q.arguments with
    | ok x =>
      rw [hanswer] at outcome
      exact ⟨(Query.compute_of_ok outcome).1, log, .answered hsite hreceiver layered deep within outcome⟩
    | error e =>
      rw [hanswer] at outcome
      have hne : ∀ x, (wrapped.call (.nested M.host depth) q.receiver q.arguments w).outcome ≠ .ok x :=
        fun x hx => nomatch outcome.symm.trans hx
      exact ⟨(Query.compute_of_ne hne).1.trans outcome, log, .failed hsite within hne⟩

theorem Layered.call (layered : M.Layered w.heap v c n) (pure : M.Pure w₀) (passes : M.Passes w₀ past w)
    (sound : M.Sound past w.heap) (hreceiver : receiver.IsReceiver)
    (deep : M.need c receiver arguments + n ≤ depth) :
    (v.call (.nested M.host depth) receiver arguments w).outcome =
        .ofExcept (M.answer c receiver arguments) ∧
      ∃ log, M.Passes w log (v.call (.nested M.host depth) receiver arguments w).world := by
  -- On the layers: each passes the call on to the function within, with one call less to nest.
  induction layered generalizing depth with
  | original function original =>
    rw [Value.call_of_capability? function]
    exact ⟨pure.outcome passes original hreceiver deep, pure.passes passes original hreceiver deep⟩
  | @layer v wrapped outer c n function wraps within ih =>
    cases depth with
    | zero => exact absurd deep (Nat.not_le_of_lt (Nat.succ_pos _))
    | succ depth =>
      obtain ⟨houtcome, log, hlog⟩ := ih (Nat.le_of_succ_le_succ deep)
      rw [Value.call_of_capability? function]
      cases wraps with
      | @memoized key memo site wrapped table =>
        obtain ⟨hcall, log', hlog'⟩ := sound.call (q := ⟨memo, site, receiver, arguments⟩)
          ⟨table, key, function⟩ hreceiver within (Nat.le_of_succ_le_succ deep) houtcome hlog
        exact ⟨hcall, _, hlog'⟩
      | deprecated => exact ⟨houtcome, log, hlog⟩

theorem Passes.sound (passes : M.Passes w log w') (pure : M.Pure w₀) (before : M.Passes w₀ past w)
    (sound : M.Sound past w.heap) : M.Sound (log ++ past) w'.heap := by
  -- On what happened: what a step does to the tables is what its entries tell of it.
  induction passes generalizing past with
  | still => exact sound
  | trans first _ ih ih' =>
    rw [List.append_assoc]
    exact ih' (before.trans first) (ih before sound)
  | aside aside => exact sound.aside aside
  | wrapped table layered key => exact sound.wrap table layered key
  | cleared table => exact sound.clear table
  | recalled hsite hreceiver found => exact sound.recalled hsite.1 hreceiver found
  | @answered w v wrapped x q c n depth log hsite hreceiver layered deep within answer ih =>
    have houtcome := (layered.call pure before sound hreceiver deep).1
    have hanswer : M.answer c q.receiver q.arguments = .ok x := by
      rw [answer] at houtcome
      cases h : M.answer c q.receiver q.arguments with
      | ok y =>
        rw [h] at houtcome
        exact congrArg _ (Outcome.ok.inj houtcome).symm
      | error e =>
        rw [h] at houtcome
        exact nomatch houtcome
    have hkeeps := within.keeps
    rw [(Query.compute_of_ok answer).2, q.key_eq w.heap _]
    exact (ih before sound).insert (hsite.mono hkeeps) hreceiver (layered.mono hkeeps) hanswer
  | @failed w v wrapped q depth log hsite within failure ih =>
    rw [(Query.compute_of_ne failure).2]
    exact (ih before sound).of_kept_eq fun _ _ _ => rfl

/-- Start with fresh tables, and let anything happen to them: functions are wrapped, in any order and
depth, and called, and tables are cleared. Then every call of a wrapped function has the outcome that its
original function has for that receiver and those arguments, and leaves a world in which this is still so.
A memoized function runs what it wraps if and only if the same call has not been answered since its table
was cleared, whatever the calls inside go through; otherwise nothing changes. -/
theorem call_transparent (M : Memoization σ) {w₀ w : World σ} {past : List Entry} {v : Value}
    {c : Capability} {n depth : Nat} {receiver : Value} {arguments : List Value}
    (fresh : M.Fresh w₀.heap) (pure : M.Pure w₀) (passes : M.Passes w₀ past w)
    (layered : M.Layered w.heap v c n) (isReceiver : receiver.IsReceiver)
    (deep : M.need c receiver arguments + n ≤ depth) :
    (v.call (.nested M.host depth) receiver arguments w).outcome =
        .ofExcept (M.answer c receiver arguments) ∧
      (∃ log, M.Passes w log (v.call (.nested M.host depth) receiver arguments w).world) ∧
      ∀ memo site wrapped, M.IsSite w.heap v memo site wrapped →
        (∃ log, M.Passes w (.of ⟨memo, site, receiver, arguments⟩ (M.answer c receiver arguments) :: log)
          (v.call (.nested M.host depth) receiver arguments w).world) ∧
        ∀ inner : Caller σ,
          (Query.Answered ⟨memo, site, receiver, arguments⟩ past →
            v.call (Capability.respond M.host inner) receiver arguments w =
              ⟨.ofExcept (M.answer c receiver arguments), w, []⟩) ∧
          (¬ Query.Answered ⟨memo, site, receiver, arguments⟩ past →
            v.call (Capability.respond M.host inner) receiver arguments w =
              Query.compute ⟨memo, site, receiver, arguments⟩ inner wrapped w) := by
  have hsound : M.Sound past w.heap := by
    have hlog := passes.sound pure .still (.of_fresh fresh)
    rwa [List.append_nil] at hlog
  obtain ⟨houtcome, hlog⟩ := layered.call pure passes hsound isReceiver deep
  refine ⟨houtcome, hlog, fun memo site wrapped hsite => ?_⟩
  obtain ⟨m, rfl, hwithin⟩ := layered.within hsite
  obtain ⟨table, key, hfunction⟩ := hsite
  have hcall : ∀ inner : Caller σ, v.call (Capability.respond M.host inner) receiver arguments w =
      memo.call inner site wrapped receiver arguments w :=
    fun inner => Value.call_of_capability? hfunction
  have hfind := hsound.found (q := ⟨memo, site, receiver, arguments⟩) table isReceiver
  constructor
  · cases depth with
    | zero => exact absurd deep (Nat.not_le_of_lt (Nat.succ_pos _))
    | succ depth =>
      have hdeep := Nat.le_of_succ_le_succ deep
      obtain ⟨hinner, log, hlog⟩ := hwithin.call pure passes hsound isReceiver hdeep
      have hrecord := hsound.call (q := ⟨memo, site, receiver, arguments⟩) ⟨table, key, hfunction⟩
        isReceiver hwithin hdeep hinner hlog
      rw [← hcall] at hrecord
      exact hrecord.2
  · intro inner
    rw [hcall, Query.call_eq ⟨memo, site, receiver, arguments⟩, hfind]
    constructor
    · intro answered
      obtain ⟨x, hx⟩ := exists_kept_of_answered answered
      have hanswer := hsound.right ⟨table, key, hfunction⟩ isReceiver hwithin hx
      rw [hx, hanswer]
      rfl
    · intro unanswered
      cases hx : kept past ⟨memo, site, receiver, arguments⟩ with
      | some x => exact absurd (answered_of_kept hx) unanswered
      | none => rfl

def firstHost : Host Unit := fun _ _ _ arguments => Action.ofExcept (arguments.head?.elim
  (.error (.thrown "nothing to return")) .ok)

def firstMemoization : Memoization Unit where
  host := firstHost
  tables := (· = ⟨0⟩)
  original := (· = .native "first" 0)
  plain horiginal hwraps := by
    subst horiginal
    exact nomatch hwraps
  answer _ _ arguments := arguments.head?.elim (.error (.thrown "nothing to return")) .ok
  need _ _ _ := 1

def firstWorld : World Unit :=
  ⟨{ objects := #[{ kind := .function (.native "first" 0) }], memos := #[{}] }, ()⟩

theorem fresh_firstWorld : firstMemoization.Fresh firstWorld.heap where
  bound memo hmemo := by
    obtain rfl : memo = ⟨0⟩ := hmemo
    exact Nat.one_pos
  empty memo hmemo := by
    obtain rfl : memo = ⟨0⟩ := hmemo
    rfl
  unused v memo site wrapped hsite := by
    obtain ⟨-, key, hfunction⟩ := hsite
    cases v with
    | object id =>
      obtain ⟨index⟩ := id
      cases index with
      | zero => cases hfunction
      | succ index =>
        have hsize : firstWorld.heap.objects.size ≤ index + 1 := Nat.le_add_left 1 index
        rw [Heap.capability?, Heap.object_of_size_le hsize] at hfunction
        cases hfunction
    | _ => cases hfunction

theorem pure_firstMemoization (w₀ : World Unit) : firstMemoization.Pure w₀ := by
  have hrun : ∀ {c : Capability} {r : Value} {a : List Value} {depth : Nat} (w : World Unit),
      c = .native "first" 0 → 1 ≤ depth → Caller.nested firstHost depth c (.call r) a w =
        ⟨.ofExcept (a.head?.elim (.error (.thrown "nothing to return")) .ok), w, []⟩ := by
    intro c r a depth w hc hdepth
    obtain ⟨depth, rfl⟩ := Nat.exists_eq_add_of_le' hdepth
    subst hc
    cases a <;> rfl
  constructor
  · intro past w c r a depth _ hc _ hdepth
    exact congrArg Run.outcome (hrun w hc hdepth)
  · intro past w c r a depth _ hc _ hdepth
    exact ⟨[], (congrArg Run.world (hrun w hc hdepth)).symm ▸ .still⟩

def firstMemoized : World Unit :=
  (((Edit.memoize ⟨0⟩).apply "first" [] (.ordinary (.object ⟨0⟩)) : Action Unit Fault Descriptor)
    firstWorld).world

def firstDeprecated : World Unit :=
  ((Edit.deprecated.apply "first" [] (.ordinary (.object ⟨1⟩)) : Action Unit Fault Descriptor)
    firstMemoized).world

def firstAgain : World Unit :=
  (((Edit.memoize ⟨0⟩).apply "first" [] (.ordinary (.object ⟨2⟩)) : Action Unit Fault Descriptor)
    firstDeprecated).world

theorem layered_firstAgain :
    firstMemoization.Layered firstAgain.heap (.object ⟨3⟩) (.native "first" 0) 3 ∧
      firstMemoization.Passes firstWorld [] firstAgain := by
  have horiginal : firstMemoization.Layered firstWorld.heap (.object ⟨0⟩) (.native "first" 0) 0 :=
    .original rfl rfl
  obtain ⟨d, v, w, hyields, hd, hmemoized, hpasses⟩ :=
    horiginal.memoize (d := .ordinary (.object ⟨0⟩)) rfl rfl "first" []
  obtain rfl : firstMemoized = w := hyields.2
  obtain rfl : .ordinary (.object ⟨1⟩) = d := Outcome.ok.inj hyields.1
  obtain rfl : .object ⟨1⟩ = v := Option.some.inj hd
  obtain ⟨v, w, hyields, hdeprecated, hpasses'⟩ := hmemoized.deprecate true true true "first" []
  obtain rfl : firstDeprecated = w := hyields.2
  obtain rfl : .object ⟨2⟩ = v := (Descriptor.data.inj (Outcome.ok.inj hyields.1)).1
  obtain ⟨d, v, w, hyields, hd, hagain, hpasses''⟩ :=
    hdeprecated.memoize (d := .ordinary (.object ⟨2⟩)) rfl rfl "first" []
  obtain rfl : firstAgain = w := hyields.2
  obtain rfl : .ordinary (.object ⟨3⟩) = d := Outcome.ok.inj hyields.1
  obtain rfl : .object ⟨3⟩ = v := Option.some.inj hd
  exact ⟨hagain, (hpasses.trans hpasses').trans hpasses''⟩

theorem call_transparent_twice :
    let first := (Value.object ⟨3⟩).call (.nested firstHost 4) (.object ⟨0⟩) [.null] firstAgain
    first.outcome = .ok .null ∧
      ∀ inner, (Value.object ⟨3⟩).call (Capability.respond firstHost inner) (.object ⟨0⟩) [.null]
        first.world = ⟨.ok .null, first.world, []⟩ := by
  intro first
  obtain ⟨hlayered, hpasses⟩ := layered_firstAgain
  have hsite : firstMemoization.IsSite firstAgain.heap (.object ⟨3⟩) ⟨0⟩ 1 (.object ⟨2⟩) :=
    ⟨rfl, "first", rfl⟩
  have hreceiver : (Value.object ⟨0⟩).IsReceiver := .inr ⟨⟨0⟩, rfl⟩
  have hdeep : firstMemoization.need (.native "first" 0) (.object ⟨0⟩) [.null] + 3 ≤ 4 := Nat.le_refl 4
  obtain ⟨houtcome, -, hsites⟩ := call_transparent firstMemoization fresh_firstWorld
    (pure_firstMemoization firstWorld) hpasses hlayered hreceiver hdeep
  obtain ⟨⟨log, hlog⟩, -⟩ := hsites _ _ _ hsite
  obtain ⟨-, -, hsites'⟩ := call_transparent firstMemoization fresh_firstWorld
    (pure_firstMemoization firstWorld) (hpasses.trans hlog) (hlayered.mono hlog.keeps) hreceiver hdeep
  obtain ⟨-, hruns⟩ := hsites' _ _ _ (hsite.mono hlog.keeps)
  exact ⟨houtcome, fun inner => (hruns inner).1 ⟨.null, [], _, rfl, List.not_mem_nil⟩⟩

end Decoration.Memoization
