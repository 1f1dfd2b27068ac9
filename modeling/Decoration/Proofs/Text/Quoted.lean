import Decoration.Text.Quoted
import Mathlib.Data.List.Basic

/-! Quoted text ends at its closing quote and says what was quoted. -/

namespace Decoration.Text

theorem append_inj_of_notMem {mark : Char} {a b rest rest' : List Char} (ha : mark ∉ a) (hb : mark ∉ b)
    (hrest : ∀ c ∈ rest.head?, c = mark) (hrest' : ∀ c ∈ rest'.head?, c = mark)
    (h : a ++ rest = b ++ rest') : a = b ∧ rest = rest' := by
  induction a generalizing b with
  | nil =>
    cases b with
    | nil => exact ⟨rfl, h⟩
    | cons c b =>
      rw [List.nil_append] at h
      obtain rfl := hrest c (by rw [h]; rfl)
      exact absurd List.mem_cons_self hb
  | cons c a ih =>
    cases b with
    | nil =>
      rw [List.nil_append] at h
      obtain rfl := hrest' c (by rw [← h]; rfl)
      exact absurd List.mem_cons_self ha
    | cons c' b =>
      obtain ⟨rfl, htail⟩ := List.cons.inj h
      obtain ⟨rfl, hrests⟩ := ih (fun hm => ha (List.mem_cons_of_mem _ hm))
        (fun hm => hb (List.mem_cons_of_mem _ hm)) htail
      exact ⟨rfl, hrests⟩

theorem toDigits_hex_injective : Function.Injective (Nat.toDigits 16) := by
  have hdigit : ∀ a b : Fin 16, Nat.digitChar a = Nat.digitChar b → a = b := by decide
  intro m
  induction m using Nat.strongRecOn with
  | ind m ih =>
    intro n h
    rcases Nat.lt_or_ge m 16 with hm | hm <;> rcases Nat.lt_or_ge n 16 with hn | hn
    · rw [Nat.toDigits_of_lt_base hm, Nat.toDigits_of_lt_base hn, List.cons.injEq] at h
      exact congrArg Fin.val (hdigit ⟨m, hm⟩ ⟨n, hn⟩ h.1)
    · rw [Nat.toDigits_of_lt_base hm, Nat.toDigits_of_base_le (by decide) hn] at h
      have hlength := congrArg List.length h
      have hpos : 0 < (Nat.toDigits 16 (n / 16)).length := Nat.length_toDigits_pos
      simp only [List.length_append, List.length_singleton] at hlength
      omega
    · rw [Nat.toDigits_of_base_le (by decide) hm, Nat.toDigits_of_lt_base hn] at h
      have hlength := congrArg List.length h
      have hpos : 0 < (Nat.toDigits 16 (m / 16)).length := Nat.length_toDigits_pos
      simp only [List.length_append, List.length_singleton] at hlength
      omega
    · rw [Nat.toDigits_of_base_le (by decide) hm, Nat.toDigits_of_base_le (by decide) hn] at h
      obtain ⟨hfront, hlast⟩ := List.append_inj' h rfl
      have hdiv := ih (m / 16) (by omega) hfront
      have hmod := congrArg Fin.val (hdigit ⟨m % 16, Nat.mod_lt _ (by decide)⟩
        ⟨n % 16, Nat.mod_lt _ (by decide)⟩ (List.cons.inj hlast).1)
      dsimp only at hmod
      omega

theorem brace_notMem_toDigits (n : Nat) : '\x7d' ∉ Nat.toDigits 16 n := by
  induction n using Nat.strongRecOn with
  | ind n ih =>
    intro hmem
    have hne : ∀ d, Nat.digitChar d ≠ '\x7d' := fun d => Nat.digitChar_ne _ (by decide)
    rcases Nat.lt_or_ge n 16 with hn | hn
    · rw [Nat.toDigits_of_lt_base hn, List.mem_singleton] at hmem
      exact hne n hmem.symm
    · rw [Nat.toDigits_of_base_le (by decide) hn, List.mem_append, List.mem_singleton] at hmem
      rcases hmem with hmem | hmem
      · exact ih (n / 16) (by omega) hmem
      · exact hne _ hmem.symm

def named (letter : Char) : Char :=
  if letter = '0' then '\x00' else if letter = 't' then '\t' else if letter = 'r' then '\r'
  else if letter = 'n' then '\n' else letter

theorem escaped_cases (c : Char) :
    (escaped c = [c] ∧ c ≠ '\\' ∧ c ≠ '"') ∨
    (∃ letter, escaped c = ['\\', letter] ∧ letter ≠ 'u' ∧ named letter = c) ∨
    escaped c = codePoint c := by
  unfold escaped
  split_ifs with h₁ h₂ h₃ h₄ h₅ h₆ h₇
  · exact .inr (.inl ⟨'0', rfl, by decide, h₁.symm⟩)
  · exact .inr (.inl ⟨'t', rfl, by decide, h₂.symm⟩)
  · exact .inr (.inl ⟨'r', rfl, by decide, h₃.symm⟩)
  · exact .inr (.inl ⟨'n', rfl, by decide, h₄.symm⟩)
  · exact .inr (.inl ⟨'\\', rfl, by decide, h₅.symm⟩)
  · exact .inr (.inl ⟨'"', rfl, by decide, h₆.symm⟩)
  · exact .inr (.inr rfl)
  · exact .inl ⟨rfl, h₅, h₆⟩

theorem codePoint_append_inj {c c' : Char} {rest rest' : List Char}
    (h : codePoint c ++ rest = codePoint c' ++ rest') : c = c' ∧ rest = rest' := by
  simp only [codePoint, List.append_assoc, List.cons_append, List.nil_append, List.cons.injEq,
    true_and] at h
  have hbrace : ∀ (more : List Char), ∀ c ∈ ('\x7d' :: more).head?, c = '\x7d' :=
    fun more c hc => (Option.some.inj hc).symm
  obtain ⟨hdigits, hrest⟩ := append_inj_of_notMem (brace_notMem_toDigits _) (brace_notMem_toDigits _)
    (hbrace rest) (hbrace rest') h
  exact ⟨Char.toNat_inj.mp (toDigits_hex_injective hdigits), (List.cons.inj hrest).2⟩

theorem escaped_append_inj {c c' : Char} {rest rest' : List Char}
    (h : escaped c ++ rest = escaped c' ++ rest') : c = c' ∧ rest = rest' := by
  rcases escaped_cases c with ⟨hc, hslash, -⟩ | ⟨letter, hc, hu, hnamed⟩ | hc <;>
    rcases escaped_cases c' with ⟨hc', hslash', -⟩ | ⟨letter', hc', hu', hnamed'⟩ | hc' <;>
    rw [hc, hc'] at h
  · exact List.cons.inj h
  · exact absurd (List.cons.inj h).1 hslash
  · exact absurd (List.cons.inj h).1 hslash
  · exact absurd (List.cons.inj h).1.symm hslash'
  · obtain ⟨rfl, hrest⟩ := List.cons.inj (List.cons.inj h).2
    exact ⟨hnamed.symm.trans hnamed', hrest⟩
  · exact absurd (List.cons.inj (List.cons.inj h).2).1 hu
  · exact absurd (List.cons.inj h).1.symm hslash'
  · exact absurd (List.cons.inj (List.cons.inj h).2).1.symm hu'
  · exact codePoint_append_inj h

theorem escaped_append_ne (c : Char) (rest rest' : List Char) : escaped c ++ rest ≠ '"' :: rest' := by
  intro h
  rcases escaped_cases c with ⟨hc, -, hquote⟩ | ⟨letter, hc, -, -⟩ | hc <;> rw [hc] at h
  · exact hquote (List.cons.inj h).1
  · exact absurd (List.cons.inj h).1 (by decide)
  · exact absurd (List.cons.inj h).1 (by decide)

theorem body_append_inj {s s' rest rest' : List Char}
    (h : s.flatMap escaped ++ '"' :: rest = s'.flatMap escaped ++ '"' :: rest') :
    s = s' ∧ rest = rest' := by
  induction s generalizing s' with
  | nil =>
    cases s' with
    | nil => exact ⟨rfl, (List.cons.inj h).2⟩
    | cons c' s' =>
      rw [List.flatMap_cons, List.append_assoc] at h
      exact absurd h.symm (escaped_append_ne c' _ _)
  | cons c s ih =>
    cases s' with
    | nil =>
      rw [List.flatMap_cons, List.append_assoc] at h
      exact absurd h (escaped_append_ne c _ _)
    | cons c' s' =>
      rw [List.flatMap_cons, List.flatMap_cons, List.append_assoc, List.append_assoc] at h
      obtain ⟨rfl, hafter⟩ := escaped_append_inj h
      obtain ⟨rfl, hrest⟩ := ih hafter
      exact ⟨rfl, hrest⟩

theorem quote_append_inj {s s' : String} {rest rest' : List Char}
    (h : (quote s).toList ++ rest = (quote s').toList ++ rest') : s = s' ∧ rest = rest' := by
  simp only [quote, String.toList_ofList, List.cons_append, List.append_assoc, List.nil_append,
    List.cons.injEq, true_and] at h
  obtain ⟨hs, hrest⟩ := body_append_inj h
  exact ⟨String.toList_inj.mp hs, hrest⟩

end Decoration.Text
