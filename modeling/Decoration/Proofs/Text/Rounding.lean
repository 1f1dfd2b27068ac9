import Decoration.Number.Decimal
import Mathlib.Algebra.Order.Field.Rat
import Mathlib.Algebra.Order.Field.Power
import Mathlib.Order.Monotone.Basic
import Mathlib.Tactic.Linarith
import Mathlib.Tactic.NormNum
import Mathlib.Tactic.Ring

/-! The doubles on the line of rationals. Each has an interval of its own: what reads back as one of
them does not read back as another. -/

namespace Decoration.Number

def worth (magnitude : Nat) : ℚ := significand magnitude * 2 ^ exponent magnitude

def halfway (magnitude : Nat) : ℚ := (significand magnitude + 1 / 2) * 2 ^ exponent magnitude

theorem significand_of_lt {m : Nat} (h : m < binade) : significand m = m := if_pos h

theorem significand_of_le {m : Nat} (h : binade ≤ m) : significand m = binade + m % binade :=
  if_neg (Nat.not_lt.mpr h)

theorem exponent_of_lt {m : Nat} (h : m < binade) : exponent m = -1074 := if_pos h

theorem exponent_of_le {m : Nat} (h : binade ≤ m) : exponent m = (m / binade : Nat) - 1075 :=
  if_neg (Nat.not_lt.mpr h)

theorem succ_cases (m : Nat) :
    (significand (m + 1) = significand m + 1 ∧ exponent (m + 1) = exponent m ∧
      ¬((m + 1) % binade = 0 ∧ binade < m + 1)) ∨
    (significand (m + 1) = binade ∧ significand m + 1 = 2 * binade ∧
      exponent (m + 1) = exponent m + 1 ∧ (m + 1) % binade = 0 ∧ binade < m + 1) := by
  rcases Nat.lt_or_ge m binade with h | h <;> rcases Nat.lt_or_ge (m + 1) binade with h' | h'
  · rw [significand_of_lt h, significand_of_lt h', exponent_of_lt h, exponent_of_lt h']
    omega
  · rw [significand_of_lt h, significand_of_le h', exponent_of_lt h, exponent_of_le h']
    simp only [binade] at *
    omega
  · omega
  · rw [significand_of_le h, significand_of_le h', exponent_of_le h, exponent_of_le h']
    simp only [binade] at *
    omega

theorem significand_mod_two (m : Nat) : significand m % 2 = m % 2 := by
  rcases Nat.lt_or_ge m binade with h | h
  · rw [significand_of_lt h]
  · rw [significand_of_le h]
    simp only [binade] at *
    omega

theorem significand_succ_pos (m : Nat) : 0 < significand (m + 1) := by
  rcases Nat.lt_or_ge (m + 1) binade with h | h
  · rw [significand_of_lt h]
    exact Nat.succ_pos m
  · rw [significand_of_le h, binade]
    omega

theorem two_zpow_pos (e : Int) : (0 : ℚ) < 2 ^ e := zpow_pos two_pos e

theorem worth_succ (m : Nat) : worth (m + 1) = (significand m + 1) * 2 ^ exponent m := by
  rw [worth]
  rcases succ_cases m with ⟨hs, he, -⟩ | ⟨hs, hs', he, -⟩
  · rw [hs, he, Nat.cast_succ]
  · have hcast : (significand m : ℚ) + 1 = 2 * binade := by exact_mod_cast hs'
    rw [hs, he, hcast, zpow_add_one₀ two_ne_zero]
    ring

theorem worth_lt_halfway (m : Nat) : worth m < halfway m := by
  have hpos := two_zpow_pos (exponent m)
  rw [worth, halfway]
  linarith

theorem halfway_lt_worth (m : Nat) : halfway m < worth (m + 1) := by
  have hpos := two_zpow_pos (exponent m)
  rw [worth_succ, halfway]
  linarith

theorem halfway_strictMono : StrictMono halfway :=
  strictMono_nat_of_lt_succ fun m => (halfway_lt_worth m).trans (worth_lt_halfway (m + 1))

theorem decimalScale_mul (m : Nat) :
    (decimalScale m : ℚ) * 10 ^ (exactDecimal m).exponent = 2 ^ exponent m := by
  rw [exactDecimal, decimalScale]
  obtain ⟨n, hn | hn⟩ := (exponent m).eq_nat_or_neg
  · simp [hn]
  · have hten : (10 : ℚ) ^ n = 2 ^ n * 5 ^ n := by rw [← mul_pow]; norm_num
    simp [hn, hten]

def quarters (m : Nat) : Nat := if m % binade = 0 ∧ binade < m then 1 else 2

theorem halfway_eq (m : Nat) :
    halfway m = (4 * significand (m + 1) - quarters (m + 1) : Nat) / 4 * 2 ^ exponent (m + 1) := by
  have hpos := significand_succ_pos m
  rw [halfway]
  rcases succ_cases m with ⟨hs, he, hnot⟩ | ⟨hs, hs', he, hboundary⟩
  · rw [quarters, if_neg hnot, Nat.cast_sub (by omega), hs, he]
    push_cast
    ring
  · have hcast : (significand m : ℚ) + 1 = 2 * binade := by exact_mod_cast hs'
    have hcast' : (significand m : ℚ) = 2 * binade - 1 := by linarith
    rw [quarters, if_pos hboundary, Nat.cast_sub (by omega), hs, he, hcast',
      zpow_add_one₀ two_ne_zero]
    push_cast
    ring

theorem readsBack_iff {m k : Nat} :
    readsBack m k = true ↔
      if m % 2 = 0 then
        (4 * significand m - quarters m) * decimalScale m ≤ 4 * k ∧
          4 * k ≤ (4 * significand m + 2) * decimalScale m
      else
        (4 * significand m - quarters m) * decimalScale m < 4 * k ∧
          4 * k < (4 * significand m + 2) * decimalScale m := by
  rw [readsBack, significand_mod_two]
  split <;> simp [quarters]

theorem mul_zpow_quarter {a m : Nat} :
    (a : ℚ) * decimalScale m / 4 * 10 ^ (exactDecimal m).exponent = a / 4 * 2 ^ exponent m := by
  rw [← decimalScale_mul]
  ring

theorem le_halfway_of_readsBack {m k : Nat} (h : readsBack m k = true) :
    (k : ℚ) * 10 ^ (exactDecimal m).exponent ≤ halfway m ∧
      (m % 2 ≠ 0 → (k : ℚ) * 10 ^ (exactDecimal m).exponent < halfway m) := by
  have hpos : (0 : ℚ) < 10 ^ (exactDecimal m).exponent := zpow_pos (by norm_num) _
  have hend : halfway m = ((4 * significand m + 2 : Nat) : ℚ) * decimalScale m / 4 *
      10 ^ (exactDecimal m).exponent := by
    rw [mul_zpow_quarter, halfway]
    push_cast
    ring
  rw [hend]
  rw [readsBack_iff] at h
  split at h
  · have hle : (4 : ℚ) * k ≤ (4 * significand m + 2 : Nat) * decimalScale m := by exact_mod_cast h.2
    refine ⟨mul_le_mul_of_nonneg_right (by linarith) hpos.le, fun hodd => absurd ‹_› hodd⟩
  · have hlt : (4 : ℚ) * k < (4 * significand m + 2 : Nat) * decimalScale m := by exact_mod_cast h.2
    refine ⟨(mul_lt_mul_of_pos_right ?_ hpos).le, fun _ => mul_lt_mul_of_pos_right ?_ hpos⟩ <;>
      linarith

theorem halfway_le_of_readsBack {m k : Nat} (h : readsBack (m + 1) k = true) :
    halfway m ≤ (k : ℚ) * 10 ^ (exactDecimal (m + 1)).exponent ∧
      ((m + 1) % 2 ≠ 0 → halfway m < (k : ℚ) * 10 ^ (exactDecimal (m + 1)).exponent) := by
  have hpos : (0 : ℚ) < 10 ^ (exactDecimal (m + 1)).exponent := zpow_pos (by norm_num) _
  rw [halfway_eq, ← mul_zpow_quarter]
  rw [readsBack_iff] at h
  split at h
  · have hle : ((4 * significand (m + 1) - quarters (m + 1) : Nat) : ℚ) * decimalScale (m + 1) ≤
        4 * k := by exact_mod_cast h.1
    exact ⟨mul_le_mul_of_nonneg_right (by linarith) hpos.le, fun hodd => absurd ‹_› hodd⟩
  · have hlt : ((4 * significand (m + 1) - quarters (m + 1) : Nat) : ℚ) * decimalScale (m + 1) <
        4 * k := by exact_mod_cast h.1
    refine ⟨(mul_lt_mul_of_pos_right ?_ hpos).le, fun _ => mul_lt_mul_of_pos_right ?_ hpos⟩ <;>
      linarith

/-- The intervals of different magnitudes have no point in common: only an even one has the ends of its
interval, and its neighbours are odd. -/
theorem magnitude_unique {m n j k : Nat} (hm : readsBack m j = true) (hn : readsBack n k = true)
    (h : (j : ℚ) * 10 ^ (exactDecimal m).exponent = k * 10 ^ (exactDecimal n).exponent) : m = n := by
  have hapart : ∀ {m n j k : Nat}, readsBack m j = true → readsBack n k = true →
      (j : ℚ) * 10 ^ (exactDecimal m).exponent = k * 10 ^ (exactDecimal n).exponent → ¬m < n := by
    intro m n j k hm hn h hlt
    obtain ⟨p, rfl⟩ : ∃ p, n = p + 1 := ⟨n - 1, by omega⟩
    obtain ⟨hupper, hupper'⟩ := le_halfway_of_readsBack hm
    obtain ⟨hlower, hlower'⟩ := halfway_le_of_readsBack hn
    rw [h] at hupper hupper'
    -- The two intervals can only meet where one ends and the next begins.
    have hp : m = p := by
      have hle : halfway p ≤ halfway m := hlower.trans hupper
      have := halfway_strictMono.le_iff_le.mp hle
      omega
    subst hp
    rcases Nat.mod_two_eq_zero_or_one m with heven | hodd
    · exact absurd (hlower' (by omega)) (not_lt.mpr hupper)
    · exact absurd (hupper' (by omega)) (not_lt.mpr hlower)
  rcases Nat.lt_trichotomy m n with hlt | heq | hgt
  · exact absurd hlt (hapart hm hn h)
  · exact heq
  · exact absurd hgt (hapart hn hm h.symm)

end Decoration.Number
