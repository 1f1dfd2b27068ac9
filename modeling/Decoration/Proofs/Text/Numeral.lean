import Decoration.Proofs.Text.Rounding
import Mathlib.Data.List.TakeWhile

/-! The text of a number says which number it is. -/

namespace Decoration

namespace Decimal

def value (d : Decimal) : ℚ := d.digits * 10 ^ d.exponent

theorem ten_ne_zero : (10 : ℚ) ≠ 0 := by norm_num

theorem trailing_dvd (n : Nat) :
    10 ^ ((Nat.toDigits 10 n).reverse.takeWhile (· = '0')).length ∣ n := by
  generalize hz : (Nat.toDigits 10 n).reverse.takeWhile (· = '0') = zeros
  have hzeros : zeros = List.replicate zeros.length '0' := by
    refine List.eq_replicate_of_mem fun c hc => ?_
    rw [← hz] at hc
    simpa using List.mem_takeWhile_imp hc
  have hsplit : Nat.toDigits 10 n =
      ((Nat.toDigits 10 n).reverse.dropWhile (· = '0')).reverse ++ zeros.reverse := by
    rw [← List.reverse_append, ← hz, List.takeWhile_append_dropWhile, List.reverse_reverse]
  have hn : n = Nat.ofDigitChars 10 (Nat.toDigits 10 n) 0 := Nat.ofDigitChars_ten_toDigits.symm
  rw [hsplit, hzeros, List.reverse_replicate, Nat.ofDigitChars_append,
    Nat.ofDigitChars_replicate_zero] at hn
  exact ⟨_, hn⟩

theorem value_normalize (d : Decimal) : d.normalize.value = d.value := by
  rw [normalize]
  split
  · rename_i h
    rw [value, value, h]
    simp
  · have hdvd := trailing_dvd d.digits
    generalize ((Nat.toDigits 10 d.digits).reverse.takeWhile (· = '0')).length = zeros at hdvd ⊢
    obtain ⟨front, hfront⟩ := hdvd
    have hpos : 0 < 10 ^ zeros := by positivity
    rw [value, value]
    dsimp only
    rw [hfront, Nat.pow_eq, Nat.mul_div_cancel_left _ hpos, zpow_add₀ ten_ne_zero, zpow_natCast]
    push_cast
    ring

end Decimal

namespace Number

theorem decimalScale_pos (m : Nat) : 0 < decimalScale m := by
  simp [decimalScale]

theorem readsBack_exact (m : Nat) : readsBack m (exactDecimal m).digits = true := by
  have hscale := decimalScale_pos m
  have hquarters : 0 < quarters m := by rw [quarters]; split <;> decide
  have hmod := significand_mod_two m
  rw [readsBack_iff, exactDecimal]
  dsimp only
  rw [← Nat.mul_assoc]
  split
  · exact ⟨Nat.mul_le_mul_right _ (Nat.sub_le _ _), Nat.mul_le_mul_right _ (Nat.le_add_right _ _)⟩
  · have hpos : 0 < significand m := by omega
    exact ⟨Nat.mul_lt_mul_of_pos_right (by omega) hscale,
      Nat.mul_lt_mul_of_pos_right (by omega) hscale⟩

theorem readsBack_candidate {tie : Decimal.Tie} {m count : Nat} {d : Decimal}
    (h : candidate? tie m count = some d) :
    ∃ k, readsBack m k = true ∧ d.value = k * 10 ^ (exactDecimal m).exponent := by
  have hvalue : ∀ (n e k : Nat), k = n * 10 ^ e →
      (Decimal.mk n ((exactDecimal m).exponent + e)).value = k * 10 ^ (exactDecimal m).exponent := by
    intro n e k hk
    rw [Decimal.value, zpow_add₀ Decimal.ten_ne_zero, zpow_natCast, hk]
    push_cast
    ring
  rw [candidate?] at h
  dsimp only at h
  split at h
  · cases h
    exact ⟨_, readsBack_exact m, rfl⟩
  · generalize (Nat.toDigits 10 (exactDecimal m).digits).length - count = e at h
    generalize hlower : (exactDecimal m).digits / Nat.pow 10 e = lower at h
    split at h
    · exact nomatch h
    · rename_i hback _
      cases h
      exact ⟨_, hback, hvalue lower e _ rfl⟩
    · rename_i hback
      cases h
      exact ⟨_, hback, hvalue (lower + 1) e _ rfl⟩
    · rename_i hback hback'
      split at h
      · cases h
        exact ⟨_, hback, hvalue lower e _ rfl⟩
      · cases h
        exact ⟨_, hback', hvalue (lower + 1) e _ rfl⟩
      · cases tie with
        | upward =>
          cases h
          exact ⟨_, hback', hvalue (lower + 1) e _ rfl⟩
        | even =>
          cases h
          by_cases heven : lower % 2 = 0
          · rw [if_pos heven]
            exact ⟨_, hback, hvalue lower e _ rfl⟩
          · rw [if_neg heven]
            exact ⟨_, hback', hvalue (lower + 1) e _ rfl⟩

theorem readsBack_shortest (tie : Decimal.Tie) (m : Nat) :
    ∃ k, readsBack m k = true ∧ (shortest tie m).value = k * 10 ^ (exactDecimal m).exponent := by
  rw [shortest, Decimal.value_normalize]
  cases h : (List.range 17).findSome? fun k => candidate? tie m (k + 1) with
  | none => exact ⟨_, readsBack_exact m, rfl⟩
  | some d =>
    obtain ⟨k, -, hk⟩ := List.exists_of_findSome?_eq_some h
    exact readsBack_candidate hk

theorem shortest_value_inj {tie : Decimal.Tie} {m n : Nat}
    (h : (shortest tie m).value = (shortest tie n).value) : m = n := by
  obtain ⟨j, hj, hm⟩ := readsBack_shortest tie m
  obtain ⟨k, hk, hn⟩ := readsBack_shortest tie n
  exact magnitude_unique hj hk (hm.symm.trans (h.trans hn))

end Number

/-! Reading a numeral without an exponent. -/

def numeralValue (cs : List Char) : ℚ :=
  Nat.ofDigitChars 10 (cs.filter Char.isDigit) 0 / 10 ^ ((cs.dropWhile (· ≠ '.')).drop 1).length

namespace Decimal

theorem filter_digits {cs : List Char} (h : ∀ c ∈ cs, c.isDigit = true) :
    cs.filter Char.isDigit = cs := List.filter_eq_self.mpr h

theorem ne_point_of_isDigit {c : Char} (h : c.isDigit = true) : c ≠ '.' := by
  rintro rfl
  exact absurd h (by decide)

theorem isDigit_of_mem_replicate {n : Nat} {c : Char} (h : c ∈ List.replicate n '0') :
    c.isDigit = true := by
  rw [List.eq_of_mem_replicate h]
  rfl

theorem numeralValue_digits {cs : List Char} (h : ∀ c ∈ cs, c.isDigit = true) :
    numeralValue cs = Nat.ofDigitChars 10 cs 0 := by
  have hdrop : cs.dropWhile (· ≠ '.') = [] :=
    List.dropWhile_eq_nil_iff.mpr fun c hc => by simpa using ne_point_of_isDigit (h c hc)
  rw [numeralValue, filter_digits h, hdrop]
  simp

theorem numeralValue_point {whole fraction : List Char} (hwhole : ∀ c ∈ whole, c.isDigit = true)
    (hfraction : ∀ c ∈ fraction, c.isDigit = true) :
    numeralValue (whole ++ '.' :: fraction) =
      Nat.ofDigitChars 10 (whole ++ fraction) 0 / 10 ^ fraction.length := by
  have hdrop : (whole ++ '.' :: fraction).dropWhile (· ≠ '.') = '.' :: fraction := by
    rw [List.dropWhile_append_of_pos fun c hc => by simpa using ne_point_of_isDigit (hwhole c hc)]
    simp
  have hfilter : (whole ++ '.' :: fraction).filter Char.isDigit = whole ++ fraction := by
    rw [List.filter_append, List.filter_cons_of_neg (by decide), filter_digits hwhole,
      filter_digits hfraction]
  rw [numeralValue, hdrop, hfilter, List.drop_one, List.tail_cons]

/-- Digits, or digits around a point, and the number that they say. -/
inductive Numeral : List Char → ℚ → Prop
  | whole {cs : List Char} (digits : ∀ c ∈ cs, c.isDigit = true) (nonempty : cs ≠ []) :
    Numeral cs (Nat.ofDigitChars 10 cs 0)
  | point {whole fraction : List Char} (digits : ∀ c ∈ whole, c.isDigit = true) (nonempty : whole ≠ [])
    (fractional : ∀ c ∈ fraction, c.isDigit = true) :
    Numeral (whole ++ '.' :: fraction)
      (Nat.ofDigitChars 10 (whole ++ fraction) 0 / 10 ^ fraction.length)

namespace Numeral

variable {cs : List Char} {x : ℚ} {c : Char}

theorem value (h : Numeral cs x) : numeralValue cs = x := by
  cases h with
  | whole digits _ => exact numeralValue_digits digits
  | point digits _ fractional => exact numeralValue_point digits fractional

theorem isDigit_or_point (h : Numeral cs x) (hc : c ∈ cs) : c.isDigit = true ∨ c = '.' := by
  cases h with
  | whole digits _ => exact .inl (digits c hc)
  | point digits _ fractional =>
    rcases List.mem_append.mp hc with hc | hc
    · exact .inl (digits c hc)
    · rcases List.mem_cons.mp hc with hc | hc
      · exact .inr hc
      · exact .inl (fractional c hc)

theorem isDigit_of_head? (h : Numeral cs x) (hc : cs.head? = some c) : c.isDigit = true := by
  cases h with
  | whole digits _ => exact digits c (List.mem_of_head? hc)
  | point digits nonempty _ =>
    obtain ⟨first, others, rfl⟩ := List.exists_cons_of_ne_nil nonempty
    exact digits c (List.mem_of_head? hc)

end Numeral

theorem numeral_zeros {d : Decimal} {cs : List Char} (hdigits : ∀ c ∈ cs, c.isDigit = true)
    (hne : cs ≠ []) (hvalue : Nat.ofDigitChars 10 cs 0 = d.digits) {e : Nat} (he : d.exponent = e) :
    Numeral (cs ++ List.replicate e '0') d.value := by
  have hsame : ((Nat.ofDigitChars 10 (cs ++ List.replicate e '0') 0 : Nat) : ℚ) = d.value := by
    rw [Nat.ofDigitChars_append, Nat.ofDigitChars_replicate_zero, hvalue, Decimal.value, he]
    simp [mul_comm]
  rw [← hsame]
  refine .whole (fun c hc => ?_) (List.append_ne_nil_of_left_ne_nil hne _)
  rcases List.mem_append.mp hc with hc | hc
  · exact hdigits c hc
  · exact isDigit_of_mem_replicate hc

theorem numeral_point {d : Decimal} {whole fraction : List Char}
    (hwhole : ∀ c ∈ whole, c.isDigit = true) (hne : whole ≠ [])
    (hfraction : ∀ c ∈ fraction, c.isDigit = true)
    (hvalue : Nat.ofDigitChars 10 (whole ++ fraction) 0 = d.digits)
    (hexponent : d.exponent = -(fraction.length : Int)) :
    Numeral (whole ++ '.' :: fraction) d.value := by
  rw [Decimal.value, hexponent, zpow_neg, zpow_natCast, ← div_eq_mul_inv, ← hvalue]
  exact .point hwhole hne hfraction

theorem numeral_positional (d : Decimal) : Numeral d.positional.toList d.value := by
  have hdigits : ∀ c ∈ Nat.toDigits 10 d.digits, c.isDigit = true :=
    fun c hc => Nat.isDigit_of_mem_toDigits (by decide) (by decide) hc
  have hnonempty : Nat.toDigits 10 d.digits ≠ [] := Nat.toDigits_ne_nil
  have hvalue : Nat.ofDigitChars 10 (Nat.toDigits 10 d.digits) 0 = d.digits :=
    Nat.ofDigitChars_ten_toDigits
  rw [positional]
  generalize Nat.toDigits 10 d.digits = cs at hdigits hnonempty hvalue
  split
  · rename_i hexponent
    obtain ⟨e, he⟩ := Int.eq_ofNat_of_zero_le hexponent
    rw [String.toList_append, zeros, String.toList_ofList, String.toList_ofList, he]
    exact numeral_zeros hdigits hnonempty hvalue he
  · rename_i hexponent
    split
    · rename_i hwhole
      have htext : ∀ a b : List Char,
          (String.ofList a ++ "." ++ String.ofList b).toList = a ++ '.' :: b := by
        intro a b
        simp
      rw [htext]
      refine numeral_point (fun c hc => hdigits c (List.mem_of_mem_take hc)) ?_
        (fun c hc => hdigits c (List.mem_of_mem_drop hc)) (by rw [List.take_append_drop, hvalue]) ?_
      · rw [ne_eq, List.take_eq_nil_iff, not_or]
        exact ⟨by omega, hnonempty⟩
      · rw [List.length_drop]
        omega
    · rename_i hwhole
      have htext : ("0." ++ zeros (-(cs.length + d.exponent)).toNat ++ String.ofList cs).toList =
          ['0'] ++ '.' :: (List.replicate (-(cs.length + d.exponent)).toNat '0' ++ cs) := by
        simp [zeros]
      rw [htext]
      refine numeral_point (by simp) (List.cons_ne_nil _ _) (fun c hc => ?_) ?_ ?_
      · rcases List.mem_append.mp hc with hc | hc
        · exact isDigit_of_mem_replicate hc
        · exact hdigits c hc
      · rw [Nat.ofDigitChars_append, Nat.ofDigitChars_append, Nat.ofDigitChars_replicate_zero]
        exact hvalue
      · rw [List.length_append, List.length_replicate]
        omega

end Decimal

namespace Number

theorem signed_inj {n n' : Bool} {s s' : String} (hs : s.toList.head? ≠ some '-')
    (hs' : s'.toList.head? ≠ some '-') (h : signed n s = signed n' s') : n = n' ∧ s = s' := by
  have hlist := congrArg String.toList h
  cases n <;> cases n'
  · exact ⟨rfl, h⟩
  · rw [signed, signed, if_neg Bool.false_ne_true, if_pos rfl, String.toList_append] at hlist
    rw [hlist] at hs
    exact absurd rfl hs
  · rw [signed, signed, if_pos rfl, if_neg Bool.false_ne_true, String.toList_append] at hlist
    rw [← hlist] at hs'
    exact absurd rfl hs'
  · rw [signed, signed, if_pos rfl, if_pos rfl, String.toList_append, String.toList_append] at hlist
    exact ⟨rfl, String.toList_inj.mp (List.append_cancel_left hlist)⟩

theorem text_injective : Function.Injective Number.text := by
  have hminus : ∀ d : Decimal, d.positional.toList.head? ≠ some '-' :=
    fun d h => absurd (d.numeral_positional.isDigit_of_head? h) (by decide)
  have hletter : ∀ (d : Decimal) (s : String) (c : Char), s.toList.head? = some c →
      c.isDigit = false → d.positional ≠ s := by
    intro d s c hc hdigit h
    rw [← h] at hc
    rw [d.numeral_positional.isDigit_of_head? hc] at hdigit
    exact Bool.false_ne_true hdigit.symm
  have hnan : text nan = signed false "NaN" := rfl
  intro a b h
  cases a with
  | nan =>
    cases b with
    | nan => rfl
    | infinite n =>
      obtain ⟨-, h⟩ := signed_inj (by decide) (by decide) (hnan.symm.trans h)
      exact absurd h (by decide)
    | finite n m =>
      obtain ⟨-, h⟩ := signed_inj (by decide) (hminus _) (hnan.symm.trans h)
      exact absurd h.symm (hletter _ _ 'N' rfl rfl)
  | infinite n =>
    cases b with
    | nan =>
      obtain ⟨-, h⟩ := signed_inj (by decide) (by decide) (h.trans hnan)
      exact absurd h (by decide)
    | infinite n' =>
      obtain ⟨rfl, -⟩ := signed_inj (by decide) (by decide) h
      rfl
    | finite n' m =>
      obtain ⟨-, h⟩ := signed_inj (by decide) (hminus _) h
      exact absurd h.symm (hletter _ _ 'i' rfl rfl)
  | finite n m =>
    cases b with
    | nan =>
      obtain ⟨-, h⟩ := signed_inj (hminus _) (by decide) (h.trans hnan)
      exact absurd h (hletter _ _ 'N' rfl rfl)
    | infinite n' =>
      obtain ⟨-, h⟩ := signed_inj (hminus _) (by decide) h
      exact absurd h (hletter _ _ 'i' rfl rfl)
    | finite n' m' =>
      obtain ⟨rfl, hpositional⟩ := signed_inj (hminus _) (hminus _) h
      have hvalue : (shortest .upward m.val).value = (shortest .upward m'.val).value := by
        rw [← (Decimal.numeral_positional _).value, ← (Decimal.numeral_positional _).value, hpositional]
      exact congrArg (finite n) (Fin.ext (shortest_value_inj hvalue))

theorem comma_notMem_text (n : Number) : ',' ∉ n.text.toList := by
  have hsigned : ∀ (negative : Bool) (s : String), ',' ∉ s.toList →
      ',' ∉ (signed negative s).toList := by
    intro negative s hs
    cases negative with
    | false => exact hs
    | true =>
      rw [signed, if_pos rfl, String.toList_append, List.mem_append]
      rintro (h | h)
      · exact absurd h (by decide)
      · exact hs h
  cases n with
  | nan => decide
  | infinite negative => exact hsigned negative "inf" (by decide)
  | finite negative m =>
    refine hsigned negative _ fun h => ?_
    rcases (Decimal.numeral_positional _).isDigit_or_point h with h | h <;> exact absurd h (by decide)

end Number
end Decoration
