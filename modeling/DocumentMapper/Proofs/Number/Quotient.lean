import DocumentMapper.Proofs.Number.Units
import DocumentMapper.Value.Number

/-!
# Quotients rounded up

The number of parts of a size that hold a number of things comes from a quotient that is rounded to
53 digits before it is rounded up. Below `2 ^ 53` the first rounding changes nothing: it never goes
beyond an integer, and a quotient that is no integer is further from the one below than the
digits that are kept are apart.
-/

namespace DocumentMapper.Number

variable {num den k : Nat}

/-! ## Rounding -/

/-- Rounding does not go beyond an integer. -/
theorem roundHalfEven_le_of_le (hden : 0 < den) (h : num ≤ k * den) :
    roundHalfEven num den ≤ k := by
  have hdivision := Nat.div_add_mod num den
  have hquotient : num / den ≤ k := Nat.div_le_of_le_mul (by rwa [Nat.mul_comm])
  unfold roundHalfEven
  simp only
  by_cases heq : num / den = k
  · have hrest : num % den = 0 := by
      rw [heq, Nat.mul_comm] at hdivision
      omega
    simp [heq, hrest, hden]
  · split
    · exact hquotient
    · split <;> omega

/-- What lies above the middle between an integer and the next one is rounded up. -/
theorem lt_roundHalfEven_of_lt (hden : 0 < den) (h : (2 * k + 1) * den < 2 * num) :
    k < roundHalfEven num den := by
  have hdivision := Nat.div_add_mod num den
  have hrest := Nat.mod_lt num hden
  have hquotient : k ≤ num / den := by
    rw [Nat.le_div_iff_mul_le hden]
    nlinarith
  unfold roundHalfEven
  simp only
  by_cases heq : num / den = k
  · have hmiddle : den < 2 * (num % den) := by
      rw [heq] at hdivision
      nlinarith
    rw [if_neg (by omega), if_pos hmiddle]
    omega
  · split
    · omega
    · split <;> omega

/-- The last digit kept of a quotient of numbers below `2 ^ 53`: it does not stand before the
point, and 53 digits are kept. -/
theorem exists_lastPlace (hnum : 0 < num) (hnum' : num < 2 ^ 53) (hden : 0 < den)
    (hden' : den < 2 ^ 53) : ∃ j : Nat, lastPlace num den = -j ∧ j ≤ 105 ∧
      den * 2 ^ 52 ≤ num * 2 ^ j ∧ num * 2 ^ j < den * 2 ^ 53 := by
  have hlow : 2 ^ num.log2 ≤ num := Nat.log2_self_le hnum.ne'
  have hhigh : num < 2 ^ (num.log2 + 1) := Nat.lt_log2_self
  have hlow' : 2 ^ den.log2 ≤ den := Nat.log2_self_le hden.ne'
  have hhigh' : den < 2 ^ (den.log2 + 1) := Nat.lt_log2_self
  have ha : num.log2 < 53 := (Nat.log2_lt hnum.ne').2 hnum'
  have hb : den.log2 < 53 := (Nat.log2_lt hden.ne').2 hden'
  obtain ⟨g, hg⟩ : ∃ g : Nat, g + num.log2 = 52 + den.log2 :=
    ⟨52 + den.log2 - num.log2, by omega⟩
  have hguess : (num.log2 : Int) - den.log2 - 52 = -g := by omega
  have hplace : lastPlace num den =
      max (if den * 2 ^ 52 ≤ num * 2 ^ g then (-g : Int) else -g - 1) (-1074) := by
    unfold lastPlace
    simp only [hguess]
    cases g with
    | zero => simp
    | succ g =>
      have hnegative : (-((g + 1 : Nat) : Int)) = .negSucc g := rfl
      simp only [hnegative, Nat.pow_eq, decide_eq_true_eq]
  rw [hplace]
  by_cases h : den * 2 ^ 52 ≤ num * 2 ^ g
  · have hbelow : num * 2 ^ g < den * 2 ^ 53 := by
      calc num * 2 ^ g
        _ < 2 ^ (num.log2 + 1) * 2 ^ g := Nat.mul_lt_mul_of_pos_right hhigh (Nat.two_pow_pos g)
        _ = 2 ^ den.log2 * 2 ^ 53 := by
          rw [← Nat.pow_add, ← Nat.pow_add]
          congr 1
          omega
        _ ≤ den * 2 ^ 53 := Nat.mul_le_mul_right _ hlow'
    exact ⟨g, by rw [if_pos h]; omega, by omega, h, hbelow⟩
  · have habove : den * 2 ^ 52 ≤ num * 2 ^ (g + 1) := by
      calc den * 2 ^ 52
        _ ≤ 2 ^ (den.log2 + 1) * 2 ^ 52 := Nat.mul_le_mul_right _ hhigh'.le
        _ = 2 ^ num.log2 * 2 ^ (g + 1) := by
          rw [← Nat.pow_add, ← Nat.pow_add]
          congr 1
          omega
        _ ≤ num * 2 ^ (g + 1) := Nat.mul_le_mul_right _ hlow
    have hbelow : num * 2 ^ (g + 1) < den * 2 ^ 53 := by
      rw [Nat.pow_succ, ← Nat.mul_assoc]
      omega
    exact ⟨g + 1, by rw [if_neg h]; omega, by omega, habove, hbelow⟩

/-- The number of which the bits are an exponent and 53 digits, or one more than all of them. -/
theorem exists_ofFloat? {place kept : Nat} (hplace : place ≤ 1074) (hlow : 2 ^ 52 ≤ kept)
    (hhigh : kept ≤ 2 ^ 53) : ∃ d,
      Dyadic.ofFloat? (Float.ofBits (UInt64.ofNat (place * 2 ^ 52 + kept))) = some d ∧
      d.negative = false ∧ d.units = kept * 2 ^ place := by
  have hbits : (Float.ofBits (UInt64.ofNat (place * 2 ^ 52 + kept))).toBits.toNat =
      place * 2 ^ 52 + kept := by
    have hlt : (UInt64.ofNat (place * 2 ^ 52 + kept)).toNat = place * 2 ^ 52 + kept := by
      rw [UInt64.toNat_ofNat']
      omega
    rw [toBits_ofBits (by rw [hlt]; omega), hlt]
  unfold Dyadic.ofFloat?
  simp only [Nat.pow_eq, hbits]
  rw [if_neg (by omega), if_neg (by omega)]
  refine ⟨_, rfl, by simp; omega, ?_⟩
  unfold Dyadic.units
  simp only
  rcases Nat.lt_or_eq_of_le hhigh with hlt | heq
  · have hmantissa : (place * 2 ^ 52 + kept) % 2 ^ 52 + 2 ^ 52 = kept := by omega
    have hexponent : (((place * 2 ^ 52 + kept) / 2 ^ 52 % 2 ^ 11 : Nat) - 1075 + 1074 : Int).toNat =
        place := by omega
    rw [hmantissa, hexponent]
  · have hmantissa : (place * 2 ^ 52 + kept) % 2 ^ 52 + 2 ^ 52 = 2 ^ 52 := by omega
    have hexponent : (((place * 2 ^ 52 + kept) / 2 ^ 52 % 2 ^ 11 : Nat) - 1075 + 1074 : Int).toNat =
        1 + place := by omega
    rw [hmantissa, hexponent, heq, ← Nat.pow_add, ← Nat.pow_add]
    congr 1
    omega

/-- The bits of a quotient of numbers below `2 ^ 53`. -/
theorem exists_ratioBits (hnum : 0 < num) (hnum' : num < 2 ^ 53) (hden : 0 < den)
    (hden' : den < 2 ^ 53) : ∃ j : Nat, j ≤ 105 ∧ den < 2 ^ (j + 1) ∧
      2 ^ 52 ≤ roundHalfEven (num * 2 ^ j) den ∧ roundHalfEven (num * 2 ^ j) den ≤ 2 ^ 53 ∧
      ratioBits false num den = (1074 - j) * 2 ^ 52 + roundHalfEven (num * 2 ^ j) den := by
  obtain ⟨j, hplace, hj, hlow, hhigh⟩ := exists_lastPlace hnum hnum' hden hden'
  have hfine : den < 2 ^ (j + 1) := by
    have hlt : den * 2 ^ 52 < 2 ^ (j + 1) * 2 ^ 52 := by
      calc den * 2 ^ 52
        _ ≤ num * 2 ^ j := hlow
        _ < 2 ^ 53 * 2 ^ j := Nat.mul_lt_mul_of_pos_right hnum' (Nat.two_pow_pos j)
        _ = 2 ^ (j + 1) * 2 ^ 52 := by
          rw [← Nat.pow_add, ← Nat.pow_add]
          congr 1
          omega
    exact Nat.lt_of_mul_lt_mul_right hlt
  have hleast : 2 ^ 52 - 1 < roundHalfEven (num * 2 ^ j) den := by
    apply lt_roundHalfEven_of_lt hden
    omega
  have hmost : roundHalfEven (num * 2 ^ j) den ≤ 2 ^ 53 := by
    apply roundHalfEven_le_of_le hden
    omega
  have hbits : ratioBits false num den =
      min ((1074 - j) * 2 ^ 52 + roundHalfEven (num * 2 ^ j) den) (2047 * 2 ^ 52) := by
    have hexponent : (lastPlace num den + 1074).toNat = 1074 - j := by omega
    unfold ratioBits
    simp only [if_neg hnum.ne', hexponent, signBit, Bool.false_eq_true, if_false, Nat.zero_add]
    rw [hplace]
    cases j with
    | zero => simp
    | succ j => rfl
  refine ⟨j, hj, hfine, by omega, hmost, ?_⟩
  rw [hbits]
  omega

/-- The quotient of two integers below `2 ^ 53` is rounded to the nearest number; this one rounded
up is the quotient itself rounded up. A quotient that is not an integer is never rounded down to
one, since it lies more than half a unit of the last digit kept above it. -/
theorem ceiling_ofRatio (hnum : num < 2 ^ 53) (hden : 0 < den) (hden' : den < 2 ^ 53) :
    ∃ d, Dyadic.ofFloat? (ofRatio false num den) = some d ∧ 0 ≤ d.ceiling ∧
      ∀ k : Nat, d.ceiling ≤ k ↔ num ≤ k * den := by
  by_cases hzero : num = 0
  · subst hzero
    have hbits : Dyadic.ofFloat? (ofRatio false 0 den) = some ⟨false, 0, -1074⟩ := by
      simp only [ofRatio, ratioBits, if_true]
      rfl
    have hnormal := Dyadic.normal_of_ofFloat? hbits
    refine ⟨_, hbits, Dyadic.ceiling_nonneg rfl, fun k => ?_⟩
    rw [Dyadic.ceiling_le_iff rfl hnormal]
    simp [Dyadic.units]
  · obtain ⟨j, hj, hfine, hlow, hhigh, hbits⟩ :=
      exists_ratioBits (Nat.pos_of_ne_zero hzero) hnum hden hden'
    obtain ⟨d, hd, hsign, hunits⟩ := exists_ofFloat? (Nat.sub_le 1074 j) hlow hhigh
    refine ⟨d, by rw [ofRatio, hbits, hd], Dyadic.ceiling_nonneg hsign, fun k => ?_⟩
    have hone : k * Dyadic.one = k * 2 ^ j * 2 ^ (1074 - j) := by
      have hdepth : Dyadic.depth = j + (1074 - j) := by
        simp only [Dyadic.depth]
        omega
      rw [Dyadic.one, hdepth, Nat.pow_add, Nat.mul_assoc]
    have hkept : roundHalfEven (num * 2 ^ j) den ≤ k * 2 ^ j ↔ num ≤ k * den := by
      constructor
      · intro h
        by_contra hlt
        have habove : k * den + 1 ≤ num := by omega
        have hscaled : (k * den + 1) * 2 ^ j ≤ num * 2 ^ j := Nat.mul_le_mul_right _ habove
        have hround : k * 2 ^ j < roundHalfEven (num * 2 ^ j) den := by
          apply lt_roundHalfEven_of_lt hden
          rw [Nat.pow_succ] at hfine
          nlinarith
        omega
      · intro h
        apply roundHalfEven_le_of_le hden
        calc num * 2 ^ j
          _ ≤ k * den * 2 ^ j := Nat.mul_le_mul_right _ h
          _ = k * 2 ^ j * den := Nat.mul_right_comm _ _ _
    rw [Dyadic.ceiling_le_iff hsign (Dyadic.normal_of_ofFloat? hd), hunits, hone,
      Nat.mul_le_mul_right_iff (Nat.two_pow_pos _), hkept]

/-- How many parts of a size it takes to hold a number of things. -/
theorem exists_ceilingQuotient {total size : Nat} (htotal : total < 2 ^ 53) (hpos : 0 < size)
    (hsize : size < 2 ^ 53) : ∃ parts : Nat,
      Value.ceilingQuotient (.int total) (.int size) = .ok parts ∧
      ∀ k : Nat, parts ≤ k ↔ total ≤ k * size := by
  obtain ⟨d, hd, hnonneg, hceiling⟩ := ceiling_ofRatio htotal hpos hsize
  have hquotient : quotient? total size = some (ofRatio false total size) := by
    have hsign : (decide ((total : Int) < 0) != decide ((size : Int) < 0)) = false := by
      simp [Int.not_lt.2 (Int.natCast_nonneg _)]
    simp only [quotient?, hsign, Int.natAbs_natCast, isFinite, hd, Option.isSome_some, if_true]
  obtain ⟨parts, hparts⟩ := Int.eq_ofNat_of_zero_le hnonneg
  have hcomputed : Value.ceilingQuotient (.int total) (.int size) = .ok parts := by
    simp [Value.ceilingQuotient, Value.numeric?, hquotient, hd, Bind.bind, Except.bind, hparts]
  refine ⟨parts, hcomputed, fun k => ?_⟩
  rw [← hceiling k, hparts]
  exact Int.ofNat_le.symm

end DocumentMapper.Number
