import DocumentMapper.Proofs.Value.Equality
import Mathlib

/-!
# Numbers in units of the least one

Every finite number is a multiple of the least positive one, so that its size is a natural number of
such units. The digits with which a number is stored can be told from its size, since no more of
them are kept than there must be; hence two numbers of one value have the same bits, or both are
zero. Equality of numbers of different kinds is an equivalence for this reason.
-/

namespace DocumentMapper.Number

/-! ## Bits -/

open Float.Model Float.Model.UnpackedFloat in
/-- Bits of which the exponent is not the greatest one are the bits of a number. -/
theorem toBits_ofBits {bits : UInt64} (h : bits.toNat / 2 ^ 52 % 2 ^ 11 ≠ 2047) :
    (Float.ofBits bits).toBits = bits := by
  have hvalid : Format.binary64.Valid bits.toBitVec := by
    refine ⟨fun hexponent => absurd ?_ h⟩
    have hnat := congrArg BitVec.toNat hexponent
    rw [unpackExponent_def, BitVec.extractLsb'_toNat, Nat.shiftRight_eq_div_pow] at hnat
    exact hnat
  show UInt64.ofBitVec (pack Format.binary64 (unpack Format.binary64 bits.toBitVec)) = bits
  rw [pack_unpack_of_valid hvalid]

namespace Dyadic

variable {d d' : Dyadic} {x y : Float} {n : Int}

/-- The least positive number is `2 ^ -depth`. -/
def depth : Nat := 1074

/-- One in units of the least positive number. -/
def one : Nat := 2 ^ depth

theorem one_pos : 0 < one := Nat.two_pow_pos depth

/-- The size of a number in units of the least positive one. -/
def units (d : Dyadic) : Nat :=
  d.mantissa * 2 ^ (d.exponent + 1074).toNat

/-- A number as it is stored: with 53 digits, unless its exponent is the least one. -/
structure Normal (d : Dyadic) : Prop where
  mantissa_lt : d.mantissa < 2 ^ 53
  exponent_ge : -1074 ≤ d.exponent
  full : d.exponent = -1074 ∨ 2 ^ 52 ≤ d.mantissa

theorem normal_of_ofFloat? (h : ofFloat? x = some d) : d.Normal := by
  unfold ofFloat? at h
  simp only [Nat.pow_eq] at h
  split_ifs at h <;> cases h
  · constructor
    · simp only
      omega
    · exact le_rfl
    · exact .inl rfl
  · constructor
    · simp only
      omega
    · simp only
      omega
    · right
      simp only
      omega

theorem ratio_pos (d : Dyadic) : 0 < d.ratio.2 := by
  unfold ratio
  split
  · exact Nat.one_pos
  · exact Nat.two_pow_pos _

theorem ratio_units (h : d.Normal) : d.ratio.1 * one = d.units * d.ratio.2 := by
  have hge := h.exponent_ge
  obtain ⟨negative, m, q⟩ := d
  cases q with
  | ofNat k =>
    have hexponent : (Int.ofNat k + 1074).toNat = k + depth := rfl
    simp only [ratio, units, one, Nat.pow_eq, hexponent, Nat.pow_add, Nat.mul_assoc, Nat.mul_one]
  | negSucc k =>
    have hexponent : depth = (Int.negSucc k + 1074).toNat + (k + 1) := by
      simp only [depth] at hge ⊢
      omega
    simp only [ratio, units, one, Nat.pow_eq]
    rw [Nat.mul_assoc, ← Nat.pow_add, ← hexponent]

theorem ceiling_nonneg (hsign : d.negative = false) : 0 ≤ d.ceiling := by
  unfold ceiling truncate
  simp only [hsign, Bool.false_or, Bool.false_eq_true, if_false]
  generalize d.ratio.1 / d.ratio.2 = size
  split <;> omega

/-- A number that is not negative is rounded up to the least integer that is not below it. -/
theorem ceiling_le_iff (hsign : d.negative = false) (h : d.Normal) (k : Nat) :
    d.ceiling ≤ k ↔ d.units ≤ k * one := by
  have hpos := d.ratio_pos
  have hdivision := Nat.div_add_mod d.ratio.1 d.ratio.2
  have hratio : d.ceiling ≤ k ↔ d.ratio.1 ≤ k * d.ratio.2 := by
    unfold ceiling isInteger truncate
    simp only [hsign, Bool.false_or, Bool.false_eq_true, if_false, beq_iff_eq]
    split
    · next hinteger =>
      rw [hinteger, Nat.add_zero] at hdivision
      rw [Nat.cast_le, ← hdivision, Nat.mul_div_cancel_left _ hpos, Nat.mul_comm k]
      exact (Nat.mul_le_mul_left_iff hpos).symm
    · next hinteger =>
      have hne : d.ratio.1 ≠ k * d.ratio.2 := by
        intro heq
        apply hinteger
        rw [heq, Nat.mul_mod_left]
      have hbelow : d.ratio.1 / d.ratio.2 < k ↔ d.ratio.1 < k * d.ratio.2 :=
        Nat.div_lt_iff_lt_mul hpos
      omega
  have hunits := ratio_units h
  calc d.ceiling ≤ k
    _ ↔ d.ratio.1 * one ≤ k * d.ratio.2 * one := by
      rw [hratio, Nat.mul_le_mul_right_iff one_pos]
    _ ↔ d.units * d.ratio.2 ≤ k * one * d.ratio.2 := by
      rw [hunits, Nat.mul_right_comm]
    _ ↔ d.units ≤ k * one := Nat.mul_le_mul_right_iff hpos

/-- An integer that a number equals is as large as the number in units. -/
theorem units_of_sameInt (hx : ofFloat? x = some d) (h : sameInt n x = true) :
    d.units = n.natAbs * one ∧ (0 < n → d.negative = false) ∧ (n < 0 → d.negative = true) := by
  have hpos := d.ratio_pos
  have hunits := ratio_units (normal_of_ofFloat? hx)
  simp only [sameInt, hx, isInteger, truncate, Bool.and_eq_true, beq_iff_eq] at h
  obtain ⟨hinteger, htruncate⟩ := h
  have hdivision := Nat.div_add_mod d.ratio.1 d.ratio.2
  rw [hinteger, Nat.add_zero] at hdivision
  generalize d.ratio.1 / d.ratio.2 = size at htruncate hdivision
  constructor
  · have hsize : size = n.natAbs := by
      split at htruncate <;> omega
    apply Nat.eq_of_mul_eq_mul_right hpos
    rw [← hunits, ← hdivision, hsize]
    ring
  · cases hsign : d.negative <;> simp [hsign] at htruncate ⊢ <;> omega

/-- Two numbers as they are stored that are equally large have the same digits. -/
theorem eq_of_units (h : d.Normal) (h' : d'.Normal) (hunits : d.units = d'.units) :
    d.mantissa = d'.mantissa ∧ d.exponent = d'.exponent := by
  wlog hle : d.exponent ≤ d'.exponent generalizing d d'
  · obtain ⟨hmantissa, hexponent⟩ := this h' h hunits.symm (by omega)
    exact ⟨hmantissa.symm, hexponent.symm⟩
  obtain ⟨k, hk⟩ : ∃ k : Nat, (d'.exponent + 1074).toNat = k + (d.exponent + 1074).toNat :=
    ⟨(d'.exponent - d.exponent).toNat, by have := h.exponent_ge; omega⟩
  have hmantissa : d.mantissa = d'.mantissa * 2 ^ k := by
    unfold units at hunits
    rw [hk, Nat.pow_add, ← Nat.mul_assoc] at hunits
    exact Nat.eq_of_mul_eq_mul_right (Nat.two_pow_pos _) hunits
  cases k with
  | zero =>
    have := h.exponent_ge
    have := h'.exponent_ge
    exact ⟨by simpa using hmantissa, by omega⟩
  | succ k =>
    -- The exponent that is greater is not the least one, so its number has all of its digits.
    exfalso
    have hlt := h.mantissa_lt
    have hfull : 2 ^ 52 ≤ d'.mantissa := h'.full.resolve_left (by have := h.exponent_ge; omega)
    have hpower : 1 ≤ 2 ^ k := Nat.one_le_two_pow
    rw [Nat.pow_succ] at hmantissa
    nlinarith

/-- A number is told by its sign and its digits. -/
theorem eq_of_ofFloat? (hx : ofFloat? x = some d) (hy : ofFloat? y = some d) : x = y := by
  apply Float.toBits_inj.1
  apply UInt64.toNat_inj.1
  have hltx := x.toBits.toNat_lt
  have hlty := y.toBits.toNat_lt
  unfold ofFloat? at hx hy
  simp only [Nat.pow_eq] at hx hy
  split_ifs at hx hy <;> simp only [Option.some.injEq] at hx hy <;> subst hx <;>
    simp only [mk.injEq, Bool.beq_eq_decide_eq, decide_eq_decide] at hy <;> omega

theorem isZero_iff (h : ofFloat? x = some d) : isZero x = true ↔ d.mantissa = 0 := by
  unfold ofFloat? at h
  simp only [Nat.pow_eq] at h
  unfold isZero
  rw [beq_iff_eq, Nat.pow_eq]
  split_ifs at h <;> simp only [Option.some.injEq] at h <;> subst h <;>
    simp only <;> omega

end Dyadic

/-! ## Equality of numbers -/

variable {x y : Float} {n : Int}

theorem exists_of_sameInt (h : sameInt n x = true) : ∃ d, Dyadic.ofFloat? x = some d := by
  unfold sameInt at h
  split at h
  · next d hd => exact ⟨d, hd⟩
  · cases h

theorem exists_of_isZero (h : isZero x = true) :
    ∃ d, Dyadic.ofFloat? x = some d ∧ d.mantissa = 0 := by
  have hzero : x.toBits.toNat % 2 ^ 63 = 0 := beq_iff_eq.1 h
  cases hx : Dyadic.ofFloat? x with
  | none =>
    unfold Dyadic.ofFloat? at hx
    simp only [Nat.pow_eq] at hx
    split_ifs at hx
    omega
  | some d => exact ⟨d, rfl, (Dyadic.isZero_iff hx).1 h⟩

theorem sameInt_zero_iff : sameInt 0 x = true ↔ isZero x = true := by
  constructor
  · intro h
    obtain ⟨d, hd⟩ := exists_of_sameInt h
    have hunits := (Dyadic.units_of_sameInt hd h).1
    rw [Dyadic.isZero_iff hd]
    simpa [Dyadic.units] using hunits
  · intro h
    obtain ⟨d, hd, hmantissa⟩ := exists_of_isZero h
    have hratio : d.ratio.1 = 0 := by
      unfold Dyadic.ratio
      split <;> simp [hmantissa]
    simp [sameInt, hd, Dyadic.isInteger, Dyadic.truncate, hratio]

/-- A number equals one integer at most. -/
theorem eq_of_sameInt {k : Int} (h : sameInt n x = true) (h' : sameInt k x = true) : n = k := by
  obtain ⟨d, hd⟩ := exists_of_sameInt h
  simp only [sameInt, hd, Bool.and_eq_true, beq_iff_eq] at h h'
  exact h.2.symm.trans h'.2

theorem sameFloat_comm (x y : Float) : sameFloat x y = sameFloat y x :=
  Bool.beq_comm

/-- Two numbers that equal the same integer are equal. -/
theorem sameFloat_of_sameInt (h : sameInt n x = true) (h' : sameInt n y = true) :
    sameFloat x y = true := by
  obtain ⟨d, hd⟩ := exists_of_sameInt h
  obtain ⟨d', hd'⟩ := exists_of_sameInt h'
  obtain ⟨hunits, hsign⟩ := Dyadic.units_of_sameInt hd h
  obtain ⟨hunits', hsign'⟩ := Dyadic.units_of_sameInt hd' h'
  obtain ⟨hmantissa, hexponent⟩ := Dyadic.eq_of_units (Dyadic.normal_of_ofFloat? hd)
    (Dyadic.normal_of_ofFloat? hd') (hunits.trans hunits'.symm)
  by_cases hn : n = 0
  · have hzero : d.mantissa = 0 := by
      simpa [hn, Dyadic.units] using hunits
    have hx := (Dyadic.isZero_iff hd).2 hzero
    have hy := (Dyadic.isZero_iff hd').2 (hmantissa ▸ hzero)
    simp [sameFloat, identityBits, hx, hy]
  · have hnegative : d.negative = d'.negative := by
      rcases lt_or_gt_of_ne hn with hlt | hgt
      · rw [hsign.2 hlt, hsign'.2 hlt]
      · rw [hsign.1 hgt, hsign'.1 hgt]
    have heq : d = d' := by
      cases d
      cases d'
      simp_all
    rw [Dyadic.eq_of_ofFloat? hd (heq ▸ hd')]
    exact beq_self_eq_true _

/-- Of two equal numbers both are zero or they are the same. -/
theorem eq_of_sameFloat (hx : isNotANumber x = false) (h : sameFloat x y = true) :
    isZero x = true ∧ isZero y = true ∨ x = y := by
  have hltx := x.toBits.toNat_lt
  have hlty := y.toBits.toNat_lt
  have hbits : identityBits x = identityBits y := beq_iff_eq.1 h
  unfold identityBits isZero at hbits
  simp only [hx, Bool.false_eq_true, if_false, beq_iff_eq, Nat.pow_eq] at hbits
  simp only [isZero, beq_iff_eq, Nat.pow_eq]
  split_ifs at hbits
  · left
    omega
  · omega
  · omega
  · omega
  · right
    exact Float.toBits_inj.1 (UInt64.toNat_inj.1 hbits)

/-- What equals a number that equals an integer equals the integer. -/
theorem sameInt_of_sameFloat (h : sameInt n x = true) (hxy : sameFloat x y = true) :
    sameInt n y = true := by
  obtain ⟨hx, hy⟩ | rfl := eq_of_sameFloat (isNotANumber_of_sameInt h) hxy
  · obtain ⟨d, hd, hmantissa⟩ := exists_of_isZero hx
    have hunits := (Dyadic.units_of_sameInt hd h).1
    have hn : n = 0 := by
      simpa [Dyadic.units, hmantissa, Dyadic.one_pos.ne'] using hunits.symm
    subst hn
    exact sameInt_zero_iff.2 hy
  · exact h

end DocumentMapper.Number
