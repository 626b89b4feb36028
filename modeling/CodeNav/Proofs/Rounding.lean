import CodeNav.Number.Binary64

/-!
The whole numbers that have a nearest double-precision number. A quotient is rounded to the nearest
whole number, so the numbers that are rounded beyond the largest one begin half a unit below two to
the power 1024 (`Binary64.ofInt?_isSome_iff`).
-/

namespace CodeNav.Binary64

theorem div_le_roundDiv (num den : Nat) : num / den ≤ roundDiv num den := by
  unfold roundDiv
  dsimp only
  split
  · omega
  · split <;> omega

theorem roundDiv_le (num den : Nat) : roundDiv num den ≤ num / den + 1 := by
  unfold roundDiv
  dsimp only
  split
  · omega
  · split <;> omega

/-- A quotient is rounded below an even number exactly when it lies more than a half below. -/
theorem roundDiv_lt_iff {num den c : Nat} (hden : 0 < den) (hc : c % 2 = 0) :
    roundDiv num den < c ↔ 2 * num + den < 2 * (c * den) := by
  have hnum : num = num / den * den + num % den := (Nat.div_add_mod' num den).symm
  have hrest := Nat.mod_lt num hden
  unfold roundDiv
  dsimp only
  generalize num / den = q at *
  generalize num % den = r at *
  rcases Nat.lt_trichotomy c (q + 1) with hlt | rfl | hgt
  · have hle : c * den ≤ q * den := Nat.mul_le_mul_right den (by omega)
    split
    · omega
    · split <;> omega
  · have heq : (q + 1) * den = q * den + den := Nat.succ_mul q den
    split
    · omega
    · split <;> omega
  · have hle : (q + 2) * den ≤ c * den := Nat.mul_le_mul_right den (by omega)
    have heq : (q + 2) * den = q * den + 2 * den := Nat.add_mul q 2 den
    split
    · omega
    · split <;> omega

theorem pow_add (base m n : Nat) :
    Nat.pow base (m + n) = Nat.pow base m * Nat.pow base n := Nat.pow_add base m n

theorem pow_le_pow (m n : Nat) (h : m ≤ n) : Nat.pow 2 m ≤ Nat.pow 2 n :=
  Nat.pow_le_pow_right (by decide) h

theorem pow_pos (n : Nat) : 0 < Nat.pow 2 n := Nat.two_pow_pos n

/-- In the units that its binary logarithm gives, a number is at least 2^52 and less than 2^53. -/
theorem scale_log2 {n : Nat} (hn : n ≠ 0) :
    let s := scale 2 ((Nat.log2 n : Int) - 52)
    Nat.pow 2 52 * s.1 ≤ n * s.2 ∧ n * s.2 < Nat.pow 2 53 * s.1 := by
  have hle : Nat.pow 2 (Nat.log2 n) ≤ n := Nat.log2_self_le hn
  have hlt : n < Nat.pow 2 (Nat.log2 n + 1) := Nat.lt_log2_self
  generalize Nat.log2 n = l at *
  have hsucc : Nat.pow 2 (l + 1) = Nat.pow 2 l * 2 := rfl
  intro s
  by_cases hl : 52 ≤ l
  · have hup : s.1 = Nat.pow 2 (l - 52) := by
      show Nat.pow 2 _ = _
      congr 1
      omega
    have hdown : s.2 = 1 := by
      show Nat.pow 2 _ = Nat.pow 2 0
      congr 1
      omega
    have hpow : Nat.pow 2 52 * Nat.pow 2 (l - 52) = Nat.pow 2 l := by
      rw [← pow_add]
      congr 1
      omega
    have hdouble : Nat.pow 2 53 * Nat.pow 2 (l - 52) = Nat.pow 2 l * 2 := by
      rw [← hpow]
      have htwice : Nat.pow 2 53 = 2 * Nat.pow 2 52 := by decide
      rw [htwice, Nat.mul_assoc, Nat.mul_comm]
    rw [hup, hdown, hpow, hdouble]
    omega
  · have hup : s.1 = 1 := by
      show Nat.pow 2 _ = Nat.pow 2 0
      congr 1
      omega
    have hdown : s.2 = Nat.pow 2 (52 - l) := by
      show Nat.pow 2 _ = _
      congr 1
      omega
    have hpow : Nat.pow 2 l * Nat.pow 2 (52 - l) = Nat.pow 2 52 := by
      rw [← pow_add]
      congr 1
      omega
    have hpow' : Nat.pow 2 (l + 1) * Nat.pow 2 (52 - l) = Nat.pow 2 53 := by
      rw [← pow_add]
      congr 1
      omega
    rw [hup, hdown]
    refine ⟨?_, ?_⟩
    · calc Nat.pow 2 52 * 1
          = Nat.pow 2 l * Nat.pow 2 (52 - l) := by rw [Nat.mul_one, hpow]
        _ ≤ n * Nat.pow 2 (52 - l) := Nat.mul_le_mul_right _ hle
    · calc n * Nat.pow 2 (52 - l)
          < Nat.pow 2 (l + 1) * Nat.pow 2 (52 - l) :=
            Nat.mul_lt_mul_of_pos_right hlt (pow_pos _)
        _ = Nat.pow 2 53 * 1 := by rw [Nat.mul_one, hpow']

theorem unitExponent_one {n : Nat} (hn : n ≠ 0) :
    unitExponent n 1 = (Nat.log2 n : Int) - 52 := by
  have hlog : Nat.log2 1 = 0 := by decide
  have hscale := (scale_log2 hn).1
  unfold unitExponent
  rw [hlog]
  have hq : (Nat.log2 n : Int) - ((0 : Nat) : Int) - 52 = (Nat.log2 n : Int) - 52 := by omega
  rw [hq]
  dsimp only at hscale ⊢
  rw [Nat.one_mul, if_neg (by omega)]
  omega

def rounded (n : Nat) : Nat :=
  let (up, down) := scale 2 ((Nat.log2 n : Int) - 52)
  roundDiv (n * down) up

/-- The bits of a number: the exponent counts from the one of the smallest units, and the first of
the 53 places of the units counts as one more. -/
theorem nearestBits_one {n : Nat} (hn : n ≠ 0) :
    Nat.pow 2 52 ≤ rounded n ∧ rounded n ≤ Nat.pow 2 53 ∧ nearestBits n 1 =
      min ((Nat.log2 n + 1022) * Nat.pow 2 52 + rounded n) (2047 * Nat.pow 2 52) := by
  obtain ⟨hle, hlt⟩ := scale_log2 hn
  have hpos : 0 < (scale 2 ((Nat.log2 n : Int) - 52)).1 := pow_pos _
  have hlow := (Nat.le_div_iff_mul_le hpos).mpr hle
  have hhigh := (Nat.div_lt_iff_lt_mul hpos).mpr hlt
  have hfull : Nat.pow 2 52 ≤ rounded n := Nat.le_trans hlow (div_le_roundDiv _ _)
  have hexponent : (((Nat.log2 n : Int) - 52) + 1074).toNat = Nat.log2 n + 1022 := by omega
  refine ⟨hfull, Nat.le_trans (roundDiv_le _ _) hhigh, ?_⟩
  unfold rounded at hfull ⊢
  unfold nearestBits
  rw [if_neg hn, unitExponent_one hn]
  dsimp only at hfull ⊢
  rw [Nat.one_mul, hexponent, if_neg (Nat.not_lt.mpr hfull)]

def halfUnitBelow (e : Nat) : Nat := Nat.pow 2 e * (Nat.pow 2 54 - 1)

/-- Where the power of two is the next one, the rounding decides: what comes to 2^53 units is too
large. -/
theorem rounded_lt_iff {e n : Nat} (hlog : Nat.log2 n = e + 53) :
    rounded n < Nat.pow 2 53 ↔ n < halfUnitBelow e := by
  have hup : (scale 2 ((Nat.log2 n : Int) - 52)).1 = 2 * Nat.pow 2 e := by
    have hexponent : ((Nat.log2 n : Int) - 52).toNat = e + 1 := by omega
    show Nat.pow 2 ((Nat.log2 n : Int) - 52).toNat = _
    rw [hexponent, Nat.mul_comm]
    rfl
  have hdown : (scale 2 ((Nat.log2 n : Int) - 52)).2 = 1 := by
    have hexponent : (-((Nat.log2 n : Int) - 52)).toNat = 0 := by omega
    show Nat.pow 2 (-((Nat.log2 n : Int) - 52)).toNat = _
    rw [hexponent]
  have hunits : 2 * (Nat.pow 2 53 * (2 * Nat.pow 2 e)) = 2 * (Nat.pow 2 e * Nat.pow 2 54) := by
    have hdouble : Nat.pow 2 54 = 2 * Nat.pow 2 53 := by decide
    rw [hdouble, Nat.mul_left_comm (Nat.pow 2 53), Nat.mul_left_comm (Nat.pow 2 e),
      Nat.mul_comm (Nat.pow 2 e)]
  have hpos : Nat.pow 2 e ≤ Nat.pow 2 e * Nat.pow 2 54 := Nat.le_mul_of_pos_right _ (pow_pos 54)
  unfold rounded halfUnitBelow
  dsimp only
  rw [hup, hdown, Nat.mul_one, roundDiv_lt_iff (Nat.mul_pos (by decide) (pow_pos e)) (by decide),
    hunits, Nat.mul_sub_one]
  generalize Nat.pow 2 e * Nat.pow 2 54 = limit at *
  generalize Nat.pow 2 e = unit at *
  clear hunits
  omega

theorem min_lt_iff_of_le {a b c : Nat} (h : c ≤ b) : min a b < c ↔ a < c := by
  omega

/-- A number is rounded below a power of two exactly when it is below it by more than half a unit of
the numbers there. -/
theorem nearestBits_lt_iff {e n : Nat} (he : e ≤ 970) :
    nearestBits n 1 < (e + 1077) * Nat.pow 2 52 ↔ n < halfUnitBelow e := by
  by_cases hn : n = 0
  · subst hn
    exact iff_of_true (Nat.mul_pos (by omega) (pow_pos 52)) (Nat.mul_pos (pow_pos e) (by decide))
  obtain ⟨hfull, hupper, hbits⟩ := nearestBits_one hn
  have hround := @rounded_lt_iff e n
  have hdouble : Nat.pow 2 53 = 2 * Nat.pow 2 52 := by decide
  rw [hbits]
  rw [hdouble] at hupper hround
  have hmax : (e + 1077) * Nat.pow 2 52 ≤ 2047 * Nat.pow 2 52 :=
    Nat.mul_le_mul_right _ (Nat.add_le_add_right he 1077)
  rw [min_lt_iff_of_le hmax]
  rcases Nat.lt_trichotomy (Nat.log2 n) (e + 53) with hlog | hlog | hlog
  · refine iff_of_true ?_ ?_
    · calc (Nat.log2 n + 1022) * Nat.pow 2 52 + rounded n
          ≤ (Nat.log2 n + 1022) * Nat.pow 2 52 + 2 * Nat.pow 2 52 := Nat.add_le_add_left hupper _
        _ = (Nat.log2 n + 1022 + 2) * Nat.pow 2 52 := (Nat.add_mul _ 2 _).symm
        _ < (e + 1077) * Nat.pow 2 52 := Nat.mul_lt_mul_of_pos_right (by omega) (pow_pos 52)
    · calc n
          < Nat.pow 2 (Nat.log2 n + 1) := Nat.lt_log2_self
        _ ≤ Nat.pow 2 (e + 53) := pow_le_pow _ _ hlog
        _ = Nat.pow 2 e * Nat.pow 2 53 := pow_add 2 e 53
        _ ≤ Nat.pow 2 e * (Nat.pow 2 54 - 1) := Nat.mul_le_mul_left _ (by decide)
  · rw [hlog]
    have hsplit : (e + 1077) * Nat.pow 2 52 = (e + 53 + 1022) * Nat.pow 2 52 + 2 * Nat.pow 2 52 :=
      Nat.add_mul (e + 53 + 1022) 2 _
    rw [hsplit, Nat.add_lt_add_iff_left]
    exact hround hlog
  · refine iff_of_false (Nat.not_lt.mpr ?_) (Nat.not_lt.mpr ?_)
    · calc (e + 1077) * Nat.pow 2 52
          ≤ (Nat.log2 n + 1022 + 1) * Nat.pow 2 52 :=
            Nat.mul_le_mul_right _ (Nat.add_le_add_right hlog 1023)
        _ = (Nat.log2 n + 1022) * Nat.pow 2 52 + 1 * Nat.pow 2 52 := Nat.add_mul _ 1 _
        _ ≤ (Nat.log2 n + 1022) * Nat.pow 2 52 + rounded n := by
          rw [Nat.one_mul]
          exact Nat.add_le_add_left hfull _
    · calc Nat.pow 2 e * (Nat.pow 2 54 - 1)
          ≤ Nat.pow 2 e * Nat.pow 2 54 := Nat.mul_le_mul_left _ (by decide)
        _ = Nat.pow 2 (e + 54) := (pow_add 2 e 54).symm
        _ ≤ Nat.pow 2 (Nat.log2 n) := pow_le_pow _ _ hlog
        _ ≤ n := Nat.log2_self_le hn

/-- The first whole number that is rounded beyond the largest number. -/
def overflow : Nat := halfUnitBelow 970

/-- A whole number has a nearest number exactly when it is more than half a unit below 2^1024. -/
theorem ofInt?_isSome_iff {n : Int} : (ofInt? n).isSome ↔ n.natAbs < overflow := by
  have hsome : (ofInt? n).isSome ↔ nearestBits n.natAbs 1 < (970 + 1077) * Nat.pow 2 52 := by
    unfold ofInt?
    dsimp only
    split
    · next h => exact iff_of_true rfl h
    · next h => exact iff_of_false Bool.false_ne_true h
  exact hsome.trans (nearestBits_lt_iff (Nat.le_refl 970))

end CodeNav.Binary64
