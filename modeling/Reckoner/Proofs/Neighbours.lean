import Reckoner.Evaluation.Operation
import Reckoner.Proofs.BinaryExpansion
import Reckoner.Proofs.ExtendedLine

namespace Reckoner

namespace Binary

section

variable {f : BinaryFormat} {x : Binary f}

theorem isNaN_neg (x : Binary f) : x.neg.isNaN = x.isNaN := by
  cases x <;> rfl

theorem signedMagnitude_neg (x : Binary f) : x.neg.signedMagnitude = -x.signedMagnitude := by
  cases x with
  | nan negative => cases negative <;> simp [neg, withSign, signedMagnitude, isNegative, magnitude]
  | infinite negative =>
    cases negative <;> simp [neg, withSign, signedMagnitude, isNegative, magnitude]
  | finite negative rank =>
    cases negative <;> simp [neg, withSign, signedMagnitude, isNegative, magnitude]

theorem neg_eq_infinite_iff (negative : Bool) :
    x.neg = infinite negative ↔ x = infinite (!negative) := by
  cases x <;> simp [neg, withSign, isNegative, Bool.not_eq_eq_eq_not]

theorem signedMagnitude_lt_zero_iff :
    x.signedMagnitude < 0 ↔ x.isNegative = true ∧ 0 < x.magnitude := by
  unfold signedMagnitude
  cases x.isNegative <;> simp

theorem zero_lt_signedMagnitude_iff :
    0 < x.signedMagnitude ↔ x.isNegative = false ∧ 0 < x.magnitude := by
  unfold signedMagnitude
  cases x.isNegative <;> simp

/-- A number is its sign and its magnitude. -/
theorem ofMagnitude_magnitude (x : Binary f) : ofMagnitude x.isNegative x.magnitude = x := by
  cases x with
  | nan => simp [ofMagnitude, isNegative, magnitude]
  | infinite => simp [ofMagnitude, isNegative, magnitude]
  | finite _ rank => exact dif_pos rank.isLt

theorem ofMagnitude_of_not_isNaN {negative : Bool} {n : ℕ}
    (h : (ofMagnitude negative n : Binary f).isNaN = false) :
    (ofMagnitude negative n : Binary f).isNegative = negative ∧
      (ofMagnitude negative n : Binary f).magnitude = n := by
  unfold ofMagnitude at h ⊢
  split
  · exact ⟨rfl, rfl⟩
  · rename_i hge
    rw [dif_neg hge] at h
    split
    · rename_i heq
      exact ⟨rfl, heq.symm⟩
    · rename_i hne
      rw [if_neg hne] at h
      contradiction

theorem ofMagnitude_spec (negative : Bool) {n : ℕ} (h : n ≤ f.ranks) :
    (ofMagnitude negative n : Binary f).isNaN = false ∧
      (ofMagnitude negative n : Binary f).signedMagnitude = if negative then -(n : ℤ) else n := by
  rcases h.lt_or_eq with hlt | rfl
  · rw [ofMagnitude, dif_pos hlt]
    exact ⟨rfl, rfl⟩
  · rw [ofMagnitude, dif_neg (Nat.lt_irrefl _), if_pos rfl]
    exact ⟨rfl, rfl⟩

end

section

variable {x y d : Double} {a b : ExtendedRat} {word : UInt64}

theorem ofBits_eq (negative : Bool) {n : ℕ} (hn : n < 2 ^ 63)
    (hword : word.toNat = (if negative then 2 ^ 63 else 0) + n) :
    ofBits word = ofMagnitude negative n := by
  have hnegative : decide (signBit ≤ word.toNat) = negative := by
    cases negative with
    | false => simpa [signBit_eq, hword] using hn
    | true => simp [signBit_eq, hword]
  have hrest : word.toNat % signBit = n := by
    rw [signBit_eq, hword]
    split <;> omega
  rw [ofBits, hnegative, hrest]

/-- Each number has its word. -/
theorem ofBits_bits (x : Double) : ofBits x.bits = x := by
  rw [ofBits_eq x.isNegative (magnitude_lt_signBit x) (toNat_bits x), ofMagnitude_magnitude]

/-- A word that is not past infinity is the word of its number. -/
theorem bits_ofBits (h : (ofBits word).isNaN = false) : (ofBits word).bits = word := by
  have hlt := word.toNat_lt
  have hsign : word.toNat = (if signBit ≤ word.toNat then 2 ^ 63 else 0) + word.toNat % signBit := by
    rw [signBit_eq]
    split <;> omega
  obtain ⟨hnegative, hmagnitude⟩ := ofMagnitude_of_not_isNaN h
  rw [← UInt64.toNat_inj, toNat_bits, ofBits, hnegative, hmagnitude]
  simpa using hsign.symm

/-- The words of one sign up to infinity are in the order of their magnitudes. -/
theorem ofBits_spec (negative : Bool) {n : ℕ} (hn : n ≤ BinaryFormat.double.ranks)
    (hword : word.toNat = (if negative then 2 ^ 63 else 0) + n) :
    (ofBits word).isNaN = false ∧
      (ofBits word).signedMagnitude = if negative then -(n : ℤ) else n := by
  have hranks := ranks_lt_signBit
  rw [ofBits_eq negative (by omega) hword]
  exact ofMagnitude_spec negative hn

theorem toNat_bits_add_one (hsign : x.isNegative = false) :
    (x.bits + 1).toNat = 0 + (x.magnitude + 1) := by
  have hword := toNat_bits x
  have hbound := magnitude_lt_signBit x
  rw [hsign, if_neg Bool.false_ne_true] at hword
  rw [UInt64.toNat_add, hword]
  change (0 + x.magnitude + 1) % 2 ^ 64 = _
  omega

theorem toNat_bits_sub_one (hsign : x.isNegative = true) (hpos : 0 < x.magnitude) :
    (x.bits - 1).toNat = 2 ^ 63 + (x.magnitude - 1) := by
  have hword := toNat_bits x
  rw [hsign, if_pos rfl] at hword
  have hle : (1 : UInt64) ≤ x.bits := by
    rw [UInt64.le_iff_toNat_le, hword]
    exact Nat.le_add_right_of_le (by decide)
  rw [UInt64.toNat_sub_of_le _ _ hle, hword]
  exact Nat.add_sub_assoc hpos _

/-- One word up, or down where the sign is negative, is one signed rank up. -/
theorem nextUp_spec (hx : x.isNaN = false) (hlast : x ≠ infinite false) :
    x.nextUp.isNaN = false ∧ x.nextUp.signedMagnitude = x.signedMagnitude + 1 := by
  have hle := magnitude_le hx
  rw [nextUp, if_neg (by simp [hx, hlast])]
  rcases lt_trichotomy x.signedMagnitude 0 with h | h | h
  · obtain ⟨hsign, hpos⟩ := signedMagnitude_lt_zero_iff.mp h
    obtain ⟨hnan, hup⟩ := ofBits_spec true (by omega) (toNat_bits_sub_one hsign hpos)
    simp only [compare_lt_iff_lt.mpr h]
    refine ⟨hnan, hup.trans ?_⟩
    rw [signedMagnitude, hsign, if_pos rfl, if_pos rfl]
    omega
  · simp only [compare_eq_iff_eq.mpr h]
    rw [h]
    exact ofBits_spec false (show 1 ≤ BinaryFormat.double.ranks by decide) rfl
  · obtain ⟨hsign, -⟩ := zero_lt_signedMagnitude_iff.mp h
    have hless : x.magnitude < BinaryFormat.double.ranks := by
      cases x with
      | nan => cases hx
      | infinite => exact absurd (congrArg infinite hsign) hlast
      | finite _ rank => exact rank.isLt
    obtain ⟨hnan, hup⟩ := ofBits_spec false hless (toNat_bits_add_one hsign)
    simp only [compare_gt_iff_gt.mpr h]
    refine ⟨hnan, hup.trans ?_⟩
    rw [signedMagnitude, hsign, if_neg Bool.false_ne_true, if_neg Bool.false_ne_true, Nat.cast_succ]

theorem nextDown_spec (hx : x.isNaN = false) (hlast : x ≠ infinite true) :
    x.nextDown.isNaN = false ∧ x.nextDown.signedMagnitude = x.signedMagnitude - 1 := by
  have hneg : x.neg ≠ infinite false := by
    rwa [ne_eq, neg_eq_infinite_iff]
  obtain ⟨hnan, hup⟩ := nextUp_spec ((isNaN_neg x).trans hx) hneg
  refine ⟨(isNaN_neg _).trans hnan, ?_⟩
  rw [nextDown, signedMagnitude_neg, hup, signedMagnitude_neg]
  omega

theorem adjacent_nextUp (hx : x.isNaN = false) (hlast : x ≠ infinite false) :
    Adjacent x x.nextUp :=
  adjacent_of_succ hx (nextUp_spec hx hlast).1 (nextUp_spec hx hlast).2

theorem adjacent_nextDown (hx : x.isNaN = false) (hlast : x ≠ infinite true) :
    Adjacent x.nextDown x := by
  obtain ⟨hnan, hdown⟩ := nextDown_spec hx hlast
  exact adjacent_of_succ hnan hx (by omega)

theorem ne_infinite_false (ha : x.point? = some a) (h : a < b) : x ≠ infinite false := by
  intro hx
  subst hx
  obtain rfl : ⊤ = a := Option.some.inj ha
  exact not_top_lt h

theorem ne_infinite_true (ha : x.point? = some a) (h : b < a) : x ≠ infinite true := by
  intro hx
  subst hx
  obtain rfl : ⊥ = a := Option.some.inj ha
  exact not_lt_bot h

theorem point?_nextDown_nextUp (hx : x.isNaN = false) (hlast : x ≠ infinite false) :
    x.nextUp.nextDown.point? = x.point? := by
  have hup := adjacent_nextUp hx hlast
  obtain ⟨a, b, -, hb, hlt, -⟩ := hup
  have hdown := adjacent_nextDown (nextUp_spec hx hlast).1 (ne_infinite_true hb hlt)
  exact hdown.low_unique (adjacent_nextUp hx hlast)

theorem point?_nextUp_nextDown (hx : x.isNaN = false) (hlast : x ≠ infinite true) :
    x.nextDown.nextUp.point? = x.point? := by
  have hdown := adjacent_nextDown hx hlast
  obtain ⟨a, b, ha, -, hlt, -⟩ := hdown
  have hup := adjacent_nextUp (nextDown_spec hx hlast).1 (ne_infinite_false ha hlt)
  exact hup.high_unique (adjacent_nextDown hx hlast)

theorem nextAfter_of_eq (ha : x.point? = some a) (hb : d.point? = some b) (h : a = b) :
    x.nextAfter d = d := by
  simp only [nextAfter, compare?_eq ha hb, compare_eq_iff_eq.mpr h]

theorem nextAfter_of_lt (ha : x.point? = some a) (hb : d.point? = some b) (h : a < b) :
    x.nextAfter d = x.nextUp := by
  simp only [nextAfter, compare?_eq ha hb, compare_lt_iff_lt.mpr h]

theorem nextAfter_of_gt (ha : x.point? = some a) (hb : d.point? = some b) (h : b < a) :
    x.nextAfter d = x.nextDown := by
  simp only [nextAfter, compare?_eq ha hb, compare_gt_iff_gt.mpr h]

/-- The step toward a number above leads to the one neighbour above, which is not past it. -/
theorem nextAfter_above (ha : x.point? = some a) (hb : d.point? = some b) (h : a < b) :
    (∀ z, Adjacent x z ↔ z.point? = (x.nextAfter d).point?) ∧
      ∃ c, (x.nextAfter d).point? = some c ∧ a < c ∧ c ≤ b := by
  have hnext := adjacent_nextUp (isNaN_of_point? ha) (ne_infinite_false ha h)
  rw [nextAfter_of_lt ha hb h]
  obtain ⟨a', c, ha', hc, hlt, hnone⟩ := hnext
  obtain rfl : a = a' := Option.some.inj (ha.symm.trans ha')
  refine ⟨fun z => ⟨fun hz => ?_, fun hz => ?_⟩, c, hc, hlt, ?_⟩
  · exact hz.high_unique ⟨a, c, ha, hc, hlt, hnone⟩
  · exact ⟨a, c, ha, hz.trans hc, hlt, hnone⟩
  · exact (hnone d b hb).resolve_left h.not_ge

theorem nextAfter_below (ha : x.point? = some a) (hb : d.point? = some b) (h : b < a) :
    (∀ z, Adjacent z x ↔ z.point? = (x.nextAfter d).point?) ∧
      ∃ c, (x.nextAfter d).point? = some c ∧ b ≤ c ∧ c < a := by
  have hnext := adjacent_nextDown (isNaN_of_point? ha) (ne_infinite_true ha h)
  rw [nextAfter_of_gt ha hb h]
  obtain ⟨c, a', hc, ha', hlt, hnone⟩ := hnext
  obtain rfl : a = a' := Option.some.inj (ha.symm.trans ha')
  refine ⟨fun z => ⟨fun hz => ?_, fun hz => ?_⟩, c, hc, ?_, hlt⟩
  · exact hz.low_unique ⟨c, a, hc, ha, hlt, hnone⟩
  · exact ⟨c, a, hz.trans hc, ha, hlt, hnone⟩
  · exact (hnone d b hb).resolve_right h.not_ge

end

end Binary

namespace Operation

open Binary

/-- The steps up and down lead to the numbers next to a double on the line, and undo each other. The
step toward a direction leads to the neighbour on its side and not past it. Doubles are the words of
the machine, where the words past infinity are NaN. -/
theorem neighbours_adjacent (x d : Double) :
    ofBits x.bits = x ∧
    (∀ word, (ofBits word).isNaN = false → (ofBits word).bits = word) ∧
    (invoke "nextUp" [.double x]).result = .ok (.double x.nextUp) ∧
    (invoke "nextDown" [.double x]).result = .ok (.double x.nextDown) ∧
    (invoke "nextAfter" [.double x, .double d]).result = .ok (.double (x.nextAfter d)) ∧
    (x.isNaN = false → x ≠ infinite false → Adjacent x x.nextUp) ∧
    (x.isNaN = false → x ≠ infinite true → Adjacent x.nextDown x) ∧
    (x.isFinite → x.nextUp.nextDown.point? = x.point? ∧ x.nextDown.nextUp.point? = x.point?) ∧
    ∀ a b, x.point? = some a → d.point? = some b →
      (a = b → x.nextAfter d = d) ∧
      (a < b → (∀ z, Adjacent x z ↔ z.point? = (x.nextAfter d).point?) ∧
        ∃ c, (x.nextAfter d).point? = some c ∧ a < c ∧ c ≤ b) ∧
      (b < a → (∀ z, Adjacent z x ↔ z.point? = (x.nextAfter d).point?) ∧
        ∃ c, (x.nextAfter d).point? = some c ∧ b ≤ c ∧ c < a) := by
  refine ⟨ofBits_bits x, fun word => bits_ofBits, invoke_unary rfl x, invoke_unary rfl x,
    invoke_binary rfl x d, adjacent_nextUp, adjacent_nextDown, fun hx => ?_,
    fun a b ha hb => ⟨?_, ?_, ?_⟩⟩
  · cases x with
    | nan => cases hx
    | infinite => cases hx
    | finite =>
      exact ⟨point?_nextDown_nextUp rfl nofun, point?_nextUp_nextDown rfl nofun⟩
  · exact nextAfter_of_eq ha hb
  · exact nextAfter_above ha hb
  · exact nextAfter_below ha hb

/-- The last finite number has infinity above it, which the step toward infinity reaches, and a
finite number below. -/
theorem neighbours_adjacent_last :
    let x : Double := finite false ⟨BinaryFormat.double.ranks - 1, by decide⟩
    (ofBits 0x7FEFFFFFFFFFFFFF).bits = 0x7FEFFFFFFFFFFFFF ∧
    x.isNaN = false ∧ x ≠ infinite false ∧ x ≠ infinite true ∧ x.isFinite ∧
    x.nextUp = infinite false ∧ Adjacent x x.nextUp ∧ Adjacent x.nextDown x ∧
    x.nextUp.nextDown.point? = x.point? ∧ x.nextAfter x = x ∧
    (∀ z, Adjacent x z ↔ z.point? = (x.nextAfter (infinite false)).point?) ∧
    ∀ z, Adjacent z x ↔ z.point? = (x.nextAfter (infinite true)).point? := by
  intro x
  have hx : x.point? = some ((x.stored : WithTop ℚ) : ExtendedRat) := rfl
  have htop : (infinite false : Double).point? = some ((⊤ : WithTop ℚ) : ExtendedRat) := rfl
  have hbot : (infinite true : Double).point? = some ⊥ := rfl
  obtain ⟨-, hword, -, -, -, hup, hdown, hback, htoward⟩ := neighbours_adjacent x (infinite false)
  obtain ⟨-, -, -, -, -, -, -, -, hself⟩ := neighbours_adjacent x x
  obtain ⟨-, -, -, -, -, -, -, -, haway⟩ := neighbours_adjacent x (infinite true)
  refine ⟨hword _ (by decide +kernel), rfl, nofun, nofun, rfl, ?_, hup rfl nofun, hdown rfl nofun,
    (hback rfl).1, (hself _ _ hx hx).1 rfl, ?_, ?_⟩
  · decide +kernel
  · exact ((htoward _ _ hx htop).2.1 (WithBot.coe_lt_coe.mpr (WithTop.coe_lt_top _))).1
  · exact ((haway _ _ hx hbot).2.2 (WithBot.bot_lt_coe _)).1

end Operation

end Reckoner
