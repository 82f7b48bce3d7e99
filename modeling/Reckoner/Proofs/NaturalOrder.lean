import Mathlib.Data.Prod.Lex
import Mathlib.Data.String.Basic
import Mathlib.Data.Sum.Order
import Reckoner.Proofs.BinaryNearest
import Reckoner.Proofs.ShownNumber
import Reckoner.Value.Order

namespace Reckoner

theorem compare_congr {α β : Type} [LinearOrder α] [LinearOrder β] {a b : α} {c d : β}
    (hlt : a < b ↔ c < d) (hgt : b < a ↔ d < c) : compare a b = compare c d := by
  rcases lt_trichotomy a b with h | rfl | h
  · rw [compare_lt_iff_lt.mpr h, compare_lt_iff_lt.mpr (hlt.mp h)]
  · have hsame : c = d := le_antisymm (not_lt.mp (hgt.not.mp (lt_irrefl a)))
      (not_lt.mp (hlt.not.mp (lt_irrefl a)))
    rw [compare_eq_iff_eq.mpr rfl, compare_eq_iff_eq.mpr hsame]
  · rw [compare_gt_iff_gt.mpr h, compare_gt_iff_gt.mpr (hgt.mp h)]

namespace Binary

variable {f : BinaryFormat} {x y : Binary f}

/-- How far a number is past the finite ones, with its sign: infinity by one and NaN by two. All
finite numbers are in the region zero. -/
def region (x : Binary f) : ℤ :=
  if x.isNegative then -((x.magnitude + 1 - f.ranks : ℕ) : ℤ) else (x.magnitude + 1 - f.ranks : ℕ)

theorem isFinite_iff : x.isFinite ↔ x.magnitude < f.ranks := by
  cases x <;> simp [isFinite, magnitude]

theorem region_eq_zero_iff : x.region = 0 ↔ x.isFinite := by
  rw [isFinite_iff, region]
  split <;> omega

/-- Unless both are finite, the regions decide. -/
theorem totalCompare_eq (h : ¬x.isFinite ∨ ¬y.isFinite) :
    x.totalCompare y = compare x.region y.region := by
  rw [isFinite_iff, isFinite_iff, not_lt, not_lt] at h
  unfold totalCompare region
  cases x.isNegative <;> cases y.isNegative <;> simp only [if_true, if_false, Bool.false_eq_true]
  case false.false => exact compare_congr (by omega) (by omega)
  case false.true => exact (compare_gt_iff_gt.mpr (by omega)).symm
  case true.false => exact (compare_lt_iff_lt.mpr (by omega)).symm
  case true.true => exact compare_congr (by omega) (by omega)

/-- Only what is past the last finite number is rounded to infinity. -/
theorem Rounds.isFinite {negative : Bool} {q : ℚ} (h : x.Rounds negative q)
    (hq : q ≤ f.value (f.ranks - 1)) : x.isFinite := by
  cases x with
  | nan => exact h.elim
  | infinite sign =>
    obtain ⟨-, rank, hrank, hnear⟩ := h
    have hle := hnear.le_of_le_value hq
    have hpos := f.ranks_pos
    omega
  | finite sign rank => rfl

end Binary

/-- All singles, decimals and integers are well within the doubles. -/
theorem ten_pow_le_lastDouble :
    (10 : ℚ) ^ 149 ≤ BinaryFormat.double.value (BinaryFormat.double.ranks - 1) := by
  have hunits : 10 ^ 149 * BinaryFormat.double.scale ≤
      BinaryFormat.double.units (BinaryFormat.double.ranks - 1) := by
    decide +kernel
  rw [BinaryFormat.value, le_div_iff₀ (by exact_mod_cast BinaryFormat.double.scale_pos)]
  exact_mod_cast hunits

theorem Binary.convert_isFinite (negative : Bool) (rank : Fin BinaryFormat.single.ranks) :
    ((Binary.finite negative rank).convert : Double).isFinite := by
  have hrounds := Binary.ofRatio_rounds (f := .double) negative
    (BinaryFormat.single.units rank) BinaryFormat.single.scale_pos
  have hvalue : BinaryFormat.single.value rank ≤ 10 ^ 149 :=
    (BinaryFormat.single.value_strictMono rank.isLt).le.trans BinaryFormat.single.value_ranks_le
  exact hrounds.isFinite (hvalue.trans ten_pow_le_lastDouble)

theorem Binary.ofInt_isFinite (n : Int64) : (Binary.ofInt n.toInt : Double).isFinite := by
  have hrounds := Binary.ofRatio_rounds (f := .double) (decide (n.toInt < 0)) n.toInt.natAbs
    Nat.one_pos
  have hsize : n.toInt.natAbs ≤ 10 ^ 149 := by
    have hlow : -2 ^ 63 ≤ n.toInt := n.minValue_le_toInt
    have hhigh : n.toInt ≤ 2 ^ 63 - 1 := n.toInt_le
    omega
  refine hrounds.isFinite (le_trans ?_ ten_pow_le_lastDouble)
  rw [Nat.cast_one, div_one]
  exact_mod_cast hsize

theorem Decimal.toBinary_isFinite (d : Decimal) : (d.toBinary : Double).isFinite := by
  have hrounds : (d.toBinary : Double).Rounds _ |d.toExact.value| := d.toExact.toBinary_isNearest
  have hsize : |d.toExact.value| ≤ 10 ^ 149 := by
    have hmantissa : |(d.mantissa : ℚ)| ≤ 10 ^ 149 := by
      rw [← Int.cast_abs, Int.abs_eq_natAbs, Int.cast_natCast]
      exact_mod_cast d.mantissa_lt.le.trans (by decide)
    rw [d.value_toExact, Decimal.value, abs_div, abs_of_pos (show (0 : ℚ) < 10 ^ d.scale by positivity)]
    exact (div_le_self (abs_nonneg _) (one_le_pow₀ (by norm_num))).trans hmantissa
  exact hrounds.isFinite (hsize.trans ten_pow_le_lastDouble)

namespace Value

variable {a b c v : Value}

/-- Only floating point numbers are ever past the finite ones. -/
def region : Value → ℤ
  | float x => x.region
  | double x => x.region
  | _ => 0

/-- Finite numbers have finite doubles, and what is not finite stays what it is. -/
theorem region_double? {x : Double} (h : v.double? = some x) : x.region = v.region := by
  have hwhole {n : Int64} (h : some (Binary.ofInt n.toInt) = some x) : x.region = 0 := by
    obtain rfl := Option.some.inj h
    exact Binary.region_eq_zero_iff.mpr (Binary.ofInt_isFinite n)
  cases v with
  | byte n => exact hwhole h
  | short n => exact hwhole h
  | integer n => exact hwhole h
  | long n => exact hwhole h
  | float y =>
    obtain rfl := Option.some.inj h
    cases y with
    | nan negative => cases negative <;> rfl
    | infinite negative => cases negative <;> rfl
    | finite negative rank =>
      rw [Binary.region_eq_zero_iff.mpr (Binary.convert_isFinite negative rank)]
      exact (Binary.region_eq_zero_iff.mpr rfl).symm
  | double y =>
    obtain rfl := Option.some.inj h
    rfl
  | decimal d =>
    obtain rfl := Option.some.inj h
    exact Binary.region_eq_zero_iff.mpr d.toBinary_isFinite
  | _ => simp [double?, whole?] at h

/-- Where a number stands: its region, and in the finite one its decimal. -/
def place (v : Value) : ℤ ×ₗ ℚ :=
  toLex (v.region, v.shown)

theorem region_eq_zero_iff : v.region = 0 ↔ v.IsFinite := by
  cases v with
  | float x => exact Binary.region_eq_zero_iff
  | double x => exact Binary.region_eq_zero_iff
  | _ => simp [region, IsFinite]

theorem shown_of_whole {n : Int64} (h : v.whole? = some n) :
    v.region = 0 ∧ v.shown = n.toInt := by
  cases v with
  | byte m | short m | integer m | long m =>
    obtain rfl := Option.some.inj h
    exact ⟨rfl, by simp [shown, number?]⟩
  | _ => simp [whole?] at h

theorem shown_of_not_finite (h : ¬v.IsFinite) : v.shown = 0 := by
  cases v with
  | float x =>
    cases x with
    | finite negative rank => exact absurd rfl h
    | _ => rfl
  | double x =>
    cases x with
    | finite negative rank => exact absurd rfl h
    | _ => rfl
  | _ => exact absurd trivial h

theorem compare_place_of_finite (ha : a.region = 0) (hb : b.region = 0) :
    compare a.place b.place = compare a.shown b.shown := by
  apply compare_congr
  · simp [place, ha, hb, Prod.Lex.toLex_lt_toLex]
  · simp [place, ha, hb, Prod.Lex.toLex_lt_toLex]

theorem compare_place_of_not_finite (h : ¬a.IsFinite ∨ ¬b.IsFinite) :
    compare a.place b.place = compare a.region b.region := by
  have hsame : a.region = b.region → a.shown = b.shown := by
    intro hregion
    have hfinite : a.IsFinite ↔ b.IsFinite := by
      rw [← region_eq_zero_iff, ← region_eq_zero_iff, hregion]
    rw [hfinite, or_self] at h
    rw [shown_of_not_finite (hfinite.not.mpr h), shown_of_not_finite h]
  apply compare_congr
  · rw [place, place, Prod.Lex.toLex_lt_toLex]
    exact or_iff_left fun hlt => hlt.2.ne (hsame hlt.1)
  · rw [place, place, Prod.Lex.toLex_lt_toLex]
    exact or_iff_left fun hlt => hlt.2.ne (hsame hlt.1.symm).symm

theorem isFinite_double? {x : Double} (h : v.double? = some x) : x.isFinite ↔ v.IsFinite := by
  rw [← Binary.region_eq_zero_iff, region_double? h, region_eq_zero_iff]

/-- Each way of comparing two numbers comes to comparing their places. -/
theorem naturalOrder_of_numeric (ha : a.isNumeric) (hb : b.isNumeric) :
    a.naturalOrder b = some (compare a.place b.place) := by
  -- two whole numbers, two with decimals, and pairs with one that is not finite
  unfold naturalOrder
  split
  · simp [isNumeric, kind, Kind.isNumeric] at ha
  · rw [if_pos (by rw [ha, hb]; rfl)]
    split
    · rename_i m n hm hn
      obtain ⟨ham, hm⟩ := shown_of_whole hm
      obtain ⟨hbn, hn⟩ := shown_of_whole hn
      rw [compare_place_of_finite ham hbn, hm, hn]
      exact congrArg some (compare_congr Int.cast_lt.symm Int.cast_lt.symm)
    · split
      · rename_i x y hx hy
        have hregion {v : Value} {x : Exact} (h : v.toExact? = some x) : v.region = 0 :=
          region_eq_zero_iff.mpr (isSome_toExact?_iff.mp (Option.isSome_of_mem h)).2
        rw [compare_place_of_finite (hregion hx) (hregion hy), Exact.compare_eq,
          value_of_toExact? hx, value_of_toExact? hy]
      · rename_i hexact
        have hfinite : ¬a.IsFinite ∨ ¬b.IsFinite := by
          rw [← not_and_or]
          intro hfinite
          obtain ⟨x, hx⟩ := Option.isSome_iff_exists.mp (isSome_toExact?_iff.mpr ⟨ha, hfinite.1⟩)
          obtain ⟨y, hy⟩ := Option.isSome_iff_exists.mp (isSome_toExact?_iff.mpr ⟨hb, hfinite.2⟩)
          exact hexact x y hx hy
        obtain ⟨x, hx⟩ := exists_double? ha
        obtain ⟨y, hy⟩ := exists_double? hb
        rw [compare_place_of_not_finite hfinite, ← region_double? hx, ← region_double? hy, hx, hy]
        rw [← isFinite_double? hx, ← isFinite_double? hy] at hfinite
        exact congrArg some (Binary.totalCompare_eq hfinite)

/-- Finite numbers are compared by their decimals. -/
theorem naturalOrder_of_finite (ha : a.isNumeric) (hb : b.isNumeric) (hfa : a.IsFinite)
    (hfb : b.IsFinite) : a.naturalOrder b = some (compare a.shown b.shown) := by
  rw [naturalOrder_of_numeric ha hb,
    compare_place_of_finite (region_eq_zero_iff.mpr hfa) (region_eq_zero_iff.mpr hfb)]

/-- What has a natural order: two numbers, or two strings. -/
def Comparable (a b : Value) : Prop :=
  (a.isNumeric ∧ b.isNumeric) ∨ (a.kind = .string ∧ b.kind = .string)

theorem exists_text (h : v.kind = .string) : ∃ text, v = string text := by
  cases v with
  | string text => exact ⟨text, rfl⟩
  | _ => simp [kind] at h

theorem not_isNumeric_of_string (h : v.kind = .string) : ¬v.isNumeric := by
  rw [isNumeric, h]
  exact Bool.false_ne_true

/-- What the natural order goes by. Numbers and strings are not compared with each other. -/
def orderKey (v : Value) : (ℤ ×ₗ ℚ) ⊕ₗ String :=
  toLex (match v with
    | string text => .inr text
    | v => .inl v.place)

theorem orderKey_of_numeric (h : v.isNumeric) : v.orderKey = toLex (.inl v.place) := by
  cases v with
  | string text => simp [isNumeric, kind, Kind.isNumeric] at h
  | _ => rfl

theorem naturalOrder_of_comparable (h : a.Comparable b) :
    a.naturalOrder b = some (compare a.orderKey b.orderKey) := by
  rcases h with ⟨ha, hb⟩ | ⟨ha, hb⟩
  · rw [naturalOrder_of_numeric ha hb, orderKey_of_numeric ha, orderKey_of_numeric hb]
    exact congrArg some (compare_congr Sum.Lex.inl_lt_inl_iff.symm Sum.Lex.inl_lt_inl_iff.symm)
  · obtain ⟨s, rfl⟩ := exists_text ha
    obtain ⟨t, rfl⟩ := exists_text hb
    exact congrArg some (compare_congr Sum.Lex.inr_lt_inr_iff.symm Sum.Lex.inr_lt_inr_iff.symm)

theorem isSome_naturalOrder_iff : (a.naturalOrder b).isSome ↔ a.Comparable b := by
  constructor
  · intro h
    unfold naturalOrder at h
    split at h
    · exact Or.inr ⟨rfl, rfl⟩
    · split at h
      · rename_i hnumeric
        exact Or.inl (Bool.and_eq_true_iff.mp hnumeric)
      · simp at h
  · intro h
    rw [naturalOrder_of_comparable h]
    rfl

theorem naturalOrder_eq_none_iff : a.naturalOrder b = none ↔ ¬a.Comparable b := by
  rw [← isSome_naturalOrder_iff, Option.not_isSome_iff_eq_none]

theorem naturalOrder_eq_iff (h : a.Comparable b) :
    a.naturalOrder b = some .eq ↔ a.orderKey = b.orderKey := by
  rw [naturalOrder_of_comparable h, Option.some.injEq, compare_eq_iff_eq]

theorem naturalOrder_lt_iff (h : a.Comparable b) :
    a.naturalOrder b = some .lt ↔ a.orderKey < b.orderKey := by
  rw [naturalOrder_of_comparable h, Option.some.injEq, compare_lt_iff_lt]

theorem Comparable.symm (h : a.Comparable b) : b.Comparable a :=
  h.imp And.symm And.symm

theorem Comparable.isNumeric (h : a.Comparable b) (ha : a.isNumeric) : b.isNumeric := by
  rcases h with ⟨-, hb⟩ | ⟨hstring, -⟩
  · exact hb
  · exact absurd ha (not_isNumeric_of_string hstring)

theorem Comparable.kind_eq_string (h : a.Comparable b) (ha : a.kind = .string) :
    b.kind = .string := by
  rcases h with ⟨hnumeric, -⟩ | ⟨-, hb⟩
  · exact absurd hnumeric (not_isNumeric_of_string ha)
  · exact hb

theorem Comparable.trans (hab : a.Comparable b) (hbc : b.Comparable c) : a.Comparable c := by
  rcases hab with ⟨ha, hb⟩ | ⟨ha, hb⟩
  · exact Or.inl ⟨ha, hbc.isNumeric hb⟩
  · exact Or.inr ⟨ha, hbc.kind_eq_string hb⟩

theorem naturalOrder_swap (a b : Value) :
    b.naturalOrder a = (a.naturalOrder b).map Ordering.swap := by
  by_cases h : a.Comparable b
  · rw [naturalOrder_of_comparable h, naturalOrder_of_comparable h.symm, Option.map_some,
      ← Std.OrientedOrd.eq_swap]
  · have hsymm : ¬b.Comparable a := fun hba => h hba.symm
    rw [naturalOrder_eq_none_iff.mpr h, naturalOrder_eq_none_iff.mpr hsymm, Option.map_none]

theorem naturalOrder_self (h : a.Comparable a) : a.naturalOrder a = some .eq :=
  (naturalOrder_eq_iff h).mpr rfl

/-- Not after in natural order, where there is one. -/
def NotAfter (a b : Value) : Prop :=
  a.naturalOrder b = some .lt ∨ a.naturalOrder b = some .eq

theorem notAfter_iff : a.NotAfter b ↔ a.Comparable b ∧ a.orderKey ≤ b.orderKey := by
  by_cases h : a.Comparable b
  · rw [NotAfter, naturalOrder_lt_iff h, naturalOrder_eq_iff h, ← le_iff_lt_or_eq]
    exact (and_iff_right h).symm
  · simp [NotAfter, naturalOrder_eq_none_iff.mpr h, h]

end Value

/-- The natural order is a total preorder of the numbers and one of the strings, whatever mixture of
kinds the numbers are. -/
theorem naturalOrder_preorder (a b c : Value) :
    ((a.naturalOrder b).isSome ↔
      (a.isNumeric ∧ b.isNumeric) ∨ (a.kind = .string ∧ b.kind = .string)) ∧
    b.naturalOrder a = (a.naturalOrder b).map Ordering.swap ∧
    (a.isNumeric ∨ a.kind = .string → a.naturalOrder a = some .eq) ∧
    (a.NotAfter b → b.NotAfter c → a.NotAfter c) := by
  refine ⟨Value.isSome_naturalOrder_iff, Value.naturalOrder_swap a b, fun h => ?_, ?_⟩
  · exact Value.naturalOrder_self (h.imp (fun h => ⟨h, h⟩) (fun h => ⟨h, h⟩))
  · simp only [Value.notAfter_iff]
    rintro ⟨hab, hle⟩ ⟨hbc, hle'⟩
    exact ⟨hab.trans hbc, hle.trans hle'⟩

/-- A decimal, an integer and a NaN are compared in two ways, and the decimal is before both. -/
theorem naturalOrder_preorder_nan :
    let a : Value := .decimal ⟨5, 1, by decide, by decide⟩
    let b : Value := .byte 1
    let c : Value := .double (.nan false)
    (a.isNumeric ∧ b.isNumeric) ∧ (a.NotAfter b ∧ b.NotAfter c) ∧
    b.naturalOrder a = some .gt ∧ a.naturalOrder a = some .eq ∧ a.NotAfter c := by
  intro a b c
  have hab : a.naturalOrder b = some .lt := by decide +kernel
  have hbc : b.naturalOrder c = some .lt := by decide +kernel
  obtain ⟨-, hswap, hself, htrans⟩ := naturalOrder_preorder a b c
  refine ⟨⟨rfl, rfl⟩, ⟨Or.inl hab, Or.inl hbc⟩, ?_, hself (Or.inl rfl),
    htrans (Or.inl hab) (Or.inl hbc)⟩
  rw [hswap, hab]
  rfl

end Reckoner
