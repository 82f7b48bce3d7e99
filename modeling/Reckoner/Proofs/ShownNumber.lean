import Reckoner.Proofs.ShortestDigits

namespace Reckoner

namespace Binary

variable {f : BinaryFormat}

/-- The number that the shortest text of a finite one shows. -/
def shown : Binary f → ℚ
  | finite negative rank => if negative then -(f.shortest rank).value else (f.shortest rank).value
  | _ => 0

/-- Any digits that are the shortest of a number show what it shows. -/
theorem shown_of_isShortest {negative : Bool} {rank : Fin f.ranks} {m : Magnitude}
    (h : f.IsShortest rank m) :
    (finite negative rank).shown = if negative then -m.value else m.value := by
  rw [h.unique (f.shortest_isShortest h.rank_ne_zero), shown]

theorem value_of_toExact? {x : Binary f} {e : Exact} (h : x.toExact? = some e) :
    e.value = x.shown := by
  cases x with
  | finite negative rank =>
    obtain rfl := Option.some.inj h
    exact Exact.value_ofMagnitude negative (f.shortest rank)
  | _ => simp [toExact?] at h

theorem isSome_toExact?_iff {x : Binary f} : x.toExact?.isSome ↔ x.isFinite := by
  cases x <;> simp [toExact?, isFinite]

end Binary

namespace Value

variable {v : Value}

/-- Neither infinite nor NaN. -/
def IsFinite : Value → Prop
  | float x => x.isFinite
  | double x => x.isFinite
  | _ => True

instance (v : Value) : Decidable v.IsFinite := by
  cases v <;> unfold IsFinite <;> infer_instance

/-- The number that a value stands for among others. It is the one that an integer or a decimal is,
and what the text of a floating point number shows. -/
def shown : Value → ℚ
  | float x => x.shown
  | double x => x.shown
  | v => v.number?.getD 0

theorem shown_of_number? {q : ℚ} (h : v.number? = some q) :
    v.isNumeric ∧ v.IsFinite ∧ v.shown = q := by
  cases v <;> simp only [number?, Option.some.injEq, reduceCtorEq] at h <;> subst h <;>
    exact ⟨rfl, trivial, rfl⟩

theorem exists_double? (h : v.isNumeric) : ∃ x, v.double? = some x := by
  cases v with
  | string _ | collection _ | map _ => simp [isNumeric, kind, Kind.isNumeric] at h
  | _ => exact ⟨_, rfl⟩

/-- The finite numbers are what has a decimal. -/
theorem isSome_toExact?_iff : v.toExact?.isSome ↔ v.isNumeric ∧ v.IsFinite := by
  cases v with
  | float x => exact Binary.isSome_toExact?_iff.trans (and_iff_right rfl).symm
  | double x => exact Binary.isSome_toExact?_iff.trans (and_iff_right rfl).symm
  | _ => simp [toExact?, whole?, isNumeric, kind, Kind.isNumeric, IsFinite]

/-- The decimal of a number is what the number stands for. -/
theorem value_of_toExact? {e : Exact} (h : v.toExact? = some e) : e.value = v.shown := by
  have hheld {q : ℚ} (hq : v.number? = some q) : e.value = v.shown := by
    obtain ⟨other, hother, hvalue⟩ := toExact?_of_number? hq
    obtain rfl := Option.some.inj (h.symm.trans hother)
    rw [hvalue, (shown_of_number? hq).2.2]
  cases v with
  | float x => exact Binary.value_of_toExact? h
  | double x => exact Binary.value_of_toExact? h
  | string _ | collection _ | map _ => simp [toExact?, whole?] at h
  | _ => exact hheld rfl

theorem exists_toExact? (hnumeric : v.isNumeric) (hfinite : v.IsFinite) :
    ∃ e, v.toExact? = some e ∧ e.value = v.shown := by
  obtain ⟨e, he⟩ := Option.isSome_iff_exists.mp (isSome_toExact?_iff.mpr ⟨hnumeric, hfinite⟩)
  exact ⟨e, he, value_of_toExact? he⟩

end Value

end Reckoner
