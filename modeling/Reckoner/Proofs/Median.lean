import Reckoner.Evaluation.Mean
import Reckoner.Proofs.NaturalOrder
import Reckoner.Proofs.SortedByKey

namespace Reckoner

namespace Value

variable {a b v : Value} {items sorted : List Value}

instance : Decidable (a.NotAfter b) :=
  inferInstanceAs (Decidable (_ ∨ _))

/-- Numbers of any kinds, or strings. -/
def Alike (items : List Value) : Prop :=
  (∀ item ∈ items, item.isNumeric) ∨ ∀ item ∈ items, item.kind = .string

theorem Alike.comparable (h : Alike items) (ha : a ∈ items) (hb : b ∈ items) : a.Comparable b :=
  h.imp (fun h => ⟨h a ha, h b hb⟩) (fun h => ⟨h a ha, h b hb⟩)

theorem Alike.of_perm {others : List Value} (h : Alike items) (hperm : others.Perm items) :
    Alike others :=
  h.imp (fun h item hitem => h item (hperm.mem_iff.mp hitem))
    (fun h item hitem => h item (hperm.mem_iff.mp hitem))

/-- What is comparable with one value is of one sort. -/
theorem alike_cons_iff {first second : Value} {rest : List Value} :
    Alike (first :: second :: rest) ↔ ∀ item ∈ second :: rest, first.Comparable item := by
  constructor
  · intro h item hitem
    exact h.comparable List.mem_cons_self (List.mem_cons_of_mem _ hitem)
  · intro h
    rcases h second List.mem_cons_self with ⟨hfirst, -⟩ | ⟨hfirst, -⟩
    · left
      rw [List.forall_mem_cons]
      exact ⟨hfirst, fun item hitem => (h item hitem).isNumeric hfirst⟩
    · right
      rw [List.forall_mem_cons]
      exact ⟨hfirst, fun item hitem => (h item hitem).kind_eq_string hfirst⟩

/-- In natural order, with naturally equal values as they were among each other. -/
structure StablySorted (items sorted : List Value) : Prop where
  perm : sorted.Perm items
  ascending : sorted.Pairwise NotAfter
  stable : ∀ v ∈ items, sorted.filter (fun item => item.naturalOrder v = some .eq) =
    items.filter fun item => item.naturalOrder v = some .eq

theorem Alike.notAfter_iff (h : Alike items) (ha : a ∈ items) (hb : b ∈ items) :
    a.NotAfter b ↔ a.orderKey ≤ b.orderKey :=
  Value.notAfter_iff.trans (and_iff_right (h.comparable ha hb))

theorem Alike.filter_eq (h : Alike items) (hv : v ∈ items) :
    items.filter (fun item => item.naturalOrder v = some .eq) =
      items.filter (·.orderKey = v.orderKey) := by
  refine List.filter_congr fun item hitem => ?_
  rw [decide_eq_decide]
  exact naturalOrder_eq_iff (h.comparable hitem hv)

theorem Alike.stablySorted_sort (h : Alike items) :
    StablySorted items (SortedByKey.sort orderKey items) := by
  have hperm := SortedByKey.sort_perm orderKey items
  refine ⟨hperm, ?_, fun v hv => ?_⟩
  · refine (SortedByKey.sort_ascending orderKey items).imp_of_mem fun ha hb hle => ?_
    exact (h.notAfter_iff (hperm.mem_iff.mp ha) (hperm.mem_iff.mp hb)).mpr hle
  · rw [(h.of_perm hperm).filter_eq (hperm.mem_iff.mpr hv), h.filter_eq hv,
      SortedByKey.filter_sort]

/-- Values that are alike have one stable sort. -/
theorem Alike.stablySorted_iff (h : Alike items) :
    StablySorted items sorted ↔ sorted = SortedByKey.sort orderKey items := by
  constructor
  · intro hsorted
    have hall := h.of_perm hsorted.perm
    apply SortedByKey.eq_of_filter_eq orderKey
    · exact hsorted.ascending.imp_of_mem fun ha hb => (hall.notAfter_iff ha hb).mp
    · exact SortedByKey.sort_ascending orderKey items
    · exact hsorted.perm.trans (SortedByKey.sort_perm orderKey items).symm
    · intro v hv
      have hmem := hsorted.perm.mem_iff.mp hv
      rw [SortedByKey.filter_sort, ← hall.filter_eq hv, ← h.filter_eq hmem]
      exact hsorted.stable v hmem
  · rintro rfl
    exact h.stablySorted_sort

/-- A sort that leaves two values as they are unless the first one is after the other. -/
theorem Alike.mergeSort_eq (h : Alike items) :
    items.mergeSort (fun a b => a.naturalOrder b != some .gt) =
      SortedByKey.sort orderKey items := by
  refine SortedByKey.mergeSort_eq_sort fun a ha b hb => ?_
  rw [naturalOrder_of_comparable (h.comparable ha hb), bne_iff_ne, Ne, Option.some.injEq,
    compare_gt_iff_gt, not_lt]

end Value

variable {items : List Value}

/-- The middle of values that are alike is that of their stable sort. -/
theorem median_of_alike (name : String) (hsize : 2 ≤ items.length) (h : Value.Alike items) :
    ∃ v, (SortedByKey.sort Value.orderKey items)[items.length / 2]? = some v ∧
      median name (.collection items) = .ok v := by
  match items with
  | first :: second :: rest =>
    -- the check is only against the first value, which is enough
    have hfind : (second :: rest).find? (fun item => (first.naturalOrder item).isNone) = none := by
      rw [List.find?_eq_none]
      intro item hitem
      rw [Option.isNone_iff_eq_none, Value.naturalOrder_eq_none_iff, not_not]
      exact Value.alike_cons_iff.mp h item hitem
    have hlength := (SortedByKey.sort_perm Value.orderKey (first :: second :: rest)).length_eq
    have hbound : (first :: second :: rest).length / 2 <
        (SortedByKey.sort Value.orderKey (first :: second :: rest)).length := by
      rw [hlength]
      exact Nat.div_lt_self (Nat.lt_of_lt_of_le Nat.two_pos hsize) Nat.one_lt_two
    have hmiddle := List.getElem?_eq_getElem hbound
    refine ⟨_, hmiddle, ?_⟩
    rw [median]
    · simp only [hfind, h.mergeSort_eq, hlength, List.getD_eq_getElem?_getD, hmiddle,
        Option.getD_some]
    · simp

/-- Otherwise the first value that is not comparable is in the error. -/
theorem median_of_not_alike (name : String) (hsize : 2 ≤ items.length) (h : ¬Value.Alike items) :
    ∃ first before item after, items = first :: (before ++ item :: after) ∧
      (∀ other ∈ before, first.Comparable other) ∧ ¬first.Comparable item ∧
      median name (.collection items) =
        .error (.invalidArgumentType name 0 (.collectionOf first.kind) (.kind item.kind)) := by
  match items with
  | first :: second :: rest =>
    rw [Value.alike_cons_iff] at h
    cases hfind : (second :: rest).find? fun item => (first.naturalOrder item).isNone with
    | none =>
      rw [List.find?_eq_none] at hfind
      refine absurd (fun item hitem => ?_) h
      have hnot := hfind item hitem
      rwa [Option.isNone_iff_eq_none, Value.naturalOrder_eq_none_iff, not_not] at hnot
    | some item =>
      obtain ⟨hitem, before, after, hrest, hbefore⟩ := List.find?_eq_some_iff_append.mp hfind
      refine ⟨first, before, item, after, by rw [hrest], fun other hother => ?_, ?_, ?_⟩
      · have hnot := hbefore other hother
        rwa [Bool.not_eq_true', Option.isNone_eq_false_iff, Value.isSome_naturalOrder_iff] at hnot
      · rwa [Option.isNone_iff_eq_none, Value.naturalOrder_eq_none_iff] at hitem
      · rw [median]
        · simp only [hfind]
        · simp

/-- What a permutation has in the middle is naturally equal. -/
theorem median_perm (name : String) {others : List Value} {v w : Value} (hperm : others.Perm items)
    (hsize : 2 ≤ items.length) (h : Value.Alike items)
    (hv : median name (.collection items) = .ok v)
    (hw : median name (.collection others) = .ok w) : w.naturalOrder v = some .eq := by
  have hlength := hperm.length_eq
  obtain ⟨v', hmiddle, hv'⟩ := median_of_alike name hsize h
  obtain ⟨w', hmiddle', hw'⟩ := median_of_alike name (hlength ▸ hsize) (h.of_perm hperm)
  obtain rfl : v' = v := Except.ok.inj (hv'.symm.trans hv)
  obtain rfl : w' = w := Except.ok.inj (hw'.symm.trans hw)
  have hkeys : some w'.orderKey = some v'.orderKey := by
    rw [← Option.map_some, ← Option.map_some, ← hmiddle, ← hmiddle', ← List.getElem?_map,
      ← List.getElem?_map, SortedByKey.map_sort_perm hperm, hlength]
  have hmem := (SortedByKey.sort_perm _ _).mem_iff.mp (List.mem_of_getElem? hmiddle)
  have hmem' := (SortedByKey.sort_perm _ _).mem_iff.mp (List.mem_of_getElem? hmiddle')
  have hcomparable := h.comparable (hperm.mem_iff.mp hmem') hmem
  exact (Value.naturalOrder_eq_iff hcomparable).mpr (Option.some.inj hkeys)

/-- No more than half of the values are before the middle one, and more than half are not after
it. -/
theorem median_rank {v : Value} (h : Value.Alike items)
    (hmiddle : (SortedByKey.sort Value.orderKey items)[items.length / 2]? = some v) :
    v ∈ items ∧
    items.countP (fun item => item.naturalOrder v = some .lt) ≤ items.length / 2 ∧
    items.length / 2 + 1 ≤ items.countP fun item => item.NotAfter v := by
  have hperm := SortedByKey.sort_perm Value.orderKey items
  have hascending := SortedByKey.sort_ascending Value.orderKey items
  have hmem := hperm.mem_iff.mp (List.mem_of_getElem? hmiddle)
  obtain ⟨hbound, hv⟩ := List.getElem?_eq_some_iff.mp hmiddle
  have hfew := SortedByKey.countP_lt_le hascending hbound
  have hmany := SortedByKey.succ_le_countP hascending hbound
  rw [hv, hperm.countP_eq] at hfew hmany
  refine ⟨hmem, hfew.trans_eq' ?_, hmany.trans_eq ?_⟩
  · refine List.countP_congr fun item hitem => ?_
    rw [decide_eq_true_iff, decide_eq_true_iff]
    exact (Value.naturalOrder_lt_iff (h.comparable hitem hmem)).symm
  · refine List.countP_congr fun item hitem => ?_
    rw [decide_eq_true_iff, decide_eq_true_iff]
    exact (h.notAfter_iff hitem hmem).symm

theorem mean_median (name : String) (v : Value) :
    mean name [v, .string "median"] = median name v :=
  rfl

/-- The median of two or more values is the one in the upper middle of their only stable sort, and
naturally equal if they are in another order. There is one just if all are numbers or all are
strings, and else the first one that is not comparable is in the error. The order is that of the
numbers that the values stand for, or of the texts. -/
theorem mean_median_middle (name : String) (items : List Value) (hsize : 2 ≤ items.length) :
    ((∃ v, mean name [.collection items, .string "median"] = .ok v) ↔
      (∀ item ∈ items, item.isNumeric) ∨ ∀ item ∈ items, item.kind = .string) ∧
    (¬((∀ item ∈ items, item.isNumeric) ∨ ∀ item ∈ items, item.kind = .string) →
      ∃ first before item after, items = first :: (before ++ item :: after) ∧
        (∀ other ∈ before, (first.naturalOrder other).isSome) ∧ first.naturalOrder item = none ∧
        mean name [.collection items, .string "median"] =
          .error (.invalidArgumentType name 0 (.collectionOf first.kind) (.kind item.kind))) ∧
    ∀ v, mean name [.collection items, .string "median"] = .ok v →
      (∀ a ∈ items, ∀ b ∈ items, a.naturalOrder b = some (compare a.orderKey b.orderKey)) ∧
      v ∈ items ∧
      items.countP (fun item => item.naturalOrder v = some .lt) ≤ items.length / 2 ∧
      items.length / 2 + 1 ≤ items.countP (fun item => item.NotAfter v) ∧
      (∃ sorted, (∀ l, Value.StablySorted items l ↔ l = sorted) ∧
        sorted[items.length / 2]? = some v) ∧
      ∀ others, others.Perm items →
        ∃ w, mean name [.collection others, .string "median"] = .ok w ∧
          w.naturalOrder v = some .eq := by
  simp only [mean_median]
  have halike {v : Value} (hv : median name (.collection items) = .ok v) : Value.Alike items := by
    by_contra hnot
    obtain ⟨first, -, item, -, -, -, -, herror⟩ := median_of_not_alike name hsize hnot
    rw [herror] at hv
    cases hv
  refine ⟨⟨fun ⟨v, hv⟩ => halike hv, fun h => ?_⟩, fun hnot => ?_, fun v hv => ?_⟩
  · obtain ⟨v, -, hv⟩ := median_of_alike name hsize h
    exact ⟨v, hv⟩
  · obtain ⟨first, before, item, after, hitems, hbefore, hitem, herror⟩ :=
      median_of_not_alike name hsize hnot
    refine ⟨first, before, item, after, hitems, fun other hother => ?_, ?_, herror⟩
    · exact Value.isSome_naturalOrder_iff.mpr (hbefore other hother)
    · exact Value.naturalOrder_eq_none_iff.mpr hitem
  · have h := halike hv
    obtain ⟨v', hmiddle, hv'⟩ := median_of_alike name hsize h
    obtain rfl : v' = v := Except.ok.inj (hv'.symm.trans hv)
    obtain ⟨hmem, hbefore, hnotAfter⟩ := median_rank h hmiddle
    refine ⟨fun a ha b hb => ?_, hmem, hbefore, hnotAfter,
      ⟨_, fun l => h.stablySorted_iff, hmiddle⟩, fun others hperm => ?_⟩
    · exact Value.naturalOrder_of_comparable (h.comparable ha hb)
    · obtain ⟨w, -, hw⟩ := median_of_alike name (hperm.length_eq ▸ hsize) (h.of_perm hperm)
      exact ⟨w, hw, median_perm name hperm hsize h hv hw⟩

/-- Of two numbers that are naturally equal the first one is in the middle, and keeps its kind. -/
theorem mean_median_middle_tie :
    let two : Value := .double (.finite false ⟨1024 * 2 ^ 52, by decide⟩)
    let items : List Value := [two, .long 2, .byte 1]
    2 ≤ items.length ∧ two.naturalOrder (.long 2) = some .eq ∧
    mean "mean" [.collection items, .string "median"] = .ok two := by
  intro two items
  have hsize : 2 ≤ items.length := by decide
  have htwo : two.naturalOrder (.long 2) = some .eq := by decide +kernel
  have hone : two.naturalOrder (.byte 1) = some .gt := by decide +kernel
  have hself : two.naturalOrder two = some .eq := Value.naturalOrder_self (Or.inl ⟨rfl, rfl⟩)
  have htwo' := Value.naturalOrder_swap two (.long 2)
  have hone' := Value.naturalOrder_swap two (.byte 1)
  rw [htwo] at htwo'
  rw [hone] at hone'
  have hsorted : Value.StablySorted items [.byte 1, two, .long 2] := by
    refine ⟨(List.perm_append_singleton (.byte 1) [two, .long 2]).symm, by decide +kernel, ?_⟩
    have hlong : (Value.long 2).naturalOrder (.long 2) = some .eq := rfl
    have hbyte : (Value.byte 1).naturalOrder (.byte 1) = some .eq := rfl
    have hless : (Value.byte 1).naturalOrder (.long 2) = some .lt := rfl
    have hmore : (Value.long 2).naturalOrder (.byte 1) = some .gt := rfl
    simp [items, htwo, hone, hself, htwo', hone', hlong, hbyte, hless, hmore]
  have hnumeric : ∀ item ∈ items, item.isNumeric := by decide
  obtain ⟨hok, -, hmiddle⟩ := mean_median_middle "mean" items hsize
  obtain ⟨v, hv⟩ := hok.mpr (Or.inl hnumeric)
  obtain ⟨-, -, -, -, ⟨sorted, hunique, hget⟩, -⟩ := hmiddle v hv
  obtain rfl := (hunique _).mp hsorted
  rw [show items.length / 2 = 1 by decide] at hget
  obtain rfl : two = v := Option.some.inj hget
  exact ⟨hsize, htwo, hv⟩

end Reckoner
