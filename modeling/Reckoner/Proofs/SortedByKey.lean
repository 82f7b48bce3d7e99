import Mathlib.Data.List.Perm.Basic
import Mathlib.Data.List.Sort
import Mathlib.Order.Basic

namespace Reckoner

namespace SortedByKey

variable {α β : Type} [LinearOrder β] {key : α → β} {l l' : List α} {i : ℕ}

/-- A sort that keeps things of one key in order. -/
def sort (key : α → β) (l : List α) : List α :=
  l.mergeSort fun a b => decide (key a ≤ key b)

theorem sort_perm (key : α → β) (l : List α) : (sort key l).Perm l :=
  List.mergeSort_perm l _

theorem le_trans_key (a b c : α) (hab : decide (key a ≤ key b) = true)
    (hbc : decide (key b ≤ key c) = true) : decide (key a ≤ key c) = true := by
  rw [decide_eq_true_iff] at hab hbc ⊢
  exact hab.trans hbc

theorem le_total_key (a b : α) : (decide (key a ≤ key b) || decide (key b ≤ key a)) = true := by
  rw [Bool.or_eq_true, decide_eq_true_iff, decide_eq_true_iff]
  exact le_total _ _

theorem sort_ascending (key : α → β) (l : List α) : (sort key l).Pairwise (key · ≤ key ·) :=
  (List.pairwise_mergeSort le_trans_key le_total_key l).imp of_decide_eq_true

/-- Only what is in the list is ever compared. -/
theorem mergeSort_eq_sort {le : α → α → Bool}
    (h : ∀ a ∈ l, ∀ b ∈ l, le a b = true ↔ key a ≤ key b) : l.mergeSort le = sort key l := by
  have hsame : ∀ a ∈ l, ∀ b ∈ l, le a b = decide (key (id a) ≤ key (id b)) := by
    intro a ha b hb
    rw [Bool.eq_iff_iff, decide_eq_true_iff]
    exact h a ha b hb
  have hmap := List.map_mergeSort (s := fun a b => decide (key a ≤ key b)) hsame
  rwa [List.map_id, List.map_id] at hmap

/-- Things of one key are a sublist that is in order already. -/
theorem filter_sort [DecidableEq β] (key : α → β) (l : List α) (b : β) :
    (sort key l).filter (key · = b) = l.filter (key · = b) := by
  have hordered : (l.filter (key · = b)).Pairwise fun x y => decide (key x ≤ key y) = true := by
    rw [List.pairwise_iff_forall_sublist]
    intro x y hsublist
    have hx := (List.mem_filter.mp (hsublist.subset List.mem_cons_self)).2
    have hy := (List.mem_filter.mp (hsublist.subset (List.mem_cons_of_mem _ List.mem_cons_self))).2
    rw [decide_eq_true_iff] at hx hy ⊢
    rw [hx, hy]
  have hsublist := (List.sublist_mergeSort le_trans_key le_total_key hordered
    List.filter_sublist).filter (key · = b)
  simp only [List.filter_filter, Bool.and_self] at hsublist
  exact (hsublist.eq_of_length ((sort_perm key l).filter _).length_eq.symm).symm

/-- The order of the keys and the order within each key leave one list only. -/
theorem eq_of_filter_eq [DecidableEq β] (key : α → β) (h : l.Pairwise (key · ≤ key ·))
    (h' : l'.Pairwise (key · ≤ key ·)) (hperm : l.Perm l')
    (hfilter : ∀ a ∈ l, l.filter (key · = key a) = l'.filter (key · = key a)) : l = l' := by
  induction l generalizing l' with
  | nil => exact hperm.nil_eq
  | cons x rest ih =>
    cases l' with
    | nil => exact hperm.eq_nil
    | cons y rest' =>
      obtain ⟨hx, hrest⟩ := List.pairwise_cons.mp h
      obtain ⟨hy, hrest'⟩ := List.pairwise_cons.mp h'
      -- the first keys are both the least, and then the first things are the first of that key
      have hkey : key x = key y := by
        apply le_antisymm
        · rcases List.mem_cons.mp (hperm.mem_iff.mpr List.mem_cons_self) with rfl | hmem
          · exact le_refl _
          · exact hx y hmem
        · rcases List.mem_cons.mp (hperm.mem_iff.mp List.mem_cons_self) with rfl | hmem
          · exact le_refl _
          · exact hy x hmem
      have hfirst := hfilter x List.mem_cons_self
      simp only [List.filter_cons, hkey, decide_true, if_true, List.cons.injEq] at hfirst
      obtain ⟨rfl, -⟩ := hfirst
      congr 1
      apply ih hrest hrest' hperm.cons_inv
      intro a ha
      have hboth := hfilter a (List.mem_cons_of_mem _ ha)
      simp only [List.filter_cons] at hboth
      split at hboth
      · exact (List.cons.inj hboth).2
      · exact hboth

theorem key_le_of_le (h : l.Pairwise (key · ≤ key ·)) {j : ℕ} (hij : i ≤ j) (hj : j < l.length) :
    key l[i] ≤ key l[j] := by
  rcases hij.lt_or_eq with hlt | rfl
  · exact List.pairwise_iff_getElem.mp h i j _ hj hlt
  · exact le_refl _

/-- No more is below what is at a place than stands before that place. -/
theorem countP_lt_le (h : l.Pairwise (key · ≤ key ·)) (hi : i < l.length) :
    l.countP (key · < key l[i]) ≤ i := by
  have hlate : (l.drop i).countP (key · < key l[i]) = 0 := by
    rw [List.countP_eq_zero]
    intro a ha
    obtain ⟨j, hj, rfl⟩ := List.mem_drop_iff_getElem.mp ha
    rw [decide_eq_true_iff, not_lt]
    exact key_le_of_le h (Nat.le_add_right _ _) _
  calc l.countP (key · < key l[i])
      = (l.take i).countP (key · < key l[i]) + (l.drop i).countP (key · < key l[i]) := by
        rw [← List.countP_append, List.take_append_drop]
    _ = (l.take i).countP (key · < key l[i]) := by rw [hlate, Nat.add_zero]
    _ ≤ (l.take i).length := List.countP_le_length
    _ ≤ i := List.length_take_le i l

theorem succ_le_countP (h : l.Pairwise (key · ≤ key ·)) (hi : i < l.length) :
    i + 1 ≤ l.countP (key · ≤ key l[i]) := by
  have hearly : (l.take (i + 1)).countP (key · ≤ key l[i]) = (l.take (i + 1)).length := by
    rw [List.countP_eq_length]
    intro a ha
    obtain ⟨j, hj, rfl⟩ := List.mem_take_iff_getElem.mp ha
    rw [decide_eq_true_iff]
    exact key_le_of_le h (by omega) hi
  calc i + 1 = (l.take (i + 1)).length := by rw [List.length_take, Nat.min_eq_left hi]
    _ = (l.take (i + 1)).countP (key · ≤ key l[i]) := hearly.symm
    _ ≤ l.countP (key · ≤ key l[i]) := (List.take_sublist _ _).countP_le

/-- The keys in order do not depend on the order of what is sorted. -/
theorem map_sort_perm (h : l.Perm l') : (sort key l).map key = (sort key l').map key := by
  have hordered (m : List α) : ((sort key m).map key).Pairwise (· ≤ ·) :=
    List.pairwise_map.mpr (sort_ascending key m)
  have hperm := ((sort_perm key l).trans (h.trans (sort_perm key l').symm)).map key
  exact hperm.eq_of_pairwise (fun _ _ _ _ => le_antisymm) (hordered l) (hordered l')

end SortedByKey

end Reckoner
