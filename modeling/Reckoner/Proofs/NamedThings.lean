import Mathlib.Data.List.Basic
import Mathlib.Data.List.Forall2
import Mathlib.Data.List.Induction
import Mathlib.Data.List.Sort
import Mathlib.Data.String.Basic
import Reckoner.Named

namespace Reckoner

namespace Named

variable {α : Type} {named : Named α} {name other : String} {thing : α}

theorem lookup_of_mem (h : name ∈ named.names) : named.lookup name = some (named.thing name h) :=
  dif_pos h

theorem mem_names_iff : name ∈ named.names ↔ (named.lookup name).isSome := by
  unfold lookup
  split <;> simp [*]

/-- Names in one order, each with the same thing, are all there is. -/
theorem eq_of_lookup {left right : Named α} (hnames : left.names = right.names)
    (h : ∀ name, left.lookup name = right.lookup name) : left = right := by
  obtain ⟨names, distinct, thing⟩ := left
  obtain ⟨names', distinct', thing'⟩ := right
  obtain rfl : names = names' := hnames
  congr
  funext name hmem
  have hsame := h name
  rw [lookup_of_mem hmem, lookup_of_mem hmem] at hsame
  exact Option.some.inj hsame

/-- What was put in under a name is found there, and all else is as before. -/
theorem lookup_insert (named : Named α) (name other : String) (thing : α) :
    (named.insert name thing).2.lookup other =
      if other = name then some thing else named.lookup other := by
  have hmem : other ∈ (named.insert name thing).2.names ↔ other ∈ named.names ∨ other = name :=
    mem_withName
  by_cases hname : other = name
  · rw [if_pos hname, lookup_of_mem (hmem.mpr (Or.inr hname))]
    exact congrArg some (dif_pos hname)
  · rw [if_neg hname]
    by_cases hother : other ∈ named.names
    · rw [lookup_of_mem (hmem.mpr (Or.inl hother)), lookup_of_mem hother]
      exact congrArg some (dif_neg hname)
    · rw [lookup, lookup, dif_neg hother, dif_neg]
      rw [hmem]
      exact fun h => h.elim hother hname

theorem names_insert_of_not_mem (h : name ∉ named.names) (thing : α) :
    (named.insert name thing).2.names = named.names ++ [name] :=
  if_neg h

theorem ofList_concat (entries : List (String × α)) (entry : String × α) :
    ofList (entries ++ [entry]) = ((ofList entries).insert entry.1 entry.2).2 := by
  rw [ofList, List.foldl_append, List.foldl_cons, List.foldl_nil, ofList]

theorem nodup_concat {entries : List (String × α)} {entry : String × α} :
    ((entries ++ [entry]).map Prod.fst).Nodup ↔
      entry.1 ∉ entries.map Prod.fst ∧ (entries.map Prod.fst).Nodup := by
  rw [List.map_append, List.map_singleton, (List.perm_append_singleton entry.1 _).nodup_iff,
    List.nodup_cons]

/-- Things of different names stay in their order. -/
theorem names_ofList {entries : List (String × α)} (h : (entries.map Prod.fst).Nodup) :
    (ofList entries).names = entries.map Prod.fst := by
  induction entries using List.reverseRecOn with
  | nil => rfl
  | append_singleton entries entry ih =>
    obtain ⟨hnew, hnodup⟩ := nodup_concat.mp h
    rw [← ih hnodup] at hnew
    rw [ofList_concat, names_insert_of_not_mem hnew, ih hnodup, List.map_append,
      List.map_singleton]

theorem lookup_ofList_of_mem {entries : List (String × α)} (h : (entries.map Prod.fst).Nodup)
    (hmem : (name, thing) ∈ entries) : (ofList entries).lookup name = some thing := by
  induction entries using List.reverseRecOn with
  | nil => cases hmem
  | append_singleton entries entry ih =>
    obtain ⟨hnew, hnodup⟩ := nodup_concat.mp h
    rw [ofList_concat, lookup_insert]
    rcases List.mem_append.mp hmem with hbefore | hlast
    · have hname : name ≠ entry.1 := by
        rintro rfl
        exact hnew (List.mem_map.mpr ⟨_, hbefore, rfl⟩)
      rw [if_neg hname, ih hnodup hbefore]
    · obtain rfl := List.mem_singleton.mp hlast
      exact if_pos rfl

theorem forall_thing_ofList {p : α → Prop} {entries : List (String × α)}
    (h : ∀ entry ∈ entries, p entry.2) : ∀ name hmem, p ((ofList entries).thing name hmem) := by
  have hlookup : ∀ name, ∀ thing ∈ (ofList entries).lookup name, p thing := by
    induction entries using List.reverseRecOn with
    | nil =>
      intro name thing hthing
      cases hthing
    | append_singleton entries entry ih =>
      rw [List.forall_mem_append, List.forall_mem_singleton] at h
      intro name thing hthing
      rw [ofList_concat, lookup_insert] at hthing
      split at hthing
      · obtain rfl := Option.some.inj hthing
        exact h.2
      · exact ih h.1 name thing hthing
  exact fun name hmem => hlookup name _ (lookup_of_mem hmem)

/-- In order, different names are strictly so. -/
theorem ascending_mergeSort (named : Named α) : named.names.mergeSort.Pairwise (· < ·) := by
  have hsorted : named.names.mergeSort.Pairwise (· ≤ ·) :=
    List.pairwise_mergeSort' (· ≤ ·) named.names
  have hdistinct : named.names.mergeSort.Nodup := named.sorted.distinct
  exact (hsorted.and hdistinct).imp fun h => lt_of_le_of_ne h.1 h.2

end Named

end Reckoner
