namespace Reckoner

/-- Things that have different names, in the order in which the names came. -/
structure Named (α : Type) where
  names : List String
  distinct : names.Nodup
  thing : ∀ name, name ∈ names → α

namespace Named

variable {α β : Type}

/-- Names with one more, at the end if it is not among them. -/
def withName (names : List String) (name : String) : List String :=
  if name ∈ names then names else names ++ [name]

theorem mem_withName {names : List String} {name other : String} :
    other ∈ withName names name ↔ other ∈ names ∨ other = name := by
  unfold withName
  split
  · rename_i hmem
    refine ⟨Or.inl, fun h => h.elim id ?_⟩
    rintro rfl
    exact hmem
  · rw [List.mem_append, List.mem_singleton]

theorem nodup_withName {names : List String} (h : names.Nodup) (name : String) :
    (withName names name).Nodup := by
  unfold withName
  split
  · exact h
  · rename_i hnew
    rw [(List.perm_append_singleton name names).nodup_iff, List.nodup_cons]
    exact ⟨hnew, h⟩

def empty : Named α :=
  ⟨[], List.nodup_nil, fun _ h => absurd h List.not_mem_nil⟩

def lookup (named : Named α) (name : String) : Option α :=
  if h : name ∈ named.names then some (named.thing name h) else none

/-- Gives a thing a name, and gives back the one that had it. -/
def insert (named : Named α) (name : String) (thing : α) : Option α × Named α :=
  (named.lookup name,
    { names := withName named.names name
      distinct := nodup_withName named.distinct name
      thing := fun other h =>
        if same : other = name then thing
        else named.thing other ((mem_withName.mp h).resolve_right same) })

def ofList (entries : List (String × α)) : Named α :=
  entries.foldl (fun named entry => (named.insert entry.1 entry.2).2) empty

/-- Makes things for names one after the other, as far as the first error. -/
def collect {ε : Type} (names : List String) (make : ∀ name, name ∈ names → Except ε α) :
    Except ε (Named α) := do
  let entries ← names.attach.mapM fun name => do return (name.1, ← make name.1 name.2)
  return ofList entries

/-- The same things in ascending order of their names. -/
def sorted (named : Named α) : Named α where
  names := named.names.mergeSort
  distinct := (List.mergeSort_perm _ _).nodup_iff.mpr named.distinct
  thing name h := named.thing name (List.mem_mergeSort.mp h)

end Named

end Reckoner
