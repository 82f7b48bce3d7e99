import Mathlib.Algebra.BigOperators.Group.List.Basic
import Reckoner.Evaluation.Accumulator
import Reckoner.Proofs.BinaryNearest
import Reckoner.Proofs.Reciprocal
import Reckoner.Proofs.ShownNumber

namespace Reckoner

/-- What a value holds besides collections: its elements at any depth, left to right. -/
def Value.leaves : Value → List Value
  | collection items => leavesOf items
  | v => [v]
where
  leavesOf : List Value → List Value
    | [] => []
    | item :: rest => item.leaves ++ leavesOf rest

namespace Combiner

/-- Whether a leaf can be folded. -/
def Accepts (combiner : Combiner) (leaf : Value) : Prop :=
  leaf.isNumeric ∧ leaf.IsFinite ∧ (combiner = .addReciprocal → leaf.shown ≠ 0)

/-- A total with one more leaf. Of a reciprocal 100 significant digits are kept. -/
def step (combiner : Combiner) (total : ℚ) (leaf : Value) : ℚ :=
  match combiner with
  | add => total + leaf.shown
  | multiply => total * leaf.shown
  | addReciprocal => total + roundedToDigits 100 leaf.shown⁻¹

/-- What a total comes to with more leaves. -/
def combined (combiner : Combiner) (initial : ℚ) (leaves : List Value) : ℚ :=
  match combiner with
  | add => initial + (leaves.map Value.shown).sum
  | multiply => initial * (leaves.map Value.shown).prod
  | addReciprocal => initial + (leaves.map fun leaf => roundedToDigits 100 leaf.shown⁻¹).sum

variable {combiner : Combiner} {leaf : Value}

theorem accepts_iff (h : combiner ≠ .addReciprocal) :
    combiner.Accepts leaf ↔ leaf.isNumeric ∧ leaf.IsFinite := by
  simp [Accepts, h]

theorem combined_nil (combiner : Combiner) (initial : ℚ) :
    combiner.combined initial [] = initial := by
  cases combiner <;> simp [combined]

theorem combined_singleton (combiner : Combiner) (initial : ℚ) (leaf : Value) :
    combiner.combined initial [leaf] = combiner.step initial leaf := by
  cases combiner <;> simp [combined, step]

theorem combined_append (combiner : Combiner) (initial : ℚ) (xs ys : List Value) :
    combiner.combined initial (xs ++ ys) = combiner.combined (combiner.combined initial xs) ys := by
  cases combiner <;> simp [combined, add_assoc, mul_assoc]

/-- Leaves that are folded one after the other come to their sum or product. -/
theorem foldl_step (combiner : Combiner) (initial : ℚ) (leaves : List Value) :
    leaves.foldl combiner.step initial = combiner.combined initial leaves := by
  induction leaves generalizing initial with
  | nil => exact (combiner.combined_nil initial).symm
  | cons leaf rest ih =>
    rw [List.foldl_cons, ih, ← combined_singleton, ← combined_append, List.singleton_append]

/-- The order of leaves has no part in the total. -/
theorem combined_perm (combiner : Combiner) (initial : ℚ) {xs ys : List Value} (h : xs.Perm ys) :
    combiner.combined initial xs = combiner.combined initial ys := by
  cases combiner <;> simp only [combined]
  · rw [(h.map _).sum_eq]
  · rw [(h.map _).prod_eq]
  · rw [(h.map _).sum_eq]

/-- Folding the decimal of a leaf comes to combining its number with the total. -/
theorem value_combine? {total x next : Exact} (hx : x.value = leaf.shown)
    (h : combiner.combine? total x = some next) :
    next.value = combiner.step total.value leaf := by
  cases combiner with
  | add =>
    obtain rfl := Option.some.inj h
    rw [Exact.value_add, hx, step]
  | multiply =>
    obtain rfl := Option.some.inj h
    rw [Exact.value_mul, hx, step]
  | addReciprocal =>
    simp only [combine?] at h
    split at h
    · simp at h
    · rename_i hzero
      obtain rfl := Option.some.inj h
      rw [Exact.value_add, Exact.value_inverse (mt Exact.isZero_iff.mpr hzero), hx]
      rfl

end Combiner

namespace Accumulator

variable {acc : Accumulator}

/-- A leaf that can be folded goes into count and total together. -/
theorem addLeaf_of_accepts {leaf : Value} (h : acc.combiner.Accepts leaf) (name : String)
    (index : ℕ) :
    ∃ total, acc.addLeaf name index leaf = .ok { acc with count := acc.count + 1, total } ∧
      total.value = acc.combiner.step acc.total.value leaf := by
  obtain ⟨hnumeric, hfinite, hnonzero⟩ := h
  obtain ⟨x, hexact, hx⟩ := Value.exists_toExact? hnumeric hfinite
  have hcombine : ∃ total, acc.combiner.combine? acc.total x = some total := by
    cases hc : acc.combiner with
    | add => exact ⟨_, rfl⟩
    | multiply => exact ⟨_, rfl⟩
    | addReciprocal =>
      have hne : ¬x.isZero = true := by
        rw [Exact.isZero_iff, hx]
        exact hnonzero hc
      exact ⟨_, by rw [Combiner.combine?, if_neg hne]⟩
  obtain ⟨total, htotal⟩ := hcombine
  refine ⟨total, ?_, Combiner.value_combine? hx htotal⟩
  rw [addLeaf, if_pos hnumeric, hexact]
  simp only [htotal]

theorem addLeaf_of_not_accepts {leaf : Value} (h : ¬acc.combiner.Accepts leaf) (name : String)
    (index : ℕ) : ∃ error, acc.addLeaf name index leaf = .error error := by
  unfold addLeaf
  split
  · rename_i hnumeric
    split
    · exact ⟨_, rfl⟩
    · rename_i x hx
      have hfinite : leaf.IsFinite :=
        (Value.isSome_toExact?_iff.mp (by rw [hx, Option.isSome_some])).2
      split
      · exact ⟨_, rfl⟩
      · rename_i total htotal
        refine absurd ⟨hnumeric, hfinite, ?_⟩ h
        intro hc hz
        rw [← Value.value_of_toExact? hx, ← Exact.isZero_iff] at hz
        simp [hc, Combiner.combine?, hz] at htotal
  · exact ⟨_, rfl⟩

/-- What folding leaves comes to: all of them are counted and combined with the total, or one of
them is not accepted. -/
def Folded (acc : Accumulator) (leaves : List Value) :
    Accumulator × Except EvalError Unit → Prop
  | (next, .ok ()) => (∀ leaf ∈ leaves, acc.combiner.Accepts leaf) ∧
      next.combiner = acc.combiner ∧ next.count = acc.count + leaves.length ∧
      next.total.value = acc.combiner.combined acc.total.value leaves
  | (_, .error _) => ∃ leaf ∈ leaves, ¬acc.combiner.Accepts leaf

theorem Folded.nil : acc.Folded [] (acc, .ok ()) :=
  ⟨by simp, rfl, rfl, (acc.combiner.combined_nil _).symm⟩

theorem Folded.append {next : Accumulator} {xs ys : List Value}
    {r : Accumulator × Except EvalError Unit} (hx : acc.Folded xs (next, .ok ()))
    (hy : next.Folded ys r) : acc.Folded (xs ++ ys) r := by
  obtain ⟨haccepts, hcombiner, hcount, htotal⟩ := hx
  rcases r with ⟨last, error | done⟩
  · obtain ⟨leaf, hleaf, hnot⟩ := hy
    rw [hcombiner] at hnot
    exact ⟨leaf, List.mem_append_right _ hleaf, hnot⟩
  · obtain ⟨haccepts', hcombiner', hcount', htotal'⟩ := hy
    rw [hcombiner] at haccepts' hcombiner' htotal'
    refine ⟨?_, hcombiner', ?_, ?_⟩
    · intro leaf hleaf
      rcases List.mem_append.mp hleaf with h | h
      · exact haccepts leaf h
      · exact haccepts' leaf h
    · rw [hcount', hcount, List.length_append, Nat.add_assoc]
    · rw [htotal', htotal, Combiner.combined_append]

/-- A failure ends the fold, whatever comes after it; else the fold goes on. -/
theorem Folded.followed {xs ys : List Value} {r : Accumulator × Except EvalError Unit}
    {go : Accumulator → Accumulator × Except EvalError Unit}
    (hy : ∀ next : Accumulator, next.Folded ys (go next)) :
    acc.Folded xs r → acc.Folded (xs ++ ys)
      (match r with
      | (next, .ok ()) => go next
      | failed => failed) := by
  intro hx
  rcases r with ⟨next, error | done⟩
  · obtain ⟨leaf, hleaf, hnot⟩ := hx
    exact ⟨leaf, List.mem_append_left _ hleaf, hnot⟩
  · exact hx.append (hy next)

theorem addLeaf_folded (acc : Accumulator) (name : String) (index : ℕ) (leaf : Value) :
    acc.Folded [leaf]
      (match acc.addLeaf name index leaf with
      | .ok next => (next, .ok ())
      | .error error => (acc, .error error)) := by
  by_cases h : acc.combiner.Accepts leaf
  · obtain ⟨total, hadd, htotal⟩ := addLeaf_of_accepts h name index
    rw [hadd]
    exact ⟨by simpa using h, rfl, rfl, htotal.trans (Combiner.combined_singleton _ _ _).symm⟩
  · obtain ⟨error, hadd⟩ := addLeaf_of_not_accepts h name index
    rw [hadd]
    exact ⟨leaf, List.mem_singleton_self leaf, h⟩

mutual

/-- Folding a nested value comes to folding its leaves. -/
theorem accumulate_folded (acc : Accumulator) (name : String) (index : ℕ) :
    ∀ v : Value, acc.Folded v.leaves (acc.accumulate name index v)
  | .collection items => by
    rw [accumulate]
    exact accumulateItems_folded acc name index items
  | .byte _ | .short _ | .integer _ | .long _ | .float _ | .double _ | .decimal _ | .string _
  | .map _ => addLeaf_folded acc name index _

theorem accumulateItems_folded (acc : Accumulator) (name : String) (index : ℕ) :
    ∀ items : List Value, acc.Folded (Value.leaves.leavesOf items)
      (accumulate.accumulateItems name index acc items)
  | [] => Folded.nil
  | item :: rest => by
    rw [Value.leaves.leavesOf, accumulate.accumulateItems]
    exact Folded.followed (fun next => accumulateItems_folded next name index rest)
      (accumulate_folded acc name index item)

end

theorem accumulateFrom_folded (acc : Accumulator) (name : String) (index : ℕ)
    (args : List Value) :
    acc.Folded (args.flatMap Value.leaves) (acc.accumulateFrom name index args) := by
  induction args generalizing acc index with
  | nil => exact Folded.nil
  | cons arg rest ih =>
    rw [List.flatMap_cons, accumulateFrom]
    exact Folded.followed (fun next => ih next (index + 1)) (accumulate_folded acc name index arg)

/-- All arguments go in just if all leaves are accepted. -/
theorem accumulateAll_ok_iff (acc : Accumulator) (name : String) (args : List Value) :
    (acc.accumulateAll name args).2 = .ok () ↔
      ∀ leaf ∈ args.flatMap Value.leaves, acc.combiner.Accepts leaf := by
  have hfolded : acc.Folded _ (acc.accumulateAll name args) := accumulateFrom_folded acc name 0 args
  rcases hall : acc.accumulateAll name args with ⟨last, error | done⟩
  · rw [hall] at hfolded
    obtain ⟨leaf, hleaf, hnot⟩ := hfolded
    exact iff_of_false (by simp) (fun h => hnot (h leaf hleaf))
  · rw [hall] at hfolded
    exact iff_of_true rfl hfolded.1

theorem accumulateAll_total (acc : Accumulator) (name : String) (args : List Value)
    (h : (acc.accumulateAll name args).2 = .ok ()) :
    (acc.accumulateAll name args).1.count = acc.count + (args.flatMap Value.leaves).length ∧
      (acc.accumulateAll name args).1.total.value =
        acc.combiner.combined acc.total.value (args.flatMap Value.leaves) := by
  have hfolded : acc.Folded _ (acc.accumulateAll name args) := accumulateFrom_folded acc name 0 args
  rcases hall : acc.accumulateAll name args with ⟨last, error | done⟩
  · simp [hall] at h
  · rw [hall] at hfolded
    exact hfolded.2.2

theorem run_of_ok {name : String} {args : List Value}
    (h : (acc.accumulateAll name args).2 = .ok ()) :
    acc.run name args = .ok (acc.accumulateAll name args).1 := by
  rw [run]
  generalize acc.accumulateAll name args = done at h
  obtain ⟨last, result⟩ := done
  subst h
  rfl

end Accumulator

/-- What the total of a number is: the decimal that is the number, and the nearest double if there is
none. -/
inductive Value.IsTotal (q : ℚ) : Value → Prop
  | decimal {d : Decimal} (exact : d.value = q) : IsTotal q (.decimal d)
  | double {x : Double} (inexact : ¬∃ d : Decimal, d.value = q) (nearest : x.IsNearest q) :
      IsTotal q (.double x)

/-- One number in one kind. Decimals may differ in their places. -/
inductive Value.SameTotal : Value → Value → Prop
  | decimal {d e : Decimal} (same : d.value = e.value) : SameTotal (.decimal d) (.decimal e)
  | double (x : Double) : SameTotal (.double x) (.double x)

theorem Value.ofExact_isTotal (x : Exact) : (ofExact x).IsTotal x.value := by
  have hsome := Decimal.isSome_ofExact?_iff (x := x)
  unfold ofExact
  cases hx : Decimal.ofExact? x with
  | some d => exact .decimal (Decimal.value_of_ofExact? hx)
  | none =>
    rw [hx] at hsome
    exact .double (fun h => by simpa using hsome.mpr h) x.toBinary_isNearest

theorem Value.IsTotal.same {q : ℚ} {v w : Value} (hv : v.IsTotal q) (hw : w.IsTotal q) :
    v.SameTotal w := by
  cases hv with
  | decimal hd =>
    cases hw with
    | decimal he => exact .decimal (hd.trans he.symm)
    | double inexact _ => exact absurd ⟨_, hd⟩ inexact
  | double inexact hx =>
    cases hw with
    | decimal he => exact absurd ⟨_, he⟩ inexact
    | double _ hy =>
      rw [hx.unique hy]
      exact .double _

/-- A result is the total of some leaves, which there is just if all of them are finite numbers. -/
structure Totals (leaves : List Value) (q : ℚ) (result : Except EvalError Value) : Prop where
  ok_iff : (∃ v, result = .ok v) ↔ ∀ leaf ∈ leaves, leaf.isNumeric ∧ leaf.IsFinite
  total : ∀ v, result = .ok v → v.IsTotal q

/-- Two results that are both errors, or totals that are the same. -/
structure SameResult (first second : Except EvalError Value) : Prop where
  ok_iff : (∃ v, first = .ok v) ↔ ∃ w, second = .ok w
  same : ∀ v w, first = .ok v → second = .ok w → v.SameTotal w

theorem forall_leaf_perm {p : Value → Prop} {leaves others : List Value} (h : leaves.Perm others) :
    (∀ leaf ∈ leaves, p leaf) ↔ ∀ leaf ∈ others, p leaf :=
  forall_congr' fun leaf => by rw [h.mem_iff]

/-- The total of finite numbers is a decimal where there is one. -/
theorem Totals.exists_decimal {leaves : List Value} {q : ℚ} {result : Except EvalError Value}
    (h : Totals leaves q result) (hleaves : ∀ leaf ∈ leaves, leaf.isNumeric ∧ leaf.IsFinite)
    (hq : ∃ d : Decimal, d.value = q) : ∃ d : Decimal, d.value = q ∧ result = .ok (.decimal d) := by
  obtain ⟨v, hv⟩ := h.ok_iff.mpr hleaves
  cases h.total v hv with
  | decimal exact => exact ⟨_, exact, hv⟩
  | double inexact _ => exact absurd hq inexact

theorem Totals.sameResult {leaves others : List Value} {q : ℚ}
    {first second : Except EvalError Value} (hfirst : Totals leaves q first)
    (hsecond : Totals others q second) (h : leaves.Perm others) : SameResult first second where
  ok_iff := by rw [hfirst.ok_iff, hsecond.ok_iff, forall_leaf_perm h]
  same v w hv hw := (hfirst.total v hv).same (hsecond.total w hw)

variable {name : String} {args others : List Value} {v : Value}

theorem run_totals (initial : Exact) {combiner : Combiner} (hcombiner : combiner ≠ .addReciprocal)
    (name : String) (args : List Value) :
    Totals (args.flatMap Value.leaves) (combiner.combined initial.value (args.flatMap Value.leaves))
      (do
        let acc ← (Accumulator.start initial combiner).run name args
        return .ofExact acc.total) := by
  have hok : ((Accumulator.start initial combiner).accumulateAll name args).2 = .ok () ↔
      ∀ leaf ∈ args.flatMap Value.leaves, combiner.Accepts leaf :=
    Accumulator.accumulateAll_ok_iff _ name args
  have htotal := (Accumulator.start initial combiner).accumulateAll_total name args
  simp only [Combiner.accepts_iff hcombiner] at hok
  unfold Accumulator.run
  rcases hall : (Accumulator.start initial combiner).accumulateAll name args with
    ⟨done, error | ok⟩
  · rw [hall] at hok
    constructor
    · rw [← hok]
      simp [bind, Except.bind]
    · intro v hv
      simp [bind, Except.bind] at hv
  · rw [hall] at hok htotal
    have hvalue : done.total.value = combiner.combined initial.value _ := (htotal rfl).2
    constructor
    · rw [← hok]
      simp [bind, Except.bind, pure, Except.pure]
    · intro v hv
      obtain rfl := Except.ok.inj hv
      rw [← hvalue]
      exact Value.ofExact_isTotal done.total

theorem sum_totals (name : String) (args : List Value) :
    Totals (args.flatMap Value.leaves) (Combiner.add.combined 0 (args.flatMap Value.leaves))
      (sum name args) := by
  have h := run_totals .zero (show Combiner.add ≠ .addReciprocal by decide) name args
  rwa [Exact.value_zero] at h

/-- The combiner that a rule folds the leaves with. -/
def ProductRule.combiner : ProductRule → Combiner
  | multiply => .multiply
  | legacyAdditive => .add

theorem product_totals (name : String) (args : List Value) (rule : ProductRule) :
    Totals (args.flatMap Value.leaves) (rule.combiner.combined 1 (args.flatMap Value.leaves))
      (product name args rule) := by
  have hcombiner : rule.combiner ≠ .addReciprocal := by
    cases rule <;> decide
  have h := run_totals .one hcombiner name args
  rw [Exact.value_one] at h
  cases rule <;> exact h

/-- Accumulation is exact: it succeeds just if all leaves can be folded, at whatever depth they are,
and comes to their number and to their total. -/
theorem accumulateAll_exact (initial : Exact) (combiner : Combiner) (name : String)
    (args : List Value) :
    let leaves := args.flatMap Value.leaves
    let done := (Accumulator.start initial combiner).accumulateAll name args
    (done.2 = .ok () ↔ ∀ leaf ∈ leaves, combiner.Accepts leaf) ∧
      (done.2 = .ok () → done.1.count = leaves.length ∧
        done.1.total.value = combiner.combined initial.value leaves) := by
  refine ⟨Accumulator.accumulateAll_ok_iff _ name args, fun h => ?_⟩
  obtain ⟨hcount, htotal⟩ := Accumulator.accumulateAll_total _ name args h
  exact ⟨hcount.trans (Nat.zero_add _), htotal⟩

/-- A run over leaves that can all be folded. -/
theorem exists_run (initial : Exact) {combiner : Combiner} (name : String) {values : Value}
    (h : ∀ leaf ∈ values.leaves, combiner.Accepts leaf) :
    ∃ done, (Accumulator.start initial combiner).run name [values] = .ok done ∧
      done.count = values.leaves.length ∧
      done.total.value = combiner.combined initial.value values.leaves := by
  have hexact := accumulateAll_exact initial combiner name [values]
  simp only [List.flatMap_singleton] at hexact
  obtain ⟨hok, htotal⟩ := hexact
  exact ⟨_, Accumulator.run_of_ok (hok.mpr h), htotal (hok.mpr h)⟩

theorem accumulateAll_perm (initial : Exact) (combiner : Combiner) (name : String)
    (h : (args.flatMap Value.leaves).Perm (others.flatMap Value.leaves)) :
    let done := (Accumulator.start initial combiner).accumulateAll name args
    let done' := (Accumulator.start initial combiner).accumulateAll name others
    (done.2 = .ok () ↔ done'.2 = .ok ()) ∧
      (done.2 = .ok () → done.1.count = done'.1.count ∧
        done.1.total.value = done'.1.total.value) := by
  obtain ⟨hok, htotal⟩ := accumulateAll_exact initial combiner name args
  obtain ⟨hok', htotal'⟩ := accumulateAll_exact initial combiner name others
  have hsame := hok.trans ((forall_leaf_perm h).trans hok'.symm)
  refine ⟨hsame, fun hdone => ?_⟩
  obtain ⟨hc, ht⟩ := htotal hdone
  obtain ⟨hc', ht'⟩ := htotal' (hsame.mp hdone)
  exact ⟨by rw [hc, hc', h.length_eq], by rw [ht, ht', combiner.combined_perm _ h]⟩

/-- Accumulation is exact and depends on the leaves only, not on their order or their nesting. -/
theorem accumulation_of_leaves (args : List Value) :
    let leaves := args.flatMap Value.leaves
    (∀ initial combiner name,
      let done := (Accumulator.start initial combiner).accumulateAll name args
      (done.2 = .ok () ↔ ∀ leaf ∈ leaves, combiner.Accepts leaf) ∧
        (done.2 = .ok () → done.1.count = leaves.length ∧
          done.1.total.value = combiner.combined initial.value leaves)) ∧
    (∀ others, leaves.Perm (others.flatMap Value.leaves) →
      (∀ initial combiner name,
        let done := (Accumulator.start initial combiner).accumulateAll name args
        let done' := (Accumulator.start initial combiner).accumulateAll name others
        (done.2 = .ok () ↔ done'.2 = .ok ()) ∧
          (done.2 = .ok () → done.1.count = done'.1.count ∧
            done.1.total.value = done'.1.total.value)) ∧
      ∀ name, SameResult (sum name args) (sum name others) ∧
        ∀ rule, SameResult (product name args rule) (product name others rule)) ∧
    ∀ name,
      Totals leaves (leaves.map Value.shown).sum (sum name args) ∧
      Totals leaves (leaves.map Value.shown).prod (product name args .multiply) ∧
      Totals leaves (1 + (leaves.map Value.shown).sum) (product name args .legacyAdditive) := by
  intro leaves
  refine ⟨fun initial combiner name => accumulateAll_exact initial combiner name args,
    fun others h => ⟨fun initial combiner name => accumulateAll_perm initial combiner name h,
      fun name => ⟨?_, fun rule => ?_⟩⟩, fun name => ⟨?_, ?_, ?_⟩⟩
  · have hsum := sum_totals name others
    rw [← Combiner.combined_perm _ _ h] at hsum
    exact (sum_totals name args).sameResult hsum h
  · have hproduct := product_totals name others rule
    rw [← Combiner.combined_perm _ _ h] at hproduct
    exact (product_totals name args rule).sameResult hproduct h
  · have hsum := sum_totals name args
    rwa [Combiner.combined, zero_add] at hsum
  · have hproduct := product_totals name args .multiply
    rwa [ProductRule.combiner, Combiner.combined, one_mul] at hproduct
  · exact product_totals name args .legacyAdditive

/-- The number 0.1, whose double is a little more than that, goes with others into 6. -/
theorem accumulation_of_leaves_nested :
    let tenth : Double := .finite false ⟨4591870180066957722, by decide⟩
    let rest : Decimal := ⟨290, 2, by decide, by decide⟩
    let args := [Value.collection [.integer 3, .double tenth], .decimal rest]
    let others :=
      [Value.decimal rest, .collection [.collection [.double tenth], .collection [], .integer 3]]
    (args.flatMap Value.leaves).Perm (others.flatMap Value.leaves) ∧
      (∃ d : Decimal, d.value = 6 ∧ sum "sum" args = .ok (.decimal d)) ∧
      (∃ d : Decimal, d.value = 6 ∧ sum "sum" others = .ok (.decimal d)) ∧
      SameResult (product "product" args .multiply) (product "product" others .multiply) := by
  intro tenth rest args others
  have hperm : (args.flatMap Value.leaves).Perm (others.flatMap Value.leaves) :=
    (List.reverse_perm [Value.integer 3, .double tenth, .decimal rest]).symm
  have htenth : (Value.double tenth).shown = 1 / 10 := by
    have hgrid : BinaryFormat.double.firstOnGrid 4591870180066957722
        (BinaryFormat.double.coarseGrid 4591870180066957722 + BinaryFormat.double.unitBits).toNat =
          ⟨1, -1⟩ := by
      decide +kernel
    have hvalue : (BinaryFormat.double.shortest 4591870180066957722).value = 1 / 10 := by
      rw [BinaryFormat.shortest, if_neg (by decide), Magnitude.value_strip, hgrid, Magnitude.value]
      norm_num
    exact hvalue
  have hrest : (Value.decimal rest).shown = 29 / 10 := by
    have hvalue : rest.value = 29 / 10 := by
      norm_num [Decimal.value, rest]
    exact hvalue
  have hthree : (Value.integer 3).shown = 3 := by
    norm_num [Value.shown, Value.number?, show (3 : Int32).toInt = 3 from rfl]
  have hsix : ∃ d : Decimal, d.value = 6 :=
    ⟨⟨6, 0, by decide, by decide⟩, by norm_num [Decimal.value]⟩
  have hfinite : ∀ leaf ∈ args.flatMap Value.leaves, leaf.isNumeric ∧ leaf.IsFinite :=
    List.forall_mem_cons.mpr ⟨by decide, List.forall_mem_cons.mpr ⟨by decide, by decide⟩⟩
  have hsum : ((args.flatMap Value.leaves).map Value.shown).sum = 6 := by
    have hleaves : args.flatMap Value.leaves = [.integer 3, .double tenth, .decimal rest] := rfl
    rw [hleaves, List.map_cons, List.map_cons, List.map_singleton, hthree, htenth, hrest]
    norm_num
  obtain ⟨-, hothers, hargsTotals⟩ := accumulation_of_leaves args
  obtain ⟨-, -, hothersTotals⟩ := accumulation_of_leaves others
  have hargs := (hargsTotals "sum").1
  have hothersSum := (hothersTotals "sum").1
  rw [hsum] at hargs
  rw [← (hperm.map Value.shown).sum_eq, hsum] at hothersSum
  exact ⟨hperm, hargs.exists_decimal hfinite hsix,
    hothersSum.exists_decimal ((forall_leaf_perm hperm).mp hfinite) hsix,
    ((hothers others hperm).2 "product").2 .multiply⟩

end Reckoner
