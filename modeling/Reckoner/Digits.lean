import Reckoner.Expansion

namespace Reckoner

/-- Decimal figures with a sign, the first of them right after the point: `0.f₁f₂…fₙ` times
`10 ^ integerLength`. `source` compares the magnitude that is meant with the one that is held, which
decides halfway cases when figures of a double are dropped. -/
structure Digits where
  negative : Bool
  figures : List Nat
  integerLength : Int
  source : Ordering
  deriving DecidableEq

namespace Digits

/-- The whole number that figures spell. -/
def number (figures : List Nat) : Nat :=
  figures.foldl (fun n figure => 10 * n + figure) 0

def magnitude (d : Digits) : Magnitude :=
  ⟨number d.figures, d.integerLength - d.figures.length⟩

def isZero (d : Digits) : Bool :=
  d.figures.isEmpty

/-- The figure of a digit. -/
def figure (c : Char) : Nat :=
  c.toNat - '0'.toNat

/-- Figures without the zeros after them. -/
def trimEnd (figures : List Nat) : List Nat :=
  (figures.reverse.dropWhile (· == 0)).reverse

/-- Takes figures of which so many stand before the point. -/
def ofParts (negative : Bool) (all : List Nat) (whole : Int) : Digits :=
  let leading := (all.takeWhile (· == 0)).length
  let figures := trimEnd (all.dropWhile (· == 0))
  ⟨negative, figures, if figures.isEmpty then 0 else whole - leading, .eq⟩

/-- A text before and after its first point. -/
def splitPoint (text : List Char) : List Char × List Char :=
  (text.takeWhile (· ≠ '.'), (text.dropWhile (· ≠ '.')).tail)

/-- Reads digits with at most one point among them. -/
def ofUnsigned? (negative : Bool) (text : List Char) : Option Digits :=
  let (whole, fraction) := splitPoint text
  let all := whole ++ fraction
  if all ≠ [] ∧ all.all Char.isDigit then some (ofParts negative (all.map figure) whole.length)
  else none

/-- Reads a plain text, which has no sign but perhaps a minus before it. -/
def ofPlain? : List Char → Option Digits
  | '-' :: rest => ofUnsigned? true rest
  | text => ofUnsigned? false text

/-- The shortest text of a finite double. `2.675` is stored just below `2.675`, so it is rounded
down to two places. -/
def ofRank? (negative : Bool) (rank : Fin BinaryFormat.double.ranks) : Option Digits :=
  let x : Double := .finite negative rank
  (ofPlain? x.plain.toList).map fun d =>
    { d with source := x.abs.expansion.compare (Exact.ofMagnitude false d.magnitude) }

/-- Multiplies by `10 ^ places`. -/
def shift (d : Digits) (places : Int) : Digits :=
  if d.isZero then d else { d with integerLength := d.integerLength + places }

/-- Moves the point behind so many figures. -/
def withIntegerLength (d : Digits) (length : Int) : Digits :=
  if d.isZero then d else { d with integerLength := length }

/-- Adds one to a number whose last figure comes first. Tells whether nines carried out of it. -/
def addOne : List Nat → List Nat × Bool
  | [] => ([], true)
  | figure :: rest =>
    if figure = 9 then
      let (rest, carried) := addOne rest
      (0 :: rest, carried)
    else ((figure + 1) :: rest, false)

/-- Adds one to the last figure. -/
def increment (d : Digits) : Digits :=
  let (figures, carried) := addOne d.figures.reverse
  if carried then
    { d with figures := 1 :: figures.reverse, integerLength := d.integerLength + 1 }
  else { d with figures := figures.reverse }

def trim (d : Digits) : Digits :=
  let figures := trimEnd d.figures
  { d with figures, integerLength := if figures.isEmpty then 0 else d.integerLength }

/-- Whether the figures kept go up when those after them are dropped. -/
def roundsUp (d : Digits) (keep : Nat) : Bool :=
  match compare (d.figures.getD keep 0) 5, decide (keep + 1 < d.figures.length), d.source with
  | .gt, _, _ | .eq, true, _ => true
  | .eq, false, .eq => 0 < keep && d.figures.getD (keep - 1) 0 % 2 == 1
  | .eq, false, source => source == .gt
  | .lt, _, _ => false

/-- Rounds to at most so many places, halfway cases as `source` says and else to the even figure. -/
def round (d : Digits) (places : Nat) : Digits :=
  let keep := d.integerLength + places
  if d.figures.length ≤ keep then d
  else if keep < 0 then { d with figures := [], integerLength := 0 }
  else
    let kept := { d with figures := d.figures.take keep.toNat, source := .eq }
    (if d.roundsUp keep.toNat then kept.increment else kept).trim

/-- The figures before the point, without leading zeros. -/
def integerDigits (d : Digits) : List Nat :=
  let length := d.integerLength.toNat
  d.figures.take length ++ List.replicate (length - d.figures.length) 0

/-- The figures after the point, without trailing zeros. -/
def fractionDigits (d : Digits) : List Nat :=
  if 0 ≤ d.integerLength then d.figures.drop d.integerLength.toNat
  else List.replicate (-d.integerLength).toNat 0 ++ d.figures

/-- Figures with no zero at either end, and the one form of zero. -/
structure Normal (figures : List Nat) (integerLength : Int) : Prop where
  le_nine : ∀ figure ∈ figures, figure ≤ 9
  head : figures.head? ≠ some 0
  last : figures.getLast? ≠ some 0
  zero : figures = [] → integerLength = 0

section

variable {d : Digits} {figures : List Nat}

theorem prefix_trimEnd (figures : List Nat) : trimEnd figures <+: figures := by
  have h := List.reverse_prefix.mpr (List.dropWhile_suffix (l := figures.reverse) (· == 0))
  rwa [List.reverse_reverse] at h

theorem getLast?_trimEnd (figures : List Nat) : (trimEnd figures).getLast? ≠ some 0 := by
  intro h
  rw [trimEnd, List.getLast?_reverse] at h
  have hnot := List.head?_dropWhile_not (· == 0) figures.reverse
  simp [h] at hnot

/-- A front part begins as the whole does. -/
theorem head?_of_prefix {front : List Nat} (h : front <+: figures) (hhead : figures.head? ≠ some 0) :
    front.head? ≠ some 0 := by
  obtain ⟨rest, rfl⟩ := h
  cases front with
  | nil => simp
  | cons first front => simpa using hhead

theorem normal_trimEnd {length : Int} (hnine : ∀ figure ∈ figures, figure ≤ 9)
    (hhead : figures.head? ≠ some 0) :
    Normal (trimEnd figures) (if (trimEnd figures).isEmpty then 0 else length) where
  le_nine figure h := hnine figure ((prefix_trimEnd figures).subset h)
  head := head?_of_prefix (prefix_trimEnd figures) hhead
  last := getLast?_trimEnd figures
  zero h := by simp [h]

theorem normal_ofParts (negative : Bool) {all : List Nat} (whole : Int)
    (hnine : ∀ figure ∈ all, figure ≤ 9) :
    Normal (ofParts negative all whole).figures (ofParts negative all whole).integerLength := by
  apply normal_trimEnd
  · intro figure h
    exact hnine figure ((List.dropWhile_suffix _).subset h)
  · intro h
    have hnot := List.head?_dropWhile_not (· == 0) all
    simp [h] at hnot

theorem figure_le_nine {c : Char} (h : c.isDigit) : figure c ≤ 9 := by
  simp only [Char.isDigit, Bool.and_eq_true, decide_eq_true_eq, UInt32.le_iff_toNat_le] at h
  have hhigh : c.toNat ≤ 57 := h.2
  have hzero : '0'.toNat = 48 := rfl
  unfold figure
  omega

theorem normal_ofUnsigned? {negative : Bool} {text : List Char}
    (h : ofUnsigned? negative text = some d) : Normal d.figures d.integerLength := by
  unfold ofUnsigned? at h
  dsimp only at h
  split at h
  · rename_i hall
    cases h
    apply normal_ofParts
    intro n hn
    obtain ⟨c, hc, rfl⟩ := List.mem_map.mp hn
    exact figure_le_nine (List.all_eq_true.mp hall.2 c hc)
  · contradiction

theorem normal_ofPlain? {text : List Char} (h : ofPlain? text = some d) :
    Normal d.figures d.integerLength := by
  unfold ofPlain? at h
  split at h
  · exact normal_ofUnsigned? h
  · exact normal_ofUnsigned? h

theorem normal_ofRank? {negative : Bool} {rank : Fin BinaryFormat.double.ranks}
    (h : ofRank? negative rank = some d) : Normal d.figures d.integerLength := by
  obtain ⟨plain, hplain, rfl⟩ := Option.map_eq_some_iff.mp h
  have hnormal := normal_ofPlain? hplain
  exact hnormal

theorem normal_shift (h : Normal d.figures d.integerLength) (places : Int) :
    Normal (d.shift places).figures (d.shift places).integerLength := by
  unfold shift
  split
  · exact h
  · rename_i hz
    exact ⟨h.le_nine, h.head, h.last, fun hnil => absurd (List.isEmpty_iff.mpr hnil) hz⟩

theorem normal_withIntegerLength (h : Normal d.figures d.integerLength) (length : Int) :
    Normal (d.withIntegerLength length).figures (d.withIntegerLength length).integerLength := by
  unfold withIntegerLength
  split
  · exact h
  · rename_i hz
    exact ⟨h.le_nine, h.head, h.last, fun hnil => absurd (List.isEmpty_iff.mpr hnil) hz⟩

theorem length_addOne (figures : List Nat) : (addOne figures).1.length = figures.length := by
  induction figures with
  | nil => rfl
  | cons figure rest ih =>
    unfold addOne
    split
    · simp [ih]
    · rfl

theorem addOne_le_nine (h : ∀ figure ∈ figures, figure ≤ 9) :
    ∀ figure ∈ (addOne figures).1, figure ≤ 9 := by
  induction figures with
  | nil => simp [addOne]
  | cons first rest ih =>
    have hfirst := h first List.mem_cons_self
    have hrest := ih fun figure hmem => h figure (List.mem_cons_of_mem _ hmem)
    unfold addOne
    split
    · simpa using hrest
    · rename_i hne
      intro figure hmem
      rcases List.mem_cons.mp hmem with rfl | hmem
      · omega
      · exact h figure (List.mem_cons_of_mem _ hmem)

/-- The first figure, which comes last here, stays what it is or goes up, unless it carries. -/
theorem getLast?_addOne (h : figures.getLast? ≠ some 0) (hcarried : (addOne figures).2 = false) :
    (addOne figures).1.getLast? ≠ some 0 := by
  induction figures with
  | nil => simp [addOne] at hcarried
  | cons first rest ih =>
    unfold addOne at hcarried ⊢
    split
    · rename_i hnine
      rw [if_pos hnine] at hcarried
      cases rest with
      | nil => simp [addOne] at hcarried
      | cons next rest =>
        have hlength := length_addOne (next :: rest)
        have hlast := ih (by simpa using h) hcarried
        cases hadd : (addOne (next :: rest)).1 with
        | nil => simp [hadd] at hlength
        | cons after more =>
          rw [hadd] at hlast
          simpa [hadd] using hlast
    · cases rest with
      | nil => simp
      | cons next rest => simpa using h

theorem increment_spec (hnine : ∀ figure ∈ d.figures, figure ≤ 9)
    (hhead : d.figures.head? ≠ some 0) :
    (∀ figure ∈ d.increment.figures, figure ≤ 9) ∧ d.increment.figures.head? ≠ some 0 := by
  have hadded : ∀ figure ∈ (addOne d.figures.reverse).1, figure ≤ 9 := by
    apply addOne_le_nine
    simpa using hnine
  unfold increment
  dsimp only
  split
  · refine ⟨fun figure h => ?_, by simp⟩
    rcases List.mem_cons.mp h with rfl | h
    · decide
    · exact hadded figure (List.mem_reverse.mp h)
  · rename_i hcarried
    refine ⟨fun figure h => hadded figure (List.mem_reverse.mp h), ?_⟩
    rw [List.head?_reverse]
    apply getLast?_addOne
    · rwa [List.getLast?_reverse]
    · simpa using hcarried

theorem normal_round (h : Normal d.figures d.integerLength) (places : Nat) :
    Normal (d.round places).figures (d.round places).integerLength := by
  unfold round
  dsimp only
  split
  · exact h
  · split
    · exact ⟨by simp, by simp, by simp, fun _ => rfl⟩
    · have hnine : ∀ figure ∈ d.figures.take (d.integerLength + places).toNat, figure ≤ 9 :=
        fun figure hmem => h.le_nine figure (List.mem_of_mem_take hmem)
      have hhead := head?_of_prefix (List.take_prefix (d.integerLength + places).toNat _) h.head
      split
      · obtain ⟨hnine, hhead⟩ := increment_spec
          (d := { d with figures := d.figures.take (d.integerLength + places).toNat, source := .eq })
          hnine hhead
        exact normal_trimEnd hnine hhead
      · exact normal_trimEnd hnine hhead

end

end Digits

end Reckoner
