import Mathlib.Data.String.Basic
import Reckoner.Formatter.Basic

namespace Reckoner

/-- A list is split at its first separator, and then what comes after it. -/
theorem splitOnP_cases {α : Type} (p : α → Bool) (xs : List α) :
    (∀ x ∈ xs, p x = false) ∧ xs.splitOnP p = [xs] ∨
      ∃ before separator after, xs = before ++ separator :: after ∧
        (∀ x ∈ before, p x = false) ∧ p separator = true ∧
        xs.splitOnP p = before :: after.splitOnP p := by
  induction xs with
  | nil => exact Or.inl ⟨by simp, List.splitOnP_nil⟩
  | cons x xs ih =>
    cases hx : p x with
    | true =>
      have hnone : ∀ y ∈ ([] : List α), p y = false := by simp
      exact Or.inr ⟨[], x, xs, rfl, hnone, hx,
        List.splitOnP_append_cons_of_forall_mem hnone x hx xs⟩
    | false =>
      rcases ih with ⟨hall, -⟩ | ⟨before, separator, after, rfl, hbefore, hseparator, -⟩
      · have hall' : ∀ y ∈ x :: xs, p y = false := List.forall_mem_cons.mpr ⟨hx, hall⟩
        exact Or.inl ⟨hall', List.splitOnP_eq_singleton hall'⟩
      · have hbefore' : ∀ y ∈ x :: before, p y = false := List.forall_mem_cons.mpr ⟨hx, hbefore⟩
        exact Or.inr ⟨x :: before, separator, after, rfl, hbefore', hseparator,
          List.splitOnP_append_cons_of_forall_mem hbefore' separator hseparator after⟩

theorem ascii_of_isAlphanum {c : Char} (h : c.isAlphanum) : c.toNat < 128 ∧ c ≠ '-' ∧ c ≠ '_' := by
  have hcode : (65 ≤ c.toNat ∧ c.toNat ≤ 90 ∨ 97 ≤ c.toNat ∧ c.toNat ≤ 122) ∨
      48 ≤ c.toNat ∧ c.toNat ≤ 57 := by
    delta Char.isAlphanum Char.isAlpha Char.isUpper Char.isLower Char.isDigit at h
    simpa [UInt32.le_iff_toNat_le] using h
  refine ⟨by omega, ?_, ?_⟩
  · rintro rfl
    simp at hcode
  · rintro rfl
    simp at hcode

/-- What holds of the ASCII characters holds of letters and digits. -/
theorem forall_of_isAlphanum {p : Char → Prop} (h : ∀ code < 128, p (Char.ofNat code)) :
    ∀ c : Char, c.isAlphanum → p c := by
  intro c hc
  have hcode := h c.toNat (ascii_of_isAlphanum hc).1
  rwa [Char.ofNat_toNat] at hcode

/-- Letters and digits take a byte each. -/
theorem utf8ByteSize_of_isAlphanum {text : List Char} (h : ∀ c ∈ text, c.isAlphanum) :
    (String.ofList text).utf8ByteSize = text.length := by
  rw [String.utf8ByteSize_ofList]
  induction text with
  | nil => rfl
  | cons c rest ih =>
    have hcode : c.toNat < 128 := (ascii_of_isAlphanum (h c List.mem_cons_self)).1
    have hsize : c.utf8Size = 1 := by
      rw [Char.utf8Size_eq_one_iff, UInt32.le_iff_toNat_le]
      exact Nat.le_of_lt_succ hcode
    rw [String.utf8Len_cons, ih fun d hd => h d (List.mem_cons_of_mem c hd), hsize, List.length_cons]

namespace Locale

/-- The language of a tag is two or three letters. -/
def IsLanguage (part : List Char) : Prop :=
  (part.length = 2 ∨ part.length = 3) ∧ ∀ c ∈ part, c.isAlpha

/-- The region of a tag is two letters or three digits. -/
def IsRegion (part : List Char) : Prop :=
  part.length = 2 ∧ (∀ c ∈ part, c.isAlpha) ∨ part.length = 3 ∧ ∀ c ∈ part, c.isDigit

/-- A tag with its language and its region. -/
inductive IsTag : List Char → List Char → Option (List Char) → Prop
  | language {language : List Char} (hlanguage : IsLanguage language) : IsTag language language none
  | region {language region : List Char} {separator : Char} (hlanguage : IsLanguage language)
      (hseparator : separator = '-' ∨ separator = '_') (hregion : IsRegion region) :
      IsTag (language ++ separator :: region) language (some region)

/-- A language and a region with a hyphen between them. -/
def hyphenated (language : List Char) : Option (List Char) → List Char
  | none => language
  | some region => language ++ '-' :: region

/-- A tag in lower case with hyphens. -/
def folded (tag : List Char) : List Char :=
  tag.map fun c => if c = '_' then '-' else c.toLower

variable {part language : List Char} {region : Option (List Char)} {tag : String} {l : Locale}

theorem isAlphanum_of_isAlpha {c : Char} (h : c.isAlpha) : c.isAlphanum := by
  rw [Char.isAlphanum, h, Bool.true_or]

theorem isAlphanum_of_isDigit {c : Char} (h : c.isDigit) : c.isAlphanum := by
  rw [Char.isAlphanum, h, Bool.or_true]

/-- The bytes of a part are as many as its characters where these are letters or digits. -/
theorem byteSize_iff {p : Char → Bool} (hp : ∀ {c : Char}, p c → c.isAlphanum) (Q : ℕ → Prop) :
    (Q (String.ofList part).utf8ByteSize ∧ ∀ c ∈ part, p c) ↔
      Q part.length ∧ ∀ c ∈ part, p c := by
  apply and_congr_left
  intro hall
  rw [utf8ByteSize_of_isAlphanum fun c hc => hp (hall c hc)]

theorem isAlphabetic_iff {least most : ℕ} :
    isAlphabetic least most part ↔
      (least ≤ part.length ∧ part.length ≤ most) ∧ ∀ c ∈ part, c.isAlpha := by
  simp only [isAlphabetic, Bool.and_eq_true, decide_eq_true_eq, List.all_eq_true]
  exact byteSize_iff isAlphanum_of_isAlpha fun size => least ≤ size ∧ size ≤ most

theorem isNumeric_iff {size : ℕ} :
    isNumeric size part ↔ part.length = size ∧ ∀ c ∈ part, c.isDigit := by
  simp only [isNumeric, Bool.and_eq_true, beq_iff_eq, List.all_eq_true]
  exact byteSize_iff isAlphanum_of_isDigit fun bytes => bytes = size

theorem isLanguage_iff : isLanguage part ↔ IsLanguage part := by
  rw [isLanguage, isAlphabetic_iff, IsLanguage]
  apply and_congr_left
  intro _
  omega

theorem isRegion_iff : isRegion part ↔ IsRegion part := by
  rw [isRegion, Bool.or_eq_true, isAlphabetic_iff, isNumeric_iff, IsRegion]
  apply or_congr_left
  apply and_congr_left
  intro _
  omega

theorem IsLanguage.isAlphanum (h : IsLanguage part) : ∀ c ∈ part, c.isAlphanum := by
  intro c hc
  exact isAlphanum_of_isAlpha (h.2 c hc)

theorem IsRegion.isAlphanum (h : IsRegion part) : ∀ c ∈ part, c.isAlphanum := by
  intro c hc
  rcases h with ⟨-, hletters⟩ | ⟨-, hdigits⟩
  · exact isAlphanum_of_isAlpha (hletters c hc)
  · exact isAlphanum_of_isDigit (hdigits c hc)

theorem isSeparator_iff {c : Char} : isSeparator c ↔ c = '-' ∨ c = '_' := by
  rw [isSeparator, Bool.or_eq_true, beq_iff_eq, beq_iff_eq]

theorem isSeparator_of_isAlphanum (h : ∀ c ∈ part, c.isAlphanum) :
    ∀ c ∈ part, isSeparator c = false := by
  intro c hc
  obtain ⟨-, hhyphen, hunderscore⟩ := ascii_of_isAlphanum (h c hc)
  rw [← Bool.not_eq_true, isSeparator_iff]
  exact not_or.mpr ⟨hhyphen, hunderscore⟩

theorem IsTag.splitOnP {text : List Char} (h : IsTag text language region) :
    text.splitOnP isSeparator = language :: region.toList ∧ isLanguage language ∧
      ∀ part ∈ region, isRegion part := by
  cases h with
  | language hlanguage =>
    have hparts := isSeparator_of_isAlphanum hlanguage.isAlphanum
    exact ⟨List.splitOnP_eq_singleton hparts, isLanguage_iff.mpr hlanguage, by simp⟩
  | region hlanguage hseparator hregion =>
    have hfirst := isSeparator_of_isAlphanum hlanguage.isAlphanum
    have hsecond := isSeparator_of_isAlphanum hregion.isAlphanum
    refine ⟨?_, isLanguage_iff.mpr hlanguage, by simpa using isRegion_iff.mpr hregion⟩
    rw [List.splitOnP_append_cons_of_forall_mem hfirst _ (isSeparator_iff.mpr hseparator),
      List.splitOnP_eq_singleton hsecond]
    rfl

/-- The tags that are read, and what they are read as. -/
theorem ofTag?_eq_some_iff :
    ofTag? tag = some l ↔ ∃ language region, IsTag tag.toList language region ∧
      l = ofParts (String.ofList language) (region.map String.ofList) := by
  constructor
  · intro h
    rw [ofTag?] at h
    rcases splitOnP_cases isSeparator tag.toList with
      ⟨-, hsplit⟩ | ⟨before, separator, after, htext, -, hseparator, hsplit⟩
    · simp only [hsplit, Option.ite_none_right_eq_some, Option.some.injEq] at h
      exact ⟨tag.toList, none, .language (isLanguage_iff.mp h.1), h.2.symm⟩
    · rcases splitOnP_cases isSeparator after with
        ⟨-, hafter⟩ | ⟨second, _, third, -, -, -, hafter⟩
      · simp only [hsplit, hafter, Option.ite_none_right_eq_some, Option.some.injEq,
          Bool.and_eq_true] at h
        obtain ⟨⟨hlanguage, hregion⟩, rfl⟩ := h
        refine ⟨before, some after, ?_, rfl⟩
        rw [htext]
        exact .region (isLanguage_iff.mp hlanguage) (isSeparator_iff.mp hseparator)
          (isRegion_iff.mp hregion)
      · -- What follows a second separator is a third part, even if it is empty.
        obtain ⟨part, parts, hthird⟩ :=
          List.exists_cons_of_ne_nil (List.splitOnP_ne_nil isSeparator third)
        simp only [hsplit, hafter, hthird, reduceCtorEq] at h
  · rintro ⟨language, region, htag, rfl⟩
    obtain ⟨hsplit, hlanguage, hregion⟩ := htag.splitOnP
    rw [ofTag?, hsplit]
    cases region with
    | none => simp only [Option.toList_none, hlanguage, if_true, Option.map_none]
    | some region =>
      simp only [Option.toList_some, hlanguage, hregion region rfl, Bool.and_self, if_true,
        Option.map_some]

theorem IsTag.ofTag? (h : IsTag tag.toList language region) :
    ofTag? tag = some (ofParts (String.ofList language) (region.map String.ofList)) :=
  ofTag?_eq_some_iff.mpr ⟨language, region, h, rfl⟩

theorem toList_tag_ofParts :
    (ofParts (String.ofList language) (region.map String.ofList)).tag.toList =
      hyphenated (language.map Char.toLower) (region.map (List.map Char.toUpper)) := by
  cases region with
  | none => simp [ofParts, Locale.tag, hyphenated]
  | some region => simp [ofParts, Locale.tag, hyphenated]

/-- A change of case: letters stay the same letters in some case, and digits stay as they are. -/
structure IsRecasing (f : Char → Char) : Prop where
  isAlpha : ∀ c : Char, c.isAlphanum → (f c).isAlpha = c.isAlpha
  digit : ∀ c : Char, c.isAlphanum → c.isDigit → f c = c
  toLower : ∀ c : Char, c.isAlphanum → (f c).toLower = c.toLower
  toUpper : ∀ c : Char, c.isAlphanum → (f c).toUpper = c.toUpper

theorem isRecasing_toLower : IsRecasing Char.toLower where
  isAlpha := forall_of_isAlphanum (by decide)
  digit := forall_of_isAlphanum (by decide)
  toLower := forall_of_isAlphanum (by decide)
  toUpper := forall_of_isAlphanum (by decide)

theorem isRecasing_toUpper : IsRecasing Char.toUpper where
  isAlpha := forall_of_isAlphanum (by decide)
  digit := forall_of_isAlphanum (by decide)
  toLower := forall_of_isAlphanum (by decide)
  toUpper := forall_of_isAlphanum (by decide)

variable {f g : Char → Char}

theorem IsRecasing.forall_isAlpha (hf : IsRecasing f) (h : ∀ c ∈ part, c.isAlpha) :
    ∀ c ∈ part.map f, c.isAlpha := by
  intro c hc
  obtain ⟨d, hd, rfl⟩ := List.mem_map.mp hc
  rw [hf.isAlpha d (isAlphanum_of_isAlpha (h d hd))]
  exact h d hd

theorem IsRecasing.map_digits (hf : IsRecasing f) (h : ∀ c ∈ part, c.isDigit) :
    part.map f = part := by
  have hdigit : ∀ c ∈ part, f c = c := fun c hc =>
    hf.digit c (isAlphanum_of_isDigit (h c hc)) (h c hc)
  rw [List.map_congr_left hdigit, List.map_id']

theorem IsLanguage.map (hf : IsRecasing f) (h : IsLanguage part) : IsLanguage (part.map f) := by
  rw [IsLanguage, List.length_map]
  exact ⟨h.1, hf.forall_isAlpha h.2⟩

theorem IsRegion.map (hf : IsRecasing f) (h : IsRegion part) : IsRegion (part.map f) := by
  rw [IsRegion, List.length_map]
  rcases h with ⟨hlength, hletters⟩ | ⟨hlength, hdigits⟩
  · exact Or.inl ⟨hlength, hf.forall_isAlpha hletters⟩
  · rw [hf.map_digits hdigits]
    exact Or.inr ⟨hlength, hdigits⟩

/-- A tag stays one with its letters in another case and a hyphen. -/
theorem IsTag.recased {text : List Char} (hf : IsRecasing f) (hg : IsRecasing g)
    (h : IsTag text language region) :
    IsTag (hyphenated (language.map f) (region.map (List.map g))) (language.map f)
      (region.map (List.map g)) := by
  cases h with
  | language hlanguage => exact .language (hlanguage.map hf)
  | region hlanguage _ hregion => exact .region (hlanguage.map hf) (Or.inl rfl) (hregion.map hg)

theorem map_ofList : (String.ofList part).map f = String.ofList (part.map f) := by
  apply String.toList_inj.mp
  simp

theorem IsRecasing.map_toLower (hf : IsRecasing f) (h : ∀ c ∈ part, c.isAlphanum) :
    (part.map f).map Char.toLower = part.map Char.toLower := by
  rw [List.map_map]
  exact List.map_congr_left fun c hc => hf.toLower c (h c hc)

theorem IsRecasing.map_toUpper (hf : IsRecasing f) (h : ∀ c ∈ part, c.isAlphanum) :
    (part.map f).map Char.toUpper = part.map Char.toUpper := by
  rw [List.map_map]
  exact List.map_congr_left fun c hc => hf.toUpper c (h c hc)

/-- A tag is read as the same locale in any case and with a hyphen. -/
theorem ofTag?_recased {text : List Char} (hf : IsRecasing f) (hg : IsRecasing g)
    (h : IsTag text language region) :
    Locale.ofTag? (String.ofList (hyphenated (language.map f) (region.map (List.map g)))) =
      some (ofParts (String.ofList language) (region.map String.ofList)) := by
  have htag := h.recased hf hg
  rw [← String.toList_ofList (l := hyphenated _ _)] at htag
  rw [htag.ofTag?, Option.some.injEq]
  cases h with
  | language hlanguage =>
    simp only [ofParts, map_ofList, hf.map_toLower hlanguage.isAlphanum, Option.map_none]
  | region hlanguage _ hregion =>
    simp only [ofParts, map_ofList, hf.map_toLower hlanguage.isAlphanum, Option.map_some,
      hg.map_toUpper hregion.isAlphanum]

/-- What a tag is folded to shows its parts in lower case. -/
theorem IsTag.folded {text : List Char} (h : IsTag text language region) :
    folded text =
      hyphenated (language.map Char.toLower) (region.map (List.map Char.toLower)) := by
  have hpart {part : List Char} (hchars : ∀ c ∈ part, c.isAlphanum) :
      Locale.folded part = part.map Char.toLower := by
    apply List.map_congr_left
    intro c hc
    rw [if_neg (ascii_of_isAlphanum (hchars c hc)).2.2]
  cases h with
  | language hlanguage => exact hpart hlanguage.isAlphanum
  | region hlanguage hseparator hregion =>
    have hfirst := hpart hlanguage.isAlphanum
    have hsecond := hpart hregion.isAlphanum
    rw [Locale.folded] at hfirst hsecond
    rw [Locale.folded, List.map_append, List.map_cons, hfirst, hsecond]
    rcases hseparator with rfl | rfl
    · rfl
    · rfl

/-- The tag of a locale is read as that locale. -/
theorem ofTag?_tag (h : ofTag? tag = some l) : ofTag? l.tag = some l := by
  obtain ⟨language, region, htag, rfl⟩ := ofTag?_eq_some_iff.mp h
  have hread := ofTag?_recased isRecasing_toLower isRecasing_toUpper htag
  rwa [← toList_tag_ofParts, String.ofList_toList] at hread

theorem ofTag?_folded (h : ofTag? tag = some l) :
    ofTag? (String.ofList (folded tag.toList)) = some l := by
  obtain ⟨language, region, htag, rfl⟩ := ofTag?_eq_some_iff.mp h
  rw [htag.folded]
  exact ofTag?_recased isRecasing_toLower isRecasing_toLower htag

theorem folded_eq (h : ofTag? tag = some l) :
    folded tag.toList = l.tag.toList.map Char.toLower := by
  obtain ⟨language, region, htag, rfl⟩ := ofTag?_eq_some_iff.mp h
  have hyphen : Char.toLower '-' = '-' := by decide
  rw [htag.folded, toList_tag_ofParts]
  generalize tag.toList = text at htag
  cases htag with
  | language hlanguage =>
    simp only [hyphenated, Option.map_none]
    rw [isRecasing_toLower.map_toLower hlanguage.isAlphanum]
  | region hlanguage _ hregion =>
    simp only [hyphenated, Option.map_some, List.map_append, List.map_cons, hyphen]
    rw [isRecasing_toLower.map_toLower hlanguage.isAlphanum,
      isRecasing_toUpper.map_toLower hregion.isAlphanum]

theorem ofTag_eq_ok_iff : ofTag tag = .ok l ↔ ofTag? tag = some l := by
  rw [ofTag]
  cases ofTag? tag with
  | none => simp
  | some locale => simp

/-- Tags are two or three letters, alone or before a separator and a region. A locale shows as the tag
in lower case with a hyphen and a region in upper case, which is read as the same locale, and tags are
read as one locale just if they are folded to one text. -/
theorem tag_round_trip (t : String) :
    ((∃ l, ofTag t = .ok l) ↔ ∃ language region, IsTag t.toList language region) ∧
    ((¬∃ language region, IsTag t.toList language region) → ofTag t = .error (.invalidLocale t)) ∧
    ∀ l, ofTag t = .ok l →
      (∀ language region, IsTag t.toList language region → l.tag.toList =
        hyphenated (language.map Char.toLower) (region.map (List.map Char.toUpper))) ∧
      ofTag l.tag = .ok l ∧
      (∀ again, ofTag l.tag = .ok again → again.tag = l.tag) ∧
      ∀ t' l', ofTag t' = .ok l' → (l = l' ↔ folded t.toList = folded t'.toList) := by
  simp only [ofTag_eq_ok_iff]
  refine ⟨⟨?_, ?_⟩, ?_, ?_⟩
  · rintro ⟨l, hl⟩
    obtain ⟨language, region, htag, -⟩ := ofTag?_eq_some_iff.mp hl
    exact ⟨language, region, htag⟩
  · rintro ⟨language, region, htag⟩
    exact ⟨_, htag.ofTag?⟩
  · intro hnot
    have hnone : ofTag? t = none := by
      rw [Option.eq_none_iff_forall_ne_some]
      intro l hl
      obtain ⟨language, region, htag, -⟩ := ofTag?_eq_some_iff.mp hl
      exact hnot ⟨language, region, htag⟩
    rw [ofTag, hnone]
  · intro l hl
    refine ⟨?_, ofTag?_tag hl, ?_, ?_⟩
    · intro language region htag
      rw [htag.ofTag?, Option.some.injEq] at hl
      rw [← hl, toList_tag_ofParts]
    · intro again hagain
      rw [ofTag?_tag hl, Option.some.injEq] at hagain
      rw [hagain]
    · intro t' l' hl'
      constructor
      · intro heq
        rw [folded_eq hl, folded_eq hl', heq]
      · intro heq
        -- Each of the two tags is read as its folded text is.
        have hread := ofTag?_folded hl
        rw [heq, ofTag?_folded hl', Option.some.injEq] at hread
        exact hread.symm

/-- A tag in the wrong case with an underscore. -/
theorem tag_round_trip_underscore :
    ofTag "EN_us" = .ok enUS ∧ enUS.tag = "en-US" ∧ ofTag "en-US" = .ok enUS ∧
      folded "EN_us".toList = folded "en-US".toList := by
  have hlanguage : IsLanguage ['E', 'N'] := ⟨Or.inl rfl, List.all_eq_true.mp rfl⟩
  have hregion : IsRegion ['u', 's'] := Or.inl ⟨rfl, List.all_eq_true.mp rfl⟩
  have htag : IsTag "EN_us".toList ['E', 'N'] (some ['u', 's']) :=
    .region hlanguage (Or.inr rfl) hregion
  have hlocale : ofParts (String.ofList ['E', 'N']) (some (String.ofList ['u', 's'])) = enUS := by
    simp [ofParts, enUS, ← String.toList_inj]
  have hfirst : ofTag "EN_us" = .ok enUS := hlocale ▸ ofTag_eq_ok_iff.mpr htag.ofTag?
  have hshown : enUS.tag = "en-US" := by simp [ofParts, enUS, Locale.tag, ← String.toList_inj]
  obtain ⟨-, -, hround⟩ := tag_round_trip "EN_us"
  obtain ⟨-, hagain, -, hsame⟩ := hround enUS hfirst
  rw [hshown] at hagain
  exact ⟨hfirst, hshown, hagain, (hsame "en-US" enUS hagain).mp rfl⟩

end Locale

end Reckoner
