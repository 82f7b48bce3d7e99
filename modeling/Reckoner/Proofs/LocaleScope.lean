import Reckoner.Proofs.CurrencySigns
import Reckoner.Proofs.ReturnKinds

namespace Reckoner

namespace Formatter

variable {f : Formatter}

/-- The same formatter for another currency. -/
def withCurrency (f : Formatter) (currency : String) : Formatter :=
  { f with symbols := { f.symbols with currency } }

theorem renderAffix_currency {affix : List AffixPart} (h : .currency ∉ affix) (s : Symbols)
    (currency : String) : renderAffix { s with currency } affix = renderAffix s affix := by
  induction affix with
  | nil => rfl
  | cons part rest ih =>
    rw [List.mem_cons, not_or] at h
    have hpart : part.render { s with currency } = part.render s := by
      cases part with
      | currency => exact absurd rfl h.1
      | literal c => rfl
      | percent => rfl
      | perMille => rfl
      | minus => rfl
    change part.render { s with currency } ++ renderAffix { s with currency } rest = _
    rw [hpart, ih h.2]
    rfl

theorem affixes_currency (h : .currency ∉ f.pattern.parts) (negative : Bool) :
    .currency ∉ (f.pattern.affixes negative).before ∧
      .currency ∉ (f.pattern.affixes negative).after := by
  simp only [Pattern.parts, Affixes.parts, List.mem_append, not_or] at h
  obtain ⟨⟨hbefore, hafter⟩, hnegative⟩ := h
  unfold Pattern.affixes
  cases negative with
  | false => exact ⟨hbefore, hafter⟩
  | true =>
    cases hown : f.pattern.negative with
    | none => exact ⟨by simpa using hbefore, hafter⟩
    | some own =>
      rw [hown] at hnegative
      simpa [Affixes.parts, not_or] using hnegative

/-- The currency is consulted for the parts that stand for it, and for nothing else. -/
theorem affixes_withCurrency (h : .currency ∉ f.pattern.parts) (currency : String)
    (negative : Bool) : (f.withCurrency currency).affixes negative = f.affixes negative := by
  obtain ⟨hbefore, hafter⟩ := affixes_currency h negative
  exact Prod.ext (renderAffix_currency hbefore f.symbols currency)
    (renderAffix_currency hafter f.symbols currency)

theorem writeNumeral_withCurrency (h : .currency ∉ f.pattern.parts) (currency : String)
    (n : Numeral) : (f.withCurrency currency).writeNumeral n = f.writeNumeral n := by
  have hbody : (f.withCurrency currency).body n = f.body n := rfl
  simp only [writeNumeral, withAffixes, hbody, affixes_withCurrency h]

theorem writeDouble?_withCurrency (h : .currency ∉ f.pattern.parts) (currency : String)
    (x : Double) : (f.withCurrency currency).writeDouble? x = f.writeDouble? x := by
  have hwrite : (f.withCurrency currency).writeNumeral = f.writeNumeral :=
    funext (writeNumeral_withCurrency h currency)
  have hpattern : (f.withCurrency currency).pattern = f.pattern := rfl
  unfold writeDouble?
  rw [hpattern]
  split
  · rfl
  · simp only [withAffixes, affixes_withCurrency h]
    rfl
  · rw [hwrite]

theorem writePlain?_withCurrency (h : .currency ∉ f.pattern.parts) (currency : String)
    (text : String) : (f.withCurrency currency).writePlain? text = f.writePlain? text := by
  have hwrite : (f.withCurrency currency).writeNumeral = f.writeNumeral :=
    funext (writeNumeral_withCurrency h currency)
  unfold writePlain?
  rw [hwrite]
  rfl

theorem writeDouble_withCurrency (h : .currency ∉ f.pattern.parts) (currency : String)
    (x : Double) : (f.withCurrency currency).writeDouble x = f.writeDouble x := by
  rw [writeDouble, writeDouble?_withCurrency h]
  rfl

theorem write?_withCurrency (h : .currency ∉ f.pattern.parts) (currency : String) (v : Value) :
    (f.withCurrency currency).write? v = f.write? v := by
  cases v with
  | float x => exact writeDouble?_withCurrency h currency _
  | double x => exact writeDouble?_withCurrency h currency x
  | decimal d => exact writePlain?_withCurrency h currency _
  | _ => simp only [write?, writePlain?_withCurrency h]

theorem readDigits_withCurrency (currency : String) (d : ReadDigits) (text : List Char) :
    (f.withCurrency currency).readDigits d text = f.readDigits d text := by
  induction text generalizing d with
  | nil => rfl
  | cons c rest ih =>
    rw [readDigits, readDigits, ih, ih, ih]
    rfl

theorem readMagnitude?_withCurrency (currency : String) (text : List Char) :
    (f.withCurrency currency).readMagnitude? text = f.readMagnitude? text := by
  unfold readMagnitude?
  rw [readDigits_withCurrency]
  rfl

theorem readSign?_withCurrency (h : .currency ∉ f.pattern.parts) (currency : String)
    (text : List Char) : (f.withCurrency currency).readSign? text = f.readSign? text := by
  simp only [readSign?, affixes_withCurrency h]

theorem read_withCurrency (h : .currency ∉ f.pattern.parts) (currency : String) (text : String) :
    (f.withCurrency currency).read text = f.read text := by
  have hchars : (f.withCurrency currency).readChars text.toList = f.readChars text.toList := by
    simp only [readChars, readSign?_withCurrency h, affixes_withCurrency h,
      readMagnitude?_withCurrency]
    rfl
  rw [read, hchars]
  rfl

end Formatter

namespace Locale

variable {l l' : Locale}

/-- Locales of one language differ in the currency and its places. -/
theorem conventions_of_language (h : l.language = l'.language) :
    l'.conventions.symbols =
        { l.conventions.symbols with currency := l'.conventions.symbols.currency } ∧
      l'.conventions.percentPattern = l.conventions.percentPattern := by
  unfold conventions
  rw [h]
  exact ⟨rfl, rfl⟩

/-- No locale writes percentages with its currency. -/
theorem percentPattern_signs (l : Locale) :
    (false, currencySign) ∉ Pattern.signs false l.conventions.percentPattern.toList := by
  change _ ∉ Pattern.signs false (languageConventions l.language).2.2.toList
  unfold languageConventions
  split <;> decide

end Locale

/-- A pattern that is not compiled to anything that stands for the currency. -/
def Pattern.WithoutCurrency (source : String) : Prop :=
  ∀ p, compile source = .ok p → .currency ∉ p.parts

/-- Currency signs between quotes are no obstacle. -/
theorem Pattern.withoutCurrency_of_signs {source : String}
    (h : (false, Locale.currencySign) ∉ signs false source.toList) :
    WithoutCurrency source := by
  intro p hp
  have hcount := count_currency hp false
  rw [List.count_eq_zero.mpr h] at hcount
  exact List.count_eq_zero.mp hcount

variable {l l' : Locale} {name source : String} {args : List Value}

theorem Formatter.ofPattern_language (h : l.language = l'.language) (source : String) :
    ofPattern source l' =
      (ofPattern source l).map (withCurrency · l'.conventions.symbols.currency) := by
  unfold ofPattern
  rw [(Locale.conventions_of_language h).1]
  cases Pattern.compile source <;> rfl

/-- What reads or writes by a pattern gives one result for locales of one language. -/
theorem bind_formatterOf {α : Type} (h : l.language = l'.language)
    (hsource : Pattern.WithoutCurrency source) {run : Formatter → Except EvalError α}
    (hrun : ∀ f currency, .currency ∉ f.pattern.parts →
      run (f.withCurrency currency) = run f) :
    (formatterOf (Formatter.ofPattern source l') >>= run) =
      (formatterOf (Formatter.ofPattern source l) >>= run) := by
  rw [Formatter.ofPattern_language h]
  cases hformatter : Formatter.ofPattern source l with
  | error fault => rfl
  | ok f =>
    have hpattern : Pattern.compile source = .ok f.pattern :=
      Pattern.compile_ok.mpr (Formatter.ofPattern_ok hformatter).1
    exact hrun f _ (hsource f.pattern hpattern)

theorem textArgument_zero (h : textArgument name args 0 = .ok source) :
    args[0]? = some (.string source) := by
  obtain ⟨v, hv, htext⟩ := bind_eq_ok.mp h
  unfold argument at hv
  cases hzero : args[0]? with
  | none => simp [hzero] at hv
  | some w =>
    rw [hzero] at hv
    obtain rfl := Except.ok.inj hv
    cases w <;> simp_all [Value.text?, pure, Except.pure]

theorem percentFormat_language (h : l.language = l'.language) (name : String)
    (args : List Value) : percentFormat name args l = percentFormat name args l' := by
  unfold percentFormat Formatter.percent
  rw [(Locale.conventions_of_language h).2]
  refine congrArg _ (funext fun x => ?_)
  refine (bind_formatterOf h (Pattern.withoutCurrency_of_signs l.percentPattern_signs) ?_).symm
  intro f currency hf
  rw [Formatter.writeDouble_withCurrency hf]

theorem numberFormat_language (h : l.language = l'.language) (name : String)
    (hargs : ∀ source, args[0]? = some (.string source) → Pattern.WithoutCurrency source) :
    numberFormat name args l = numberFormat name args l' := by
  unfold numberFormat
  cases htext : textArgument name args 0 with
  | error fault => rfl
  | ok source =>
    refine (bind_formatterOf h (hargs source (textArgument_zero htext)) ?_).symm
    intro f currency hf
    simp only [Formatter.write?_withCurrency hf]

theorem parseNumber_language (h : l.language = l'.language) (name : String)
    (hargs : ∀ source, args[0]? = some (.string source) → Pattern.WithoutCurrency source) :
    parseNumber name args l = parseNumber name args l' := by
  unfold parseNumber
  cases htext : textArgument name args 0 with
  | error fault => rfl
  | ok source =>
    change (textArgument name args 1 >>= _) = (textArgument name args 1 >>= _)
    refine congrArg _ (funext fun text => ?_)
    refine (bind_formatterOf h (hargs source (textArgument_zero htext)) ?_).symm
    intro f currency hf
    rw [Formatter.read_withCurrency hf]

namespace Builtin

/-- The built-ins that write or read by the conventions of a locale. -/
def localized : List Builtin :=
  [numberFormat, currencyFormat, percentFormat, parseNumber]

theorem run_of_not_localized {b : Builtin} (h : b ∉ localized) (rule : ProductRule) :
    b.run rule l args = b.run rule l' args := by
  cases b with
  | numberFormat => simp [localized] at h
  | currencyFormat => simp [localized] at h
  | percentFormat => simp [localized] at h
  | parseNumber => simp [localized] at h
  | _ => rfl

end Builtin

namespace Evaluator

theorem evaluate_of_run (e : Evaluator)
    (h : ∀ b, e.registry.resolve name = some (.builtin b) →
      b.run e.config.product l args = b.run e.config.product l' args) :
    e.evaluate name args l = e.evaluate name args l' := by
  unfold evaluate
  split
  · rfl
  · cases hroute : e.registry.resolve name with
    | none => rfl
    | some route =>
      cases route with
      | expression => rfl
      | operation => rfl
      | builtin b =>
        simp only [evaluateBuiltin, h b hroute]

theorem evaluate_name_of_run (e : Evaluator) {b : Builtin}
    (h : b.run e.config.product l args = b.run e.config.product l' args) :
    e.evaluate b.name args l = e.evaluate b.name args l' := by
  refine e.evaluate_of_run fun c hc => ?_
  have hb : e.registry.resolve b.name = some (.builtin b) :=
    Registry.resolve_build_builtin e.config.group e.operations.names e.config.expression b
  obtain rfl : b = c := by simpa using hb.symm.trans hc
  exact h

/-- What the locale has a part in. Only four built-ins look at it; of these, the ones that write no
amounts depend on its language alone where no pattern calls for the currency; and a pattern calls
for it with the currency signs that it has outside quotes, those between quotes being text. -/
theorem locale_confined (e : Evaluator) (name : String) (args : List Value) (l l' : Locale) :
    ((∀ b ∈ Builtin.localized, e.registry.resolve name ≠ some (.builtin b)) →
      e.evaluate name args l = e.evaluate name args l') ∧
    (l.language = l'.language →
      e.evaluate Builtin.percentFormat.name args l =
        e.evaluate Builtin.percentFormat.name args l' ∧
      ∀ b ∈ [Builtin.numberFormat, Builtin.parseNumber],
        (∀ source, args[0]? = some (.string source) → Pattern.WithoutCurrency source) →
          e.evaluate b.name args l = e.evaluate b.name args l') ∧
    ∀ source,
      ((false, Locale.currencySign) ∉ Pattern.signs false source.toList →
        Pattern.WithoutCurrency source) ∧
      ∀ p, Pattern.compile source = .ok p →
        p.parts.count .currency =
            (Pattern.signs false source.toList).count (false, Locale.currencySign) ∧
          p.parts.count (.literal Locale.currencySign) =
            (Pattern.signs false source.toList).count (true, Locale.currencySign) := by
  refine ⟨fun h => ?_, fun h => ⟨?_, fun b hb hargs => ?_⟩, fun source =>
    ⟨Pattern.withoutCurrency_of_signs, fun p hp => ?_⟩⟩
  · refine e.evaluate_of_run fun b hb => ?_
    exact Builtin.run_of_not_localized (fun hmem => h b hmem hb) _
  · exact e.evaluate_name_of_run (percentFormat_language h _ args)
  · refine e.evaluate_name_of_run ?_
    simp only [List.mem_cons, List.not_mem_nil, or_false] at hb
    rcases hb with rfl | rfl
    · exact numberFormat_language h _ hargs
    · exact parseNumber_language h _ hargs
  · exact ⟨Pattern.count_currency hp false, Pattern.count_currency hp true⟩

theorem locale_confined_quoted :
    (alone.evaluate "sum" [.integer 1] .enUS = alone.evaluate "sum" [.integer 1] ⟨"fr", none⟩ ∧
      alone.evaluate "numberFormat" [.string "0 '\u00a4'", .integer 1] ⟨"en", none⟩ =
        alone.evaluate "numberFormat" [.string "0 '\u00a4'", .integer 1] ⟨"en", some "GB"⟩) ∧
      ∃ p, Pattern.compile "0 '\u00a4'" = .ok p ∧ p.parts.count .currency = 0 ∧
        p.parts.count (.literal Locale.currencySign) = 1 := by
  obtain ⟨hsum, _⟩ := alone.locale_confined "sum" [.integer 1] .enUS ⟨"fr", none⟩
  obtain ⟨_, hlanguage, hpatterns⟩ := alone.locale_confined "numberFormat"
    [.string "0 '\u00a4'", .integer 1] ⟨"en", none⟩ ⟨"en", some "GB"⟩
  obtain ⟨hfree, hcounts⟩ := hpatterns "0 '\u00a4'"
  have hsource : Pattern.WithoutCurrency "0 '\u00a4'" := hfree (by decide)
  have hargs : ∀ source, [Value.string "0 '\u00a4'", .integer 1][0]? = some (.string source) →
      Pattern.WithoutCurrency source := by
    rintro _ ⟨⟩
    exact hsource
  refine ⟨⟨hsum ?_, (hlanguage rfl).2 .numberFormat (by simp) hargs⟩, ?_⟩
  · intro b hb hroute
    have hname : alone.registry.resolve Builtin.sum.name = some (.builtin .sum) :=
      Registry.resolve_build_builtin _ _ _ .sum
    obtain rfl : Builtin.sum = b := by simpa using hname.symm.trans hroute
    simp [Builtin.localized] at hb
  · obtain ⟨p, hp⟩ : ∃ p, Pattern.compile "0 '\u00a4'" = .ok p := ⟨_, rfl⟩
    exact ⟨p, hp, (hcounts p hp).1, (hcounts p hp).2⟩

end Evaluator

end Reckoner
