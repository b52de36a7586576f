import FuzzyInference.Proofs.Decimal.ReadBack
import FuzzyInference.Proofs.Scalar.Numeral
import FuzzyInference.Proofs.Scalar.Unsigned
import FuzzyInference.Toml.Reader

/-!
# Written values read back

The reader of a value sees from its first characters what is written there:
a string, a truth value, a date or a number. Digits alone are a whole number,
and digits with a point among them are a number with a fraction, so the two
kinds never pass for each other.

A defined number is written with every place down to its last shortest digit
and at least one behind a point, or as the word for infinity. Both are read back
as the same number, the sign of a zero included.

Results:

* `value_natural`: whole numbers of 63 bits are read back.
* `value_float`: defined numbers are read back.
* `value_bool` and `value_string`: truth values and strings are read back.
-/

namespace FuzzyInference.Toml

/-! ## Digits -/

/-- What may stand behind digits: no digit, and no underscore that would ask for
    one. -/
def Ends (cs : List Char) : Prop := ∀ c ∈ cs.head?, c.isDigit = false ∧ c ≠ '_'

theorem ne_underscore {c : Char} (h : c.isDigit = true) : c ≠ '_' := by
  rintro rfl
  exact absurd h (by decide)

theorem takeDigits_append {ds rest : List Char} (hds : ds.all Char.isDigit = true)
    (hrest : Ends rest) (done : List Char) :
    takeDigits Char.isDigit done (ds ++ rest) = some (done.reverse ++ ds, rest) := by
  induction ds generalizing done with
  | nil =>
    cases rest with
    | nil => simp [takeDigits]
    | cons c rest =>
      obtain ⟨hdigit, hunderscore⟩ := hrest c rfl
      rw [List.nil_append, takeDigits.eq_4 _ _ _ _ hunderscore, hdigit]
      simp
  | cons d ds ih =>
    rw [List.all_cons, Bool.and_eq_true] at hds
    rw [List.cons_append, takeDigits.eq_4 _ _ _ _ (ne_underscore hds.1), if_pos hds.1, ih hds.2]
    simp

theorem digits_append {ds rest : List Char} (hds : ds.all Char.isDigit = true) (hne : ds ≠ [])
    (hrest : Ends rest) : digits Char.isDigit (ds ++ rest) = some (ds, rest) := by
  obtain ⟨d, ds, rfl⟩ := List.exists_cons_of_ne_nil hne
  rw [List.all_cons, Bool.and_eq_true] at hds
  rw [List.cons_append, digits, if_pos hds.1, takeDigits_append hds.2 hrest]
  rfl

/-- The digits of a whole number: at least one, and no zero in front of others. -/
structure IsWhole (ds : List Char) : Prop where
  digits : ds.all Char.isDigit = true
  nonempty : ds ≠ []
  noZero : ds = ['0'] ∨ ds.head? ≠ some '0'

theorem wholeDigits_append {ds rest : List Char} (hds : IsWhole ds) (hrest : Ends rest) :
    wholeDigits (ds ++ rest) = some (ds, rest) := by
  rcases hds.noZero with rfl | hzero
  · rfl
  · obtain ⟨d, ds, rfl⟩ := List.exists_cons_of_ne_nil hds.nonempty
    have hd : d ≠ '0' := fun h => hzero (congrArg some h)
    have hread := digits_append hds.digits hds.nonempty hrest
    rw [List.cons_append] at hread ⊢
    rw [wholeDigits.eq_2 _ fun _ h => hd (List.cons.inj h).1]
    exact hread

theorem ends_newline (rest : List Char) : Ends ('\n' :: rest) := by
  rintro c ⟨⟩
  decide

theorem ends_point (rest : List Char) : Ends ('.' :: rest) := by
  rintro c ⟨⟩
  decide

/-! ## Numbers -/

theorem ofInt?_natCast {n : ℕ} (h : n < Nat.pow 2 63) : ofInt? (n : ℤ) = some (.int n) := by
  have hlow : -((Nat.pow 2 63 : ℕ) : ℤ) ≤ n :=
    (Int.neg_nonpos_of_nonneg (Int.natCast_nonneg _)).trans (Int.natCast_nonneg n)
  exact if_pos ⟨hlow, Int.ofNat_lt.2 h⟩

/-- A whole number at the end of a line. -/
theorem decimal_whole {ds : List Char} (hds : IsWhole ds) (negative : Bool) {n : ℤ}
    (hn : (if negative = true then -(Numeral.natOfDigits ds : ℤ) else Numeral.natOfDigits ds) = n)
    (hbound : ofInt? n = some (.int n)) (rest : List Char) :
    decimal negative (ds ++ '\n' :: rest) = some (.int n, '\n' :: rest) := by
  unfold decimal
  rw [wholeDigits_append hds (ends_newline rest)]
  simp [fractionDigits, power, hn, hbound]

/-- A number with a point at the end of a line. -/
theorem decimal_point {ds fs : List Char} (hds : IsWhole ds) (hfs : fs.all Char.isDigit = true)
    (hne : fs ≠ []) (negative : Bool) (rest : List Char)
    (hfinite : (Numeral.toFloat ⟨Numeral.natOfDigits (ds ++ fs), -(fs.length : ℤ)⟩).isInf = false) :
    decimal negative (ds ++ '.' :: (fs ++ '\n' :: rest)) =
      some (.float (Numeral.withSign negative
          (Numeral.toFloat ⟨Numeral.natOfDigits (ds ++ fs), -(fs.length : ℤ)⟩)),
        '\n' :: rest) := by
  unfold decimal
  rw [wholeDigits_append hds (ends_point _)]
  simp [fractionDigits, digits_append hfs hne (ends_newline rest), power, hfinite, Numeral.withSign]

/-- A digit that does not mark another base starts a number without a sign. -/
theorem number_digit {c : Char} (hc : c.isDigit = true) {cs : List Char}
    (hbase : c = '0' → ∀ d ∈ cs.head?, d ≠ 'x' ∧ d ≠ 'o' ∧ d ≠ 'b') :
    number (c :: cs) = decimal false (c :: cs) := by
  have hsign : Numeral.takeSign (c :: cs) = (false, c :: cs) :=
    Numeral.takeSign_of_ne (Numeral.ne_sign_of_digit hc)
  unfold number
  split
  · rename_i heq
    obtain ⟨rfl, rfl⟩ := List.cons.inj heq
    exact absurd rfl (hbase rfl 'x' rfl).1
  · rename_i heq
    obtain ⟨rfl, rfl⟩ := List.cons.inj heq
    exact absurd rfl (hbase rfl 'o' rfl).2.1
  · rename_i heq
    obtain ⟨rfl, rfl⟩ := List.cons.inj heq
    exact absurd rfl (hbase rfl 'b' rfl).2.2
  · rw [hsign]
    dsimp only
    split
    · rename_i heq
      obtain ⟨rfl, -⟩ := List.cons.inj heq
      exact absurd hc (by decide)
    · rename_i heq
      obtain ⟨rfl, -⟩ := List.cons.inj heq
      exact absurd hc (by decide)
    · rfl

theorem number_minus {c : Char} (hc : c.isDigit = true) (cs : List Char) :
    number ('-' :: c :: cs) = decimal true (c :: cs) := by
  have hsign : Numeral.takeSign ('-' :: c :: cs) = (true, c :: cs) := rfl
  unfold number
  split
  · rename_i heq
    exact absurd (List.cons.inj heq).1 (by decide)
  · rename_i heq
    exact absurd (List.cons.inj heq).1 (by decide)
  · rename_i heq
    exact absurd (List.cons.inj heq).1 (by decide)
  · rw [hsign]
    dsimp only
    split
    · rename_i heq
      obtain ⟨rfl, -⟩ := List.cons.inj heq
      exact absurd hc (by decide)
    · rename_i heq
      obtain ⟨rfl, -⟩ := List.cons.inj heq
      exact absurd hc (by decide)
    · rfl

/-! ## No dates -/

theorem after?_digits {ds : List Char} (hds : ds.all Char.isDigit = true) {c separator : Char}
    (hdigit : separator.isDigit = false) (hc : c ≠ separator) (cs : List Char) :
    after? separator (ds ++ c :: cs) = none := by
  cases ds with
  | nil => exact if_neg hc
  | cons d ds =>
    rw [List.all_cons, Bool.and_eq_true] at hds
    refine if_neg ?_
    rintro rfl
    rw [hds.1] at hdigit
    cases hdigit

theorem fixedDigits_eq_some {count lo hi n : ℕ} {ds cs rest : List Char} {c : Char}
    (hc : c.isDigit = false) (h : fixedDigits count lo hi (ds ++ c :: cs) = some (n, rest)) :
    count ≤ ds.length ∧ rest = ds.drop count ++ c :: cs := by
  unfold fixedDigits at h
  simp only at h
  split_ifs at h with hdigits
  have hcount : count ≤ ds.length := by
    by_contra hlt
    rw [not_le] at hlt
    have hmem : c ∈ (ds ++ c :: cs).take count := by
      obtain ⟨k, hk⟩ := Nat.exists_eq_add_of_lt hlt
      have hleft : count - ds.length = k + 1 := by omega
      rw [List.take_append, hleft, List.take_succ_cons]
      simp
    have hdigit := List.all_eq_true.1 hdigits.2.1 c hmem
    rw [hc] at hdigit
    cases hdigit
  cases h
  exact ⟨hcount, List.drop_append_of_le_length hcount⟩

/-- Digits that end with neither separator are no date and no time. -/
theorem moment_eq_none {ds : List Char} (hds : ds.all Char.isDigit = true) {c : Char}
    (hc : c.isDigit = false) (hseparator : ds = [] ∨ c ≠ '-' ∧ c ≠ ':') (cs : List Char) :
    moment (ds ++ c :: cs) = none := by
  have hfails : ∀ {count lo hi : ℕ} {separator : Char}, 0 < count → separator = '-' ∨
      separator = ':' →
      ∀ n rest, fixedDigits count lo hi (ds ++ c :: cs) = some (n, rest) →
        after? separator rest = none := by
    intro count lo hi separator hpos hsep n rest h
    obtain ⟨hcount, rfl⟩ := fixedDigits_eq_some hc h
    have hne := hseparator.resolve_left (by rintro rfl; simp at hcount; omega)
    refine after?_digits ?_ ?_ ?_ cs
    · exact List.all_eq_true.2 fun d hd => List.all_eq_true.1 hds d (List.mem_of_mem_drop hd)
    · rcases hsep with rfl | rfl <;> decide
    · rcases hsep with rfl | rfl
      · exact hne.1
      · exact hne.2
  have hdate : afterDate? (ds ++ c :: cs) = none := by
    unfold afterDate?
    cases hyear : fixedDigits 4 0 9999 (ds ++ c :: cs) with
    | none => rfl
    | some p => simp [hfails (by norm_num) (.inl rfl) p.1 p.2 hyear]
  have htime : afterTime? (ds ++ c :: cs) = none := by
    unfold afterTime?
    cases hhour : fixedDigits 2 0 23 (ds ++ c :: cs) with
    | none => rfl
    | some p => simp [hfails (by norm_num) (.inr rfl) p.1 p.2 hhour]
  unfold moment
  rw [hdate, htime]
  rfl

/-! ## Values -/

/-- Values that start like no other one are numbers, unless they are dates. -/
theorem value_eq_number {c : Char} (hc : c ∉ ['"', '\'', 't', 'f', '[', '\x7b']) (levels : ℕ)
    (cs : List Char) : value levels (c :: cs) = (moment (c :: cs)).or (number (c :: cs)) := by
  simp only [List.mem_cons, List.not_mem_nil, or_false, not_or] at hc
  unfold value
  split
  · rename_i heq
    exact absurd (List.cons.inj heq).1 hc.1
  · rename_i heq
    exact absurd (List.cons.inj heq).1 hc.2.1
  · rename_i heq
    exact absurd (List.cons.inj heq).1 hc.2.2.1
  · rename_i heq
    exact absurd (List.cons.inj heq).1 hc.2.2.2.1
  · rename_i heq
    exact absurd (List.cons.inj heq).1 hc.2.2.2.2.1
  · rename_i heq
    exact absurd (List.cons.inj heq).1 hc.2.2.2.2.2
  · rfl

theorem value_digit {c : Char} (hc : c.isDigit = true) (levels : ℕ) (cs : List Char) :
    value levels (c :: cs) = (moment (c :: cs)).or (number (c :: cs)) := by
  refine value_eq_number ?_ levels cs
  intro hmem
  fin_cases hmem <;> exact absurd hc (by decide)

/-- A number without a sign, at its digits. -/
theorem value_whole {ds : List Char} (hds : IsWhole ds) {c : Char} (hc : c.isDigit = false)
    (hother : c ∉ ['-', ':', 'x', 'o', 'b']) (levels : ℕ) (cs : List Char) :
    value levels (ds ++ c :: cs) = decimal false (ds ++ c :: cs) := by
  simp only [List.mem_cons, List.not_mem_nil, or_false, not_or] at hother
  have hmoment := moment_eq_none hds.digits hc (.inr ⟨hother.1, hother.2.1⟩) cs
  obtain ⟨d, es, rfl⟩ := List.exists_cons_of_ne_nil hds.nonempty
  have hdigits := hds.digits
  rw [List.all_cons, Bool.and_eq_true] at hdigits
  rw [List.cons_append] at hmoment ⊢
  rw [value_digit hdigits.1, hmoment, Option.none_or]
  refine number_digit hdigits.1 ?_
  rintro rfl
  rcases hds.noZero with hzero | hzero
  · rw [(List.cons.inj hzero).2]
    rintro x ⟨⟩
    exact hother.2.2
  · exact absurd rfl hzero

/-- A number that does not start with a digit. -/
theorem value_start {c : Char} (hc : c ∉ ['"', '\'', 't', 'f', '[', '\x7b'])
    (hdigit : c.isDigit = false) (levels : ℕ) (cs : List Char) :
    value levels (c :: cs) = number (c :: cs) := by
  have hmoment : moment (c :: cs) = none := @moment_eq_none [] rfl c hdigit (.inl rfl) cs
  rw [value_eq_number hc, hmoment, Option.none_or]

/-- A number with a minus, at its sign. -/
theorem value_minus {ds : List Char} (hds : IsWhole ds) (levels : ℕ) (cs : List Char) :
    value levels ('-' :: (ds ++ cs)) = decimal true (ds ++ cs) := by
  obtain ⟨d, es, rfl⟩ := List.exists_cons_of_ne_nil hds.nonempty
  have hdigits := hds.digits
  rw [List.all_cons, Bool.and_eq_true] at hdigits
  rw [value_start (by decide) rfl, List.cons_append]
  exact number_minus hdigits.1 _

theorem isWhole_toDigits (n : ℕ) : IsWhole (Nat.toDigits 10 n) where
  digits := Decimal.all_digits n
  nonempty := Nat.toDigits_ne_nil
  noZero := by
    rcases Nat.eq_zero_or_pos n with rfl | hpos
    · exact .inl (Nat.toDigits_zero 10)
    · exact .inr (Numeral.head?_toDigits hpos)

/-- A whole number of 63 bits. -/
theorem value_natural {n : ℕ} (hn : n < Nat.pow 2 63) (levels : ℕ) (rest : List Char) :
    value levels ((toString n).toList ++ '\n' :: rest) = some (.int n, '\n' :: rest) := by
  have htext : (toString n).toList = Nat.toDigits 10 n := Nat.toList_repr
  have hdigits := isWhole_toDigits n
  rw [htext, value_whole hdigits (by decide) (by decide)]
  refine decimal_whole hdigits false ?_ (ofInt?_natCast hn) rest
  rw [Numeral.natOfDigits_toDigits]
  rfl

/-! ## Written numbers -/

/-- Digits with a point among them, as a number with a fraction is written. -/
structure IsPointed (cs : List Char) (d : Decimal) (whole fraction : List Char) : Prop where
  text : cs = whole ++ '.' :: fraction
  isWhole : IsWhole whole
  digits : fraction.all Char.isDigit = true
  nonempty : fraction ≠ []
  value : Decimal.value ⟨Numeral.natOfDigits (whole ++ fraction), -(fraction.length : ℤ)⟩ = d.value

/-- Digits stay a whole number in front of others, if they are not all of them
    zero. -/
theorem IsWhole.append {ds es : List Char} (hds : IsWhole ds) (hzero : ds ≠ ['0'])
    (hes : es.all Char.isDigit = true) : IsWhole (ds ++ es) where
  digits := Decimal.all_append hds.digits hes
  nonempty := List.append_ne_nil_of_left_ne_nil hds.nonempty es
  noZero := by
    rw [List.head?_append_of_ne_nil _ hds.nonempty]
    exact .inr (hds.noZero.resolve_left hzero)

theorem IsWhole.take {ds : List Char} (hds : IsWhole ds) (hzero : ds ≠ ['0']) {k : ℕ} (hk : 0 < k) :
    IsWhole (ds.take k) where
  digits := List.all_eq_true.2 fun d hd => List.all_eq_true.1 hds.digits d (List.mem_of_mem_take hd)
  nonempty := by simp [hds.nonempty, hk.ne']
  noZero := by
    rw [List.head?_take, if_neg hk.ne']
    exact .inr (hds.noZero.resolve_left hzero)

/-- The digits of a magnitude in a configuration. -/
theorem isPointed_magnitude {d : Decimal} (hd : d.coefficient = 0 → 0 ≤ d.exponent) :
    ∃ whole fraction, IsPointed (FloatText.configuration.magnitude d) d whole fraction := by
  have hwhole : IsWhole (Decimal.digits d.coefficient) := isWhole_toDigits d.coefficient
  have hvalue : Numeral.natOfDigits (Decimal.digits d.coefficient) = d.coefficient :=
    Numeral.natOfDigits_toDigits _
  have hpositive : d.coefficient ≠ 0 → Decimal.digits d.coefficient ≠ ['0'] := by
    intro hne heq
    rw [heq] at hvalue
    exact hne hvalue.symm
  have hnegative : ¬ 0 ≤ d.exponent → -((-d.exponent).toNat : ℤ) = d.exponent := by omega
  have htext : FloatText.configuration.magnitude d =
      if 0 ≤ d.exponent then d.positional ++ ['.', '0'] else d.positional := by
    unfold FloatText.magnitude FloatText.configuration
    simp
  rw [htext]
  unfold Decimal.positional
  simp only
  split_ifs with hexponent hzero hzero hplaces
  · refine ⟨['0'], ['0'], rfl, isWhole_toDigits 0, rfl, by simp, ?_⟩
    simp [Decimal.value, hzero, Numeral.natOfDigits]
  · obtain ⟨k, hk⟩ := Int.eq_ofNat_of_zero_le hexponent
    refine ⟨_, ['0'], rfl, hwhole.append (hpositive hzero) (Decimal.all_zeros _), rfl, by simp, ?_⟩
    have hzeros : Numeral.natOfDigits (Decimal.zeros k) = 0 := Numeral.natOfDigits_zeros k
    have hlength : (Decimal.zeros k).length = k := List.length_replicate
    rw [hk, Int.toNat_natCast, Numeral.natOfDigits_append, Numeral.natOfDigits_append, hvalue,
      hzeros, hlength]
    simp [Decimal.value, hk, Numeral.natOfDigits]
  · exact absurd (hd hzero) hexponent
  · refine ⟨_, _, rfl, hwhole.take (hpositive hzero) (Nat.sub_pos_of_lt hplaces), ?_, ?_, ?_⟩
    · exact List.all_eq_true.2 fun c hc =>
        List.all_eq_true.1 hwhole.digits c (List.mem_of_mem_drop hc)
    · simp only [ne_eq, List.drop_eq_nil_iff]
      omega
    · rw [List.take_append_drop, hvalue, List.length_drop, Nat.sub_sub_self hplaces.le,
        hnegative hexponent]
  · refine ⟨['0'], Decimal.zeros ((-d.exponent).toNat - (Decimal.digits d.coefficient).length) ++
      Decimal.digits d.coefficient, rfl, isWhole_toDigits 0,
      Decimal.all_append (Decimal.all_zeros _) hwhole.digits, ?_, ?_⟩
    · simp [hwhole.nonempty]
    · have hlength : (Decimal.zeros ((-d.exponent).toNat - (Decimal.digits d.coefficient).length) ++
          Decimal.digits d.coefficient).length = (-d.exponent).toNat := by
        rw [List.length_append, Decimal.zeros, List.length_replicate]
        omega
      rw [hlength, hnegative hexponent, ← List.append_assoc, Numeral.natOfDigits_append, hvalue,
        Decimal.zeros, Numeral.natOfDigits_append, Numeral.natOfDigits_zeros]
      simp [Numeral.natOfDigits]

/-- A zero among the shortest decimals has no fraction. -/
theorem exponent_shortest (b : Binary) (tie : Tie) (h : (b.shortest tie).coefficient = 0) :
    0 ≤ (b.shortest tie).exponent := by
  have htrim : ∀ d : Decimal, d.trim.coefficient = 0 → 0 ≤ d.trim.exponent := by
    intro d hd
    unfold Decimal.trim at hd ⊢
    split_ifs at hd ⊢ with hzero
    · exact le_rfl
    · have hmul := Decimal.stripZeros_mul d.coefficient
      rw [show (Decimal.stripZeros d.coefficient).1 = 0 from hd, Nat.zero_mul] at hmul
      exact absurd hmul.symm hzero
  unfold Binary.shortest at h ⊢
  simp only at h ⊢
  split_ifs at h ⊢
  · exact le_rfl
  · exact htrim _ h

theorem isInf_withSign (negative : Bool) (x : Float) :
    (Numeral.withSign negative x).isInf = x.isInf := by
  cases negative with
  | false => rfl
  | true => exact Binary64.isInf_neg x

/-- A number with a fraction. -/
theorem value_pointed (negative : Bool) {cs whole fraction : List Char} {d : Decimal}
    (h : IsPointed cs d whole fraction) (levels : ℕ) (rest : List Char)
    (hfinite :
      (Numeral.toFloat ⟨Numeral.natOfDigits (whole ++ fraction), -(fraction.length : ℤ)⟩).isInf =
        false) :
    value levels ((if negative then ['-'] else []) ++ cs ++ '\n' :: rest) =
      some (.float (Numeral.withSign negative
        (Numeral.toFloat ⟨Numeral.natOfDigits (whole ++ fraction),
          -(fraction.length : ℤ)⟩)), '\n' :: rest) := by
  have hdecimal := decimal_point h.isWhole h.digits h.nonempty negative rest hfinite
  have hshape : cs ++ '\n' :: rest = whole ++ '.' :: (fraction ++ '\n' :: rest) := by simp [h.text]
  rw [List.append_assoc, hshape, ← hdecimal]
  cases negative with
  | false => exact value_whole h.isWhole (by decide) (by decide) levels _
  | true => exact value_minus h.isWhole levels _

theorem value_infinity (negative : Bool) (levels : ℕ) (rest : List Char) :
    value levels ((if negative then ['-'] else []) ++ 'i' :: 'n' :: 'f' :: rest) =
      some (.float (Numeral.withSign negative (1.0 / 0.0 : Float)), rest) := by
  cases negative with
  | false => exact value_start (by decide) rfl levels _
  | true => exact value_start (by decide) rfl levels _

/-- A defined number is read back as it was. -/
theorem value_float {x : Float} (hdefined : x.isNaN = false) (levels : ℕ) (rest : List Char) :
    value levels ((FloatText.configuration.write x).toList ++ '\n' :: rest) =
      some (.float x, '\n' :: rest) := by
  have hsign : (if Binary.signBit x = true then "-" else "").toList =
      if Binary.signBit x = true then ['-'] else [] := by
    cases Binary.signBit x <;> rfl
  unfold FloatText.write
  rw [hdefined]
  cases hinf : x.isInf with
  | false =>
    obtain ⟨whole, fraction, hpointed⟩ :=
      isPointed_magnitude (exponent_shortest (Binary.ofFloat x) FloatText.configuration.tie)
    have hread := Binary64.withSign_toFloat hdefined hinf hpointed.value
    have hfinite := hinf
    rw [← hread, isInf_withSign] at hfinite
    have hvalue := value_pointed (Binary.signBit x) hpointed levels rest hfinite
    rw [hread] at hvalue
    simpa [hsign] using hvalue
  | true =>
    have hread := Binary64.withSign_infinity hinf
    have hvalue := value_infinity (Binary.signBit x) levels ('\n' :: rest)
    rw [hread] at hvalue
    simpa [hsign, FloatText.configuration] using hvalue

/-! ## Written words and strings -/

theorem value_bool (b : Bool) (levels : ℕ) (rest : List Char) :
    value levels ((if b then "true" else "false").toList ++ rest) = some (.bool b, rest) := by
  cases b <;> simp [value]

/-- Characters of a string that stand for themselves. -/
def IsLiteral (cs : List Char) : Prop := ∀ c ∈ cs, isPlain c = true ∧ c ≠ '"' ∧ c ≠ '\\'

theorem lineString_literal {cs : List Char} (hcs : IsLiteral cs) (done rest : List Char) :
    lineString '"' done (cs ++ '"' :: rest) = some (String.ofList (done.reverse ++ cs), rest) := by
  induction cs generalizing done with
  | nil => simp [lineString]
  | cons c cs ih =>
    obtain ⟨hplain, hquote, hescape⟩ := hcs c List.mem_cons_self
    have htail : IsLiteral cs := fun d hd => hcs d (List.mem_cons_of_mem c hd)
    rw [List.cons_append, lineString, if_neg hquote, if_neg fun h => hescape h.1,
      if_pos hplain, ih htail]
    simp

/-- A string in quotes at the end of a line. -/
theorem value_string {s : String} (hs : IsLiteral s.toList) (levels : ℕ) (rest : List Char) :
    value levels (("\"" ++ s ++ "\"").toList ++ '\n' :: rest) = some (.string s, '\n' :: rest) := by
  have hread := lineString_literal hs [] ('\n' :: rest)
  have hquoted : quotedString ('"' :: (s.toList ++ '"' :: '\n' :: rest)) =
      some (s, '\n' :: rest) := by
    unfold quotedString
    split
    · rename_i heq
      cases hchars : s.toList with
      | nil =>
        rw [hchars] at heq
        cases heq
      | cons c cs =>
        rw [hchars] at heq
        exact absurd (List.cons.inj (List.cons.inj heq).2).1 (hs c (by simp [hchars])).2.1
    · rename_i heq
      exact absurd (List.cons.inj heq).1 (by decide)
    · rename_i heq
      rw [← (List.cons.inj heq).2, hread]
      simp
    · rename_i heq
      exact absurd (List.cons.inj heq).1 (by decide)
    · rename_i hdouble _
      exact absurd rfl (hdouble _)
  have htext : ("\"" ++ s ++ "\"").toList ++ '\n' :: rest = '"' ::
      (s.toList ++ '"' :: '\n' :: rest) := by simp
  rw [htext, value, hquoted]
  rfl

end FuzzyInference.Toml
