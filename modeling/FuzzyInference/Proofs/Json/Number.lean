import FuzzyInference.Json.Reader
import FuzzyInference.Json.Writer
import FuzzyInference.Proofs.Scalar.Numeral

/-!
# Numbers read back

A number ends where no digit, point or power follows, so it is read from a
longer text as it is read alone. A whole number is read back from its digits.
A scalar reads back if its text alone gives it.

Results:

* `number_append`: what follows a number does not change it.
* `numberValue_toDigits`: whole numbers of 64 bits are read back from their digits.
-/

namespace FuzzyInference.Json

/-- A step reads a value and leaves a rest. -/
def Reads {β : Type} {cs : List Char} (r : Read β cs) (b : β) (rest : List Char) : Prop :=
  r.map (fun p => (p.1, p.2.1)) = some (b, rest)

theorem Reads.eq_some {β : Type} {cs : List Char} {r : Read β cs} {b : β} {rest : List Char}
    (h : Reads r b rest) : ∃ hlength, r = some (b, ⟨rest, hlength⟩) := by
  obtain ⟨⟨b', rest', hlength⟩, rfl, heq⟩ := Option.map_eq_some_iff.1 h
  cases heq
  exact ⟨hlength, rfl⟩

/-- Texts that do not go on with a number. -/
def Stops (cs : List Char) : Prop :=
  ∀ c ∈ cs.head?, c.isDigit = false ∧ c ≠ '.' ∧ c ≠ 'e' ∧ c ≠ 'E'

/-- The text of a scalar gives the scalar. -/
def ReadsBack (x : Float) : Prop :=
  ∃ t, numberText (FloatText.document.write x).toList = some (t, []) ∧ numberValue t = .float x

variable {rest : List Char}

theorem Stops.noDigit (h : Stops rest) : Numeral.NoDigit rest := fun c hc => (h c hc).1

/-! ## Digits before more text -/

theorem takeDigits_append {cs : List Char} (h : Stops rest) :
    Numeral.takeDigits (cs ++ rest) =
      ((Numeral.takeDigits cs).1, (Numeral.takeDigits cs).2 ++ rest) := by
  induction cs with
  | nil => exact Numeral.takeDigits_of_noDigit rfl h.noDigit
  | cons c cs ih =>
    unfold Numeral.takeDigits at ih ⊢
    rw [Prod.mk.injEq] at ih
    rw [List.cons_append, List.takeWhile_cons, List.dropWhile_cons, List.takeWhile_cons,
      List.dropWhile_cons]
    cases hc : c.isDigit with
    | false => simp
    | true => simp [ih]

theorem wholeDigits_eq_some {cs ds r : List Char} :
    wholeDigits cs = some (ds, r) ↔
      Numeral.takeDigits cs = (ds, r) ∧ ds ≠ [] ∧ ∀ d ds', ds ≠ '0' :: d :: ds' := by
  unfold wholeDigits
  generalize Numeral.takeDigits cs = taken
  split <;> grind

theorem fractionDigits_eq_some {cs ds r : List Char} :
    fractionDigits cs = some (ds, r) ↔
      (∃ after, cs = '.' :: after ∧ Numeral.takeDigits after = (ds, r) ∧ ds ≠ []) ∨
      ((∀ after, cs ≠ '.' :: after) ∧ ds = [] ∧ r = cs) := by
  unfold fractionDigits
  split
  · split <;> grind
  · grind

/-- The number that a sign and digits spell. -/
def signed (negative : Bool) (ds : List Char) : Int :=
  if negative then -(Numeral.natOfDigits ds : Int) else Numeral.natOfDigits ds

theorem powerDigits_eq_some {cs r : List Char} {power : Option Int} :
    powerDigits cs = some (power, r) ↔
      (∃ c after negative text ds, cs = c :: after ∧ (c = 'e' ∨ c = 'E') ∧
        Numeral.takeSign after = (negative, text) ∧ Numeral.takeDigits text = (ds, r) ∧ ds ≠ [] ∧
        power = some (signed negative ds)) ∨
      ((∀ c after, cs = c :: after → c ≠ 'e' ∧ c ≠ 'E') ∧ power = none ∧ r = cs) := by
  unfold powerDigits
  split
  · grind
  · split
    · dsimp only
      split <;> grind [signed]
    · grind

/-- A minus, if there is one, and what follows. -/
def takeMinus : List Char → Bool × List Char
  | '-' :: cs => (true, cs)
  | cs => (false, cs)

theorem numberText_eq_some {cs r : List Char} {t : NumberText} :
    numberText cs = some (t, r) ↔
      ∃ afterWhole afterFraction, wholeDigits (takeMinus cs).2 = some (t.whole, afterWhole) ∧
        fractionDigits afterWhole = some (t.fraction, afterFraction) ∧
        powerDigits afterFraction = some (t.power, r) ∧ t.negative = (takeMinus cs).1 := by
  have hunfold : numberText cs =
      (wholeDigits (takeMinus cs).2).bind fun whole =>
        (fractionDigits whole.2).bind fun fraction =>
          (powerDigits fraction.2).bind fun power =>
            some (⟨(takeMinus cs).1, whole.1, fraction.1, power.1⟩, power.2) := rfl
  rw [hunfold]
  simp only [Option.bind_eq_some_iff, Prod.exists]
  constructor
  · rintro ⟨whole, afterWhole, hwhole, fraction, afterFraction, hfraction, power, _, hpower, heq⟩
    cases heq
    exact ⟨afterWhole, afterFraction, hwhole, hfraction, hpower, rfl⟩
  · obtain ⟨negative, whole, fraction, power⟩ := t
    rintro ⟨afterWhole, afterFraction, hwhole, hfraction, hpower, rfl⟩
    exact ⟨whole, afterWhole, hwhole, fraction, afterFraction, hfraction, power, r, hpower, rfl⟩

/-! ## Numbers before more text -/

theorem wholeDigits_append {cs ds r : List Char} (h : wholeDigits cs = some (ds, r))
    (hrest : Stops rest) : wholeDigits (cs ++ rest) = some (ds, r ++ rest) := by
  rw [wholeDigits_eq_some] at h ⊢
  obtain ⟨htake, hne, hzero⟩ := h
  rw [takeDigits_append hrest, htake]
  exact ⟨rfl, hne, hzero⟩

theorem fractionDigits_append {cs ds r : List Char} (h : fractionDigits cs = some (ds, r))
    (hrest : Stops rest) : fractionDigits (cs ++ rest) = some (ds, r ++ rest) := by
  rw [fractionDigits_eq_some] at h ⊢
  rcases h with ⟨after, rfl, htake, hne⟩ | ⟨hpoint, rfl, rfl⟩
  · refine .inl ⟨after ++ rest, rfl, ?_, hne⟩
    rw [takeDigits_append hrest, htake]
  · -- Without a fraction, the text behind the digits must not start with a point either.
    refine .inr ⟨?_, rfl, rfl⟩
    intro after heq
    cases r with
    | nil => exact (hrest '.' (congrArg List.head? heq)).2.1 rfl
    | cons c r => exact hpoint r (by rw [(List.cons.inj heq).1])

theorem takeSign_append {cs : List Char} (hne : cs ≠ []) (rest : List Char) :
    Numeral.takeSign (cs ++ rest) = ((Numeral.takeSign cs).1, (Numeral.takeSign cs).2 ++ rest) := by
  obtain ⟨c, cs, rfl⟩ := List.exists_cons_of_ne_nil hne
  by_cases hminus : c = '-'
  · rw [hminus]
    rfl
  · by_cases hplus : c = '+'
    · rw [hplus]
      rfl
    · rw [List.cons_append, Numeral.takeSign_of_ne ⟨hminus, hplus⟩,
        Numeral.takeSign_of_ne ⟨hminus, hplus⟩]
      rfl

theorem takeMinus_of_ne {c : Char} {cs : List Char} (h : c ≠ '-') :
    takeMinus (c :: cs) = (false, c :: cs) := by
  unfold takeMinus
  split
  · rename_i heq
    exact absurd (List.cons.inj heq).1 h
  · rfl

theorem takeMinus_append {cs : List Char} (hne : cs ≠ []) (rest : List Char) :
    takeMinus (cs ++ rest) = ((takeMinus cs).1, (takeMinus cs).2 ++ rest) := by
  obtain ⟨c, cs, rfl⟩ := List.exists_cons_of_ne_nil hne
  by_cases hminus : c = '-'
  · rw [hminus]
    rfl
  · rw [List.cons_append, takeMinus_of_ne hminus, takeMinus_of_ne hminus]
    rfl

theorem powerDigits_append {cs r : List Char} {power : Option Int}
    (h : powerDigits cs = some (power, r)) (hrest : Stops rest) :
    powerDigits (cs ++ rest) = some (power, r ++ rest) := by
  rw [powerDigits_eq_some] at h ⊢
  rcases h with ⟨c, after, negative, text, ds, rfl, hc, hsign, htake, hne, rfl⟩ | ⟨hpower, rfl, rfl⟩
  · refine .inl ⟨c, after ++ rest, negative, text ++ rest, ds, rfl, hc, ?_, ?_, hne, rfl⟩
    · have hafter : after ≠ [] := by
        rintro rfl
        cases hsign
        exact hne (Prod.mk.inj htake).1.symm
      rw [takeSign_append hafter, hsign]
    · rw [takeDigits_append hrest, htake]
  · refine .inr ⟨?_, rfl, rfl⟩
    intro c after heq
    cases r with
    | nil => exact (hrest c (congrArg List.head? heq)).2.2
    | cons d r => exact hpower c r (by rw [(List.cons.inj heq).1])

/-- What follows a number does not change it. -/
theorem numberText_append {cs r : List Char} {t : NumberText} (h : numberText cs = some (t, r))
    (hrest : Stops rest) : numberText (cs ++ rest) = some (t, r ++ rest) := by
  rw [numberText_eq_some] at h ⊢
  obtain ⟨afterWhole, afterFraction, hwhole, hfraction, hpower, hnegative⟩ := h
  have hne : cs ≠ [] := by
    rintro rfl
    cases hwhole
  have hminus := takeMinus_append hne rest
  refine ⟨afterWhole ++ rest, afterFraction ++ rest, ?_, fractionDigits_append hfraction hrest,
    powerDigits_append hpower hrest, ?_⟩
  · rw [hminus]
    exact wholeDigits_append hwhole hrest
  · rw [hminus, hnegative]

/-- A number starts with a digit or a minus, and takes at least that. -/
theorem start_of_numberText {cs r : List Char} {t : NumberText} (h : numberText cs = some (t, r)) :
    ∃ c after, cs = c :: after ∧ (c.isDigit || c == '-') = true := by
  obtain ⟨afterWhole, -, hwhole, -⟩ := numberText_eq_some.1 h
  obtain ⟨htake, hne, -⟩ := wholeDigits_eq_some.1 hwhole
  cases cs with
  | nil => exact absurd (Prod.mk.inj htake).1.symm hne
  | cons c after =>
    refine ⟨c, after, rfl, ?_⟩
    by_cases hminus : c = '-'
    · simp [hminus]
    · rw [takeMinus_of_ne hminus] at htake
      cases hc : c.isDigit with
      | true => rfl
      | false =>
        rw [Numeral.takeDigits, List.takeWhile_cons, hc] at htake
        exact absurd (Prod.mk.inj htake).1.symm hne

/-- A number alone, and before text that does not go on with it. -/
theorem number_append {cs : List Char} {t : NumberText} (h : numberText cs = some (t, []))
    (hrest : Stops rest) : Reads (number (cs ++ rest)) (numberValue t) rest := by
  have happend : numberText (cs ++ rest) = some (t, rest) := numberText_append h hrest
  have hlength : rest.length < (cs ++ rest).length := by
    obtain ⟨c, after, rfl, -⟩ := start_of_numberText h
    simp only [List.cons_append, List.length_cons, List.length_append]
    omega
  have hread : number (cs ++ rest) = some (numberValue t, ⟨rest, hlength⟩) := by
    unfold number
    rw [happend]
    exact dif_pos hlength
  rw [Reads, hread, Option.map_some]

/-! ## Whole numbers -/

theorem numberText_toDigits (n : Nat) :
    numberText (Nat.toDigits 10 n) = some (⟨false, Nat.toDigits 10 n, [], none⟩, []) := by
  have hdigits : (Nat.toDigits 10 n).all Char.isDigit = true :=
    List.all_eq_true.2 fun c hc => Nat.isDigit_of_mem_toDigits (by decide) (by decide) hc
  have htake : Numeral.takeDigits (Nat.toDigits 10 n) = (Nat.toDigits 10 n, []) := by
    have hnil : Numeral.NoDigit [] := fun c hc => nomatch hc
    have h := Numeral.takeDigits_of_noDigit hdigits hnil
    rwa [List.append_nil] at h
  have hzero : ∀ d ds, Nat.toDigits 10 n ≠ '0' :: d :: ds := by
    intro d ds heq
    rcases Nat.eq_zero_or_pos n with rfl | hpos
    · cases heq
    · exact Numeral.head?_toDigits hpos (congrArg List.head? heq)
  have hminus : takeMinus (Nat.toDigits 10 n) = (false, Nat.toDigits 10 n) := by
    obtain ⟨c, cs, heq⟩ := List.exists_cons_of_ne_nil (Nat.toDigits_ne_nil (n := n) (b := 10))
    have hc : c.isDigit = true := List.all_eq_true.1 hdigits c (heq ▸ List.mem_cons_self)
    rw [heq]
    exact takeMinus_of_ne (Numeral.ne_sign_of_digit hc).1
  rw [numberText_eq_some, hminus]
  exact ⟨[], [], wholeDigits_eq_some.2 ⟨htake, Nat.toDigits_ne_nil, hzero⟩, rfl, rfl, rfl⟩

/-- Whole numbers of 64 bits are read back from their digits. -/
theorem numberValue_toDigits {n : Nat} (h : n < Nat.pow 2 64) :
    numberValue ⟨false, Nat.toDigits 10 n, [], none⟩ = .int n := by
  unfold numberValue
  simp only [Numeral.natOfDigits_toDigits]
  exact if_pos (by simpa using h)

end FuzzyInference.Json
