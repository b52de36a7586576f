import FuzzyInference.Proofs.Formula.PrintedTokens
import Mathlib

/-!
# The patterns of tokens

Each kind of token has a pattern, a language of character sequences. The scanner
cuts off the longest start of a text that is in one of these languages: it
measures a number from the left, taking digits, a point, digits and a power of
ten as far as they go, and no other way of dividing the text gets further.

Results:

* `scan_longest`: what the scanner takes is the longest token there.
* `Longest.scan`: the longest token is what the scanner takes.
* `Longest.before_gap`: the longest token stays the longest one when a gap is put behind it.
-/

namespace FuzzyInference.Token

open scoped Computability

/-! ## Patterns -/

/-- A single character of a class. -/
def oneOf (p : Char → Bool) : Language Char := {w | ∃ c, p c = true ∧ w = [c]}

/-- One digit or more. -/
def digits : Language Char := oneOf Char.isDigit * (oneOf Char.isDigit)∗

/-- A decimal point. -/
def point : Language Char := oneOf (· == '.')

/-- A power of ten. -/
def exponent : Language Char :=
  oneOf (fun c => c == 'e' || c == 'E') * (1 + oneOf (fun c => c == '+' || c == '-')) * digits

/-- Digits with at most one point, of which at least one stands next to it, and a
    power of ten or none. -/
def numeral : Language Char :=
  digits * (1 + point * (oneOf Char.isDigit)∗) * (1 + exponent) + point * digits * (1 + exponent)

/-- A name. -/
def identifier : Language Char := oneOf isNameStart * (oneOf isNameRest)∗

/-- The texts that are tokens of a kind. -/
def pattern : TokenKind → Language Char
  | .number => numeral
  | .name => identifier
  | .power => {['*', '*']}
  | .floorDivide => {['/', '/']}
  | .plus => {['+']}
  | .minus => {['-']}
  | .times => {['*']}
  | .divide => {['/']}
  | .remainder => {['%']}
  | .opening => {['(']}
  | .closing => {[')']}
  | .comma => {[',']}

/-! ## Words of the patterns -/

theorem mem_oneOf_mul {p : Char → Bool} {L : Language Char} {w : List Char} :
    w ∈ oneOf p * L ↔ ∃ c u, p c = true ∧ u ∈ L ∧ w = c :: u := by
  rw [Language.mem_mul]
  constructor
  · rintro ⟨_, ⟨c, hc, rfl⟩, u, hu, rfl⟩
    exact ⟨c, u, hc, hu, rfl⟩
  · rintro ⟨c, u, hc, hu, rfl⟩
    exact ⟨[c], ⟨c, hc, rfl⟩, u, hu, rfl⟩

theorem mem_star_oneOf {p : Char → Bool} {w : List Char} : w ∈ (oneOf p)∗ ↔ w.all p = true := by
  rw [Language.mem_kstar]
  constructor
  · rintro ⟨ws, rfl, hws⟩
    rw [List.all_eq_true]
    intro c hc
    obtain ⟨u, hu, hcu⟩ := List.mem_flatten.1 hc
    obtain ⟨d, hd, rfl⟩ := hws u hu
    rwa [List.mem_singleton.1 hcu]
  · intro h
    refine ⟨w.map fun c => [c], (List.flatMap_singleton' w).symm, ?_⟩
    intro u hu
    obtain ⟨c, hc, rfl⟩ := List.mem_map.1 hu
    exact ⟨c, List.all_eq_true.1 h c hc, rfl⟩

theorem mem_optional {L : Language Char} {w : List Char} : w ∈ 1 + L ↔ w = [] ∨ w ∈ L := by
  rw [Language.mem_add, Language.mem_one]

theorem mem_digits {w : List Char} : w ∈ digits ↔ w ≠ [] ∧ w.all Char.isDigit = true := by
  rw [digits, mem_oneOf_mul]
  constructor
  · rintro ⟨c, u, hc, hu, rfl⟩
    rw [mem_star_oneOf] at hu
    exact ⟨by simp, by simp [hc, hu]⟩
  · rintro ⟨hne, hall⟩
    obtain ⟨c, u, rfl⟩ := List.exists_cons_of_ne_nil hne
    rw [List.all_cons, Bool.and_eq_true] at hall
    exact ⟨c, u, hall.1, mem_star_oneOf.2 hall.2, rfl⟩

theorem mem_point_mul {L : Language Char} {w : List Char} :
    w ∈ point * L ↔ ∃ u ∈ L, w = '.' :: u := by
  rw [point, mem_oneOf_mul]
  constructor
  · rintro ⟨c, u, hc, hu, rfl⟩
    rw [beq_iff_eq] at hc
    exact ⟨u, hu, by rw [hc]⟩
  · rintro ⟨u, hu, rfl⟩
    exact ⟨'.', u, rfl, hu, rfl⟩

/-- A power of ten is a letter, perhaps a sign, and digits. -/
theorem mem_exponent {w : List Char} :
    w ∈ exponent ↔ ∃ c sign ds, (c = 'e' ∨ c = 'E') ∧ (sign = [] ∨ sign = ['+'] ∨ sign = ['-']) ∧
      ds ∈ digits ∧ w = c :: (sign ++ ds) := by
  rw [exponent, mul_assoc, mem_oneOf_mul]
  constructor
  · rintro ⟨c, u, hc, hu, rfl⟩
    obtain ⟨sign, hsign, ds, hds, rfl⟩ := Language.mem_mul.1 hu
    refine ⟨c, sign, ds, by simpa using hc, ?_, hds, rfl⟩
    rcases mem_optional.1 hsign with rfl | ⟨s, hs, rfl⟩
    · exact .inl rfl
    · rw [Bool.or_eq_true, beq_iff_eq, beq_iff_eq] at hs
      rcases hs with rfl | rfl
      · exact .inr (.inl rfl)
      · exact .inr (.inr rfl)
  · rintro ⟨c, sign, ds, hc, hsign, hds, rfl⟩
    refine ⟨c, sign ++ ds, by simpa using hc, Language.mem_mul.2 ⟨sign, ?_, ds, hds, rfl⟩, rfl⟩
    rw [mem_optional]
    rcases hsign with rfl | rfl | rfl
    · exact .inl rfl
    · exact .inr ⟨'+', rfl, rfl⟩
    · exact .inr ⟨'-', rfl, rfl⟩

/-- A number is digits, perhaps a point and digits, and perhaps a power of ten; or
    it starts with its point. -/
theorem mem_numeral {w : List Char} :
    w ∈ numeral ↔
      (∃ ds tail p, ds ∈ digits ∧
        (tail = [] ∨ ∃ fs, fs.all Char.isDigit = true ∧ tail = '.' :: fs) ∧
        p ∈ 1 + exponent ∧ w = ds ++ (tail ++ p)) ∨
      ∃ fs p, fs ∈ digits ∧ p ∈ 1 + exponent ∧ w = '.' :: (fs ++ p) := by
  rw [numeral, Language.mem_add]
  constructor
  · rintro (h | h)
    · rw [mul_assoc] at h
      obtain ⟨ds, hds, _, hrest, rfl⟩ := Language.mem_mul.1 h
      obtain ⟨tail, htail, p, hp, rfl⟩ := Language.mem_mul.1 hrest
      refine .inl ⟨ds, tail, p, hds, ?_, hp, rfl⟩
      rcases mem_optional.1 htail with rfl | htail
      · exact .inl rfl
      · obtain ⟨fs, hfs, rfl⟩ := mem_point_mul.1 htail
        exact .inr ⟨fs, mem_star_oneOf.1 hfs, rfl⟩
    · rw [mul_assoc] at h
      obtain ⟨u, hu, rfl⟩ := mem_point_mul.1 h
      obtain ⟨fs, hfs, p, hp, rfl⟩ := Language.mem_mul.1 hu
      exact .inr ⟨fs, p, hfs, hp, rfl⟩
  · rintro (⟨ds, tail, p, hds, htail, hp, rfl⟩ | ⟨fs, p, hfs, hp, rfl⟩)
    · left
      rw [mul_assoc]
      refine Language.mem_mul.2 ⟨ds, hds, tail ++ p, Language.mem_mul.2 ⟨tail, ?_, p, hp, rfl⟩, rfl⟩
      rw [mem_optional]
      rcases htail with rfl | ⟨fs, hfs, rfl⟩
      · exact .inl rfl
      · exact .inr (mem_point_mul.2 ⟨fs, mem_star_oneOf.2 hfs, rfl⟩)
    · right
      rw [mul_assoc]
      exact mem_point_mul.2 ⟨fs ++ p, Language.mem_mul.2 ⟨fs, hfs, p, hp, rfl⟩, rfl⟩

theorem mem_identifier {w : List Char} :
    w ∈ identifier ↔ ∃ c u, isNameStart c = true ∧ u.all isNameRest = true ∧ w = c :: u := by
  rw [identifier, mem_oneOf_mul]
  simp only [mem_star_oneOf]

/-! ## How far a number goes -/

theorem length_le_digitRun {ds cs : List Char} (hds : ds.all Char.isDigit = true)
    (hcs : ds <+: cs) : ds.length ≤ digitRun cs := by
  obtain ⟨rest, rfl⟩ := hcs
  rw [digitRun, List.takeWhile_append_of_pos (List.all_eq_true.1 hds), List.length_append]
  exact Nat.le_add_right _ _

theorem digitRun_pos {ds cs : List Char} (hds : ds ∈ digits) (hcs : ds <+: cs) :
    digitRun cs ≠ 0 := by
  rw [mem_digits] at hds
  have hlength := length_le_digitRun hds.2 hcs
  have hpos := List.length_pos_of_ne_nil hds.1
  omega

theorem take_digitRun_mem {cs : List Char} (h : digitRun cs ≠ 0) :
    cs.take (digitRun cs) ∈ digits := by
  rw [take_digitRun, mem_digits]
  exact ⟨takeWhile_digit_ne_nil h, List.all_takeWhile⟩

/-- What is taken as a power of ten is one, or nothing. -/
theorem take_powerRun_mem (cs : List Char) : cs.take (powerRun cs) ∈ 1 + exponent := by
  rw [mem_optional]
  match cs with
  | [] => exact .inl rfl
  | [c] =>
    by_cases hc : c = 'e' ∨ c = 'E' <;> simp only [powerRun, hc, if_true, if_false] <;>
      exact .inl rfl
  | c :: s :: ds =>
    by_cases hc : c = 'e' ∨ c = 'E'
    · by_cases hs : s = '+' ∨ s = '-'
      · by_cases hrun : digitRun ds = 0
        · simp only [powerRun, hc, hs, hrun, if_true]
          exact .inl rfl
        · simp only [powerRun, hc, hs, hrun, if_true, if_false]
          refine .inr (mem_exponent.2 ⟨c, [s], _, hc, ?_, take_digitRun_mem hrun, ?_⟩)
          · exact .inr (hs.imp (congrArg (fun c => [c])) (congrArg (fun c => [c])))
          · rw [Nat.add_comm, List.take_succ_cons, List.take_succ_cons, List.singleton_append]
      · by_cases hrun : digitRun (s :: ds) = 0
        · simp only [powerRun, hc, hs, hrun, if_true, if_false]
          exact .inl rfl
        · simp only [powerRun, hc, hs, hrun, if_true, if_false]
          refine .inr (mem_exponent.2 ⟨c, [], _, hc, .inl rfl, take_digitRun_mem hrun, ?_⟩)
          rw [Nat.add_comm, List.take_succ_cons, List.nil_append]
    · simp only [powerRun, hc, if_false]
      exact .inl rfl

theorem powerRun_signed {c s : Char} {ds : List Char} (hc : c = 'e' ∨ c = 'E')
    (hs : s = '+' ∨ s = '-') (hrun : digitRun ds ≠ 0) :
    powerRun (c :: s :: ds) = 2 + digitRun ds := by
  simp only [powerRun, hc, hs, hrun, if_true, if_false]

theorem powerRun_unsigned {c : Char} {ds : List Char} (hc : c = 'e' ∨ c = 'E')
    (hrun : digitRun ds ≠ 0) : powerRun (c :: ds) = 1 + digitRun ds := by
  cases ds with
  | nil => exact absurd rfl hrun
  | cons d ds =>
    have hs : ¬ (d = '+' ∨ d = '-') := by
      rintro (rfl | rfl) <;> exact hrun rfl
    simp only [powerRun, hc, hs, hrun, if_true, if_false]

/-- No longer power of ten stands there. -/
theorem length_le_powerRun {p cs : List Char} (hp : p ∈ exponent) (hcs : p <+: cs) :
    p.length ≤ powerRun cs := by
  obtain ⟨c, sign, ds, hc, hsign, hds, rfl⟩ := mem_exponent.1 hp
  obtain ⟨more, rfl⟩ := hcs
  have hpos := digitRun_pos hds (List.prefix_append ds more)
  have hle := length_le_digitRun (mem_digits.1 hds).2 (List.prefix_append ds more)
  rw [List.cons_append, List.append_assoc]
  rcases hsign with rfl | hsign
  · rw [List.nil_append, List.nil_append, powerRun_unsigned hc hpos, List.length_cons]
    omega
  · obtain ⟨s, hs, rfl⟩ : ∃ s, (s = '+' ∨ s = '-') ∧ sign = [s] := by
      rcases hsign with rfl | rfl
      · exact ⟨'+', .inl rfl, rfl⟩
      · exact ⟨'-', .inr rfl, rfl⟩
    rw [List.singleton_append, List.singleton_append, powerRun_signed hc hs hpos, List.length_cons,
      List.length_cons]
    omega

/-- How far digits and a power of ten behind them go. -/
def placesRun (cs : List Char) : Nat := digitRun cs + powerRun (cs.drop (digitRun cs))

theorem take_placesRun (cs : List Char) :
    cs.take (placesRun cs) = cs.takeWhile Char.isDigit ++
      (cs.drop (digitRun cs)).take (powerRun (cs.drop (digitRun cs))) := by
  rw [placesRun, List.take_add, take_digitRun]

theorem noDigit_exponent {p : List Char} (hp : p ∈ exponent) (rest : List Char) :
    Numeral.NoDigit (p ++ rest) := by
  obtain ⟨c, sign, ds, hc, -, -, rfl⟩ := mem_exponent.1 hp
  rintro d ⟨⟩
  rcases hc with rfl | rfl <;> rfl

/-- A power of ten starts behind the last digit, so nobody gets further by taking
    fewer digits. -/
theorem length_le_placesRun {ds p cs : List Char} (hds : ds.all Char.isDigit = true)
    (hp : p ∈ 1 + exponent) (hcs : ds ++ p <+: cs) : (ds ++ p).length ≤ placesRun cs := by
  rcases mem_optional.1 hp with rfl | hp
  · rw [List.append_nil] at *
    exact (length_le_digitRun hds hcs).trans (Nat.le_add_right _ _)
  · obtain ⟨more, rfl⟩ := hcs
    have hrun : digitRun (ds ++ (p ++ more)) = ds.length :=
      digitRun_append hds (noDigit_exponent hp more)
    rw [List.append_assoc, placesRun, hrun, List.drop_left, List.length_append]
    exact Nat.add_le_add_left (length_le_powerRun hp (List.prefix_append p more)) _

theorem take_placesRun_mem {cs : List Char} (h : digitRun cs ≠ 0) :
    ∃ ds p, ds ∈ digits ∧ p ∈ 1 + exponent ∧ cs.take (placesRun cs) = ds ++ p :=
  ⟨_, _, take_digitRun_mem h, take_powerRun_mem _, by rw [placesRun, List.take_add]⟩

/-- Behind its whole part a number has a point and places, or no point. -/
theorem numberRun_cases (cs : List Char) :
    (∃ rest, cs.drop (digitRun cs) = '.' :: rest ∧
      numberRun cs = digitRun cs + 1 + placesRun rest) ∨
      (∀ rest, cs.drop (digitRun cs) ≠ '.' :: rest) ∧ numberRun cs = placesRun cs := by
  unfold numberRun
  dsimp only
  split
  · rename_i rest hdrop
    refine .inl ⟨rest, hdrop, ?_⟩
    have hbehind : cs.drop (digitRun cs + 1 + digitRun rest) = rest.drop (digitRun rest) := by
      rw [Nat.add_assoc, ← List.drop_drop, hdrop, Nat.add_comm 1, List.drop_succ_cons]
    rw [hbehind, placesRun, Nat.add_assoc]
  · rename_i hpoint
    exact .inr ⟨hpoint, rfl⟩

theorem cons_take_numberRun_mem {c : Char} (hc : c.isDigit = true) (cs : List Char) :
    c :: cs.take (numberRun cs) ∈ numeral := by
  have hwhole : c :: cs.takeWhile Char.isDigit ∈ digits := by
    rw [mem_digits, List.all_cons, hc, List.all_takeWhile]
    exact ⟨List.cons_ne_nil _ _, rfl⟩
  refine mem_numeral.2 (.inl ?_)
  rcases numberRun_cases cs with ⟨rest, hrest, hrun⟩ | ⟨-, hrun⟩
  · refine ⟨_, '.' :: rest.takeWhile Char.isDigit, _, hwhole, .inr ⟨_, List.all_takeWhile, rfl⟩,
      take_powerRun_mem (rest.drop (digitRun rest)), ?_⟩
    have hbehind : cs.take (digitRun cs + 1 + placesRun rest) =
        cs.takeWhile Char.isDigit ++ '.' :: rest.take (placesRun rest) := by
      rw [Nat.add_assoc, List.take_add, hrest, take_digitRun, Nat.add_comm 1, List.take_succ_cons]
    rw [hrun, hbehind, take_placesRun, List.cons_append, List.cons_append]
  · refine ⟨_, [], _, hwhole, .inl rfl, take_powerRun_mem (cs.drop (digitRun cs)), ?_⟩
    rw [hrun, take_placesRun, List.nil_append, List.cons_append]

theorem placesRun_le_numberRun (cs : List Char) : placesRun cs ≤ numberRun cs := by
  rcases numberRun_cases cs with ⟨rest, hrest, hrun⟩ | ⟨-, hrun⟩
  · have hpower : powerRun ('.' :: rest) = 0 := rfl
    rw [placesRun, hrest, hpower, hrun]
    omega
  · exact hrun.ge

theorem numberRun_append_point {ds : List Char} (hds : ds.all Char.isDigit = true)
    (rest : List Char) : numberRun (ds ++ '.' :: rest) = ds.length + 1 + placesRun rest := by
  have hpoint : Numeral.NoDigit ('.' :: rest) := by
    rintro c ⟨⟩
    rfl
  have hdrop : (ds ++ '.' :: rest).drop (digitRun (ds ++ '.' :: rest)) = '.' :: rest := by
    rw [digitRun_append hds hpoint, List.drop_left]
  rcases numberRun_cases (ds ++ '.' :: rest) with ⟨rest', hrest, hrun⟩ | ⟨hno, -⟩
  · rw [hdrop, List.cons_inj_right] at hrest
    rw [hrun, digitRun_append hds hpoint, hrest]
  · exact absurd hdrop (hno rest)

/-- The whole part ends at the point, so nobody gets further by ending it
    earlier. -/
theorem length_le_numberRun {c : Char} (hc : c.isDigit = true) {u cs : List Char} (hu : u ∈ numeral)
    (hcs : u <+: c :: cs) : u.length ≤ numberRun cs + 1 := by
  rcases mem_numeral.1 hu with ⟨ds, tail, p, hds, htail, hp, rfl⟩ | ⟨fs, p, -, -, rfl⟩
  · rw [mem_digits] at hds
    obtain ⟨d, ds, rfl⟩ := List.exists_cons_of_ne_nil hds.1
    rw [List.cons_append, List.cons_prefix_cons] at hcs
    obtain ⟨rfl, hcs⟩ := hcs
    have hall : ds.all Char.isDigit = true := ((Bool.and_eq_true _ _).mp hds.2).2
    rw [List.cons_append, List.length_cons]
    refine Nat.add_le_add_right ?_ 1
    rcases htail with rfl | ⟨fs, hfs, rfl⟩
    · exact (length_le_placesRun hall hp hcs).trans (placesRun_le_numberRun cs)
    · obtain ⟨more, rfl⟩ := hcs
      have hplaces := length_le_placesRun hfs hp (List.prefix_append (fs ++ p) more)
      rw [List.append_assoc, List.cons_append, List.cons_append, numberRun_append_point hall,
        List.length_append, List.length_cons]
      omega
  · rw [List.cons_prefix_cons] at hcs
    obtain ⟨rfl, -⟩ := hcs
    cases hc

/-! ## What the scanner takes -/

theorem scan_point {cs : List Char} (h : digitRun cs ≠ 0) :
    scan '.' cs = some (.number, placesRun cs) := by
  simp [scan, isNameStart, h, placesRun]

theorem mem_of_scan_number {c : Char} {cs : List Char} {more : Nat}
    (h : scan c cs = some (.number, more)) : c :: cs.take more ∈ numeral := by
  rcases start_of_scan h with hc | rfl
  · rw [scan_digit hc] at h
    cases h
    exact cons_take_numberRun_mem hc cs
  · by_cases hrun : digitRun cs = 0
    · simp [scan, hrun, isNameStart] at h
    · rw [scan_point hrun] at h
      cases h
      obtain ⟨fs, p, hfs, hp, htake⟩ := take_placesRun_mem hrun
      exact mem_numeral.2 (.inr ⟨fs, p, hfs, hp, by rw [htake]⟩)

/-- What the scanner takes is a token of the kind it says. -/
theorem mem_of_scan {c : Char} {cs : List Char} {kind : TokenKind} {more : Nat}
    (h : scan c cs = some (kind, more)) : c :: cs.take more ∈ pattern kind := by
  have hscan := h
  unfold scan at h
  split at h
  · cases h
    exact mem_of_scan_number hscan
  · split at h
    · rename_i hstart
      cases h
      refine mem_identifier.2 ⟨c, cs.takeWhile isNameRest, hstart, List.all_takeWhile, ?_⟩
      rw [← List.prefix_iff_eq_take.1 (List.takeWhile_prefix isNameRest)]
    · split at h
      · dsimp only at h
        split at h <;> cases h
        exact mem_of_scan_number hscan
      all_goals cases h <;> rfl

/-- Where a token stands, the scanner takes one that is as long, and of its kind if
    it is not longer. -/
theorem scan_of_mem {k : TokenKind} {u cs : List Char} {c : Char} (hu : u ∈ pattern k)
    (hcs : u <+: c :: cs) :
    ∃ kind more, scan c cs = some (kind, more) ∧ u.length ≤ more + 1 ∧
      (u.length = more + 1 → k = kind) := by
  cases k with
  | number =>
    rcases mem_numeral.1 hu with ⟨ds, tail, p, hds, -, -, rfl⟩ | ⟨fs, p, hfs, hp, rfl⟩
    · rw [mem_digits] at hds
      obtain ⟨d, ds, rfl⟩ := List.exists_cons_of_ne_nil hds.1
      have hd : d.isDigit = true := ((Bool.and_eq_true _ _).mp hds.2).1
      obtain rfl : d = c := (List.cons_prefix_cons.1 hcs).1
      exact ⟨_, _, scan_digit hd cs, length_le_numberRun hd hu hcs, fun _ => rfl⟩
    · rw [List.cons_prefix_cons] at hcs
      obtain ⟨rfl, hcs⟩ := hcs
      have hrun := digitRun_pos hfs ((List.prefix_append fs p).trans hcs)
      have hplaces := length_le_placesRun (mem_digits.1 hfs).2 hp hcs
      exact ⟨_, _, scan_point hrun, Nat.succ_le_succ hplaces, fun _ => rfl⟩
  | name =>
    obtain ⟨d, ds, hd, hds, rfl⟩ := mem_identifier.1 hu
    rw [List.cons_prefix_cons] at hcs
    obtain ⟨rfl, more, rfl⟩ := hcs
    refine ⟨_, _, scan_name hd _, ?_, fun _ => rfl⟩
    rw [List.takeWhile_append_of_pos (List.all_eq_true.1 hds), List.length_append, List.length_cons]
    omega
  | times | divide =>
    rcases hu
    rw [List.cons_prefix_cons] at hcs
    obtain ⟨rfl, -⟩ := hcs
    -- a second sign of the same kind makes a longer token
    unfold scan
    rw [if_neg (by decide), if_neg (by decide)]
    split
    all_goals simp_all
  | power | floorDivide =>
    rcases hu
    rw [List.cons_prefix_cons] at hcs
    obtain ⟨rfl, rest, rfl⟩ := hcs
    exact ⟨_, _, rfl, Nat.le_refl 2, fun _ => rfl⟩
  | plus | minus | remainder | opening | closing | comma =>
    rcases hu
    rw [List.cons_prefix_cons] at hcs
    obtain ⟨rfl, -⟩ := hcs
    exact ⟨_, _, rfl, Nat.le_refl 1, fun _ => rfl⟩

theorem digitRun_le (cs : List Char) : digitRun cs ≤ cs.length :=
  (List.takeWhile_prefix Char.isDigit).length_le

theorem powerRun_le (cs : List Char) : powerRun cs ≤ cs.length := by
  fun_cases powerRun cs with
  | case1 | case2 | case7 => exact Nat.zero_le _
  | case3 | case5 => simp [*]
  | case4 c _ s ds _ hrun =>
    have := digitRun_le ds
    simp only [List.length_cons]
    omega
  | case6 c _ s ds _ hrun =>
    have := digitRun_le (s :: ds)
    rw [if_neg hrun, List.length_cons]
    omega

theorem placesRun_le (cs : List Char) : placesRun cs ≤ cs.length := by
  have hdigits := digitRun_le cs
  have hpower := powerRun_le (cs.drop (digitRun cs))
  rw [List.length_drop] at hpower
  rw [placesRun]
  omega

theorem numberRun_le (cs : List Char) : numberRun cs ≤ cs.length := by
  rcases numberRun_cases cs with ⟨rest, hrest, hrun⟩ | ⟨-, hrun⟩
  · have hlength := congrArg List.length hrest
    have hplaces := placesRun_le rest
    rw [List.length_drop, List.length_cons] at hlength
    omega
  · exact hrun.trans_le (placesRun_le cs)

/-- The scanner stays within the text. -/
theorem scan_le {c : Char} {cs : List Char} {kind : TokenKind} {more : Nat}
    (h : scan c cs = some (kind, more)) : more ≤ cs.length := by
  unfold scan at h
  split at h
  · cases h
    exact numberRun_le cs
  · split at h
    · cases h
      exact (List.takeWhile_prefix isNameRest).length_le
    · split at h
      · dsimp only at h
        split at h <;> cases h
        exact placesRun_le cs
      all_goals cases h <;> simp

/-! ## The longest token -/

/-- A text starts with a token of a kind, and with no other token that is as
    long. -/
structure Longest (kind : TokenKind) (w cs : List Char) : Prop where
  stands : w <+: cs
  mem : w ∈ pattern kind
  longest : ∀ k u, u <+: cs → u ∈ pattern k → u.length < w.length ∨ u = w ∧ k = kind

theorem Longest.unique {k k' : TokenKind} {w w' cs : List Char} (h : Longest k w cs)
    (h' : Longest k' w' cs) : w = w' ∧ k = k' := by
  rcases h.longest k' w' h'.stands h'.mem with hlt | ⟨rfl, rfl⟩
  · rcases h'.longest k w h.stands h.mem with hgt | heq
    · exact absurd hlt (Nat.lt_asymm hgt)
    · exact heq
  · exact ⟨rfl, rfl⟩

/-- What the scanner takes is the longest token there. -/
theorem scan_longest {c : Char} {cs : List Char} {kind : TokenKind} {more : Nat}
    (h : scan c cs = some (kind, more)) : Longest kind (c :: cs.take more) (c :: cs) := by
  have hstands : c :: cs.take more <+: c :: cs :=
    List.cons_prefix_cons.2 ⟨rfl, List.take_prefix more cs⟩
  have hlength : (c :: cs.take more).length = more + 1 := by
    rw [List.length_cons, List.length_take_of_le (scan_le h)]
  refine ⟨hstands, mem_of_scan h, ?_⟩
  intro k u hstart hu
  obtain ⟨kind', more', hscan, hle, hkind⟩ := scan_of_mem hu hstart
  rw [h, Option.some.injEq, Prod.mk.injEq] at hscan
  obtain ⟨rfl, rfl⟩ := hscan
  rcases Nat.lt_or_eq_of_le hle with hlt | heq
  · exact .inl (hlt.trans_eq hlength.symm)
  · exact .inr
      ⟨(List.prefix_of_prefix_length_le hstart hstands (by omega)).eq_of_length (by omega),
        hkind heq⟩

theorem ne_nil_of_mem_pattern {k : TokenKind} {w : List Char} (h : w ∈ pattern k) : w ≠ [] := by
  cases k with
  | number =>
    rcases mem_numeral.1 h with ⟨ds, tail, p, hds, -, -, rfl⟩ | ⟨fs, p, -, -, rfl⟩
    · exact List.append_ne_nil_of_left_ne_nil (mem_digits.1 hds).1 _
    · exact List.cons_ne_nil _ _
  | name =>
    obtain ⟨c, u, -, -, rfl⟩ := mem_identifier.1 h
    exact List.cons_ne_nil _ _
  | _ =>
    rcases h
    exact List.cons_ne_nil _ _

/-- The longest token is what the scanner takes. -/
theorem Longest.scan {k : TokenKind} {w cs : List Char} (h : Longest k w cs) :
    ∃ c ds more, cs = c :: ds ∧ scan c ds = some (k, more) ∧ w = c :: ds.take more := by
  obtain ⟨c, ds, rfl⟩ : ∃ c ds, cs = c :: ds := by
    refine List.exists_cons_of_ne_nil ?_
    rintro rfl
    exact ne_nil_of_mem_pattern h.mem (List.prefix_nil.1 h.stands)
  obtain ⟨kind, more, hscan, -⟩ := scan_of_mem h.mem h.stands
  obtain ⟨rfl, rfl⟩ := h.unique (scan_longest hscan)
  exact ⟨c, ds, more, rfl, hscan, rfl⟩

/-! ## Tokens and gaps -/

theorem not_isGap_of_isNameRest {c : Char} (h : isNameRest c = true) : isGap c = false :=
  not_isGap_of_class (by decide) h

theorem not_isGap_of_mem_exponent {p : List Char} (hp : p ∈ 1 + exponent) :
    ∀ c ∈ p, isGap c = false := by
  rcases mem_optional.1 hp with rfl | hp
  · simp
  · obtain ⟨c, sign, ds, hc, hsign, hds, rfl⟩ := mem_exponent.1 hp
    rw [mem_digits, List.all_eq_true] at hds
    rw [List.forall_mem_cons, List.forall_mem_append]
    refine ⟨?_, ?_, fun c hc => not_isGap_of_isDigit (hds.2 c hc)⟩
    · rcases hc with rfl | rfl <;> rfl
    · rcases hsign with rfl | rfl | rfl <;> simp [isGap]

/-- Gaps are no part of tokens. -/
theorem not_isGap_of_mem_pattern {k : TokenKind} {w : List Char} (h : w ∈ pattern k) :
    ∀ c ∈ w, isGap c = false := by
  cases k with
  | number =>
    have hdigits : ∀ ds : List Char, ds.all Char.isDigit = true → ∀ c ∈ ds, isGap c = false :=
      fun ds hds c hc => not_isGap_of_isDigit (List.all_eq_true.1 hds c hc)
    rcases mem_numeral.1 h with ⟨ds, tail, p, hds, htail, hp, rfl⟩ | ⟨fs, p, hfs, hp, rfl⟩
    · rw [List.forall_mem_append, List.forall_mem_append]
      refine ⟨hdigits ds (mem_digits.1 hds).2, ?_, not_isGap_of_mem_exponent hp⟩
      rcases htail with rfl | ⟨fs, hfs, rfl⟩
      · simp
      · exact List.forall_mem_cons.2 ⟨rfl, hdigits fs hfs⟩
    · rw [List.forall_mem_cons, List.forall_mem_append]
      exact ⟨rfl, hdigits fs (mem_digits.1 hfs).2, not_isGap_of_mem_exponent hp⟩
  | name =>
    obtain ⟨c, u, hc, hu, rfl⟩ := mem_identifier.1 h
    rw [List.forall_mem_cons]
    exact ⟨not_isGap_of_isNameStart hc,
      fun d hd => not_isGap_of_isNameRest (List.all_eq_true.1 hu d hd)⟩
  | _ =>
    rcases h
    simp [isGap]

/-- A token ends at a gap, so what is longest before some text is longest before a
    gap or nothing. -/
theorem Longest.before_gap {k : TokenKind} {w behind rest : List Char}
    (h : Longest k w (w ++ behind)) (hrest : ∀ c ∈ rest.head?, isGap c = true) :
    Longest k w (w ++ rest) := by
  refine ⟨List.prefix_append w _, h.mem, ?_⟩
  intro k' u hstart hu
  have hwithin : u <+: w := by
    cases rest with
    | nil => rwa [List.append_nil] at hstart
    | cons gap rest =>
      refine List.prefix_of_prefix_length_le hstart (List.prefix_append w _) (Nat.le_of_not_lt ?_)
      intro hlonger
      have hends : w ++ [gap] <+: w ++ gap :: rest :=
        ⟨rest, by rw [List.append_assoc, List.singleton_append]⟩
      have hpast : w ++ [gap] <+: u :=
        List.prefix_of_prefix_length_le hends hstart (by simpa using hlonger)
      have hgap := hrest gap rfl
      rw [not_isGap_of_mem_pattern hu gap (hpast.subset (by simp))] at hgap
      exact Bool.false_ne_true hgap
  exact h.longest k' u (hwithin.trans (List.prefix_append w behind)) hu

end FuzzyInference.Token
