import FuzzyInference.Proofs.Formula.Legible

/-!
# The tokens of a printed formula

A printed formula puts a blank, a parenthesis or a comma behind every number and
every name, and blanks around every operation, so none of its tokens runs into
the next one. The lexer finds the tokens that the printer wrote.

Results:

* `cut_number`, `cut_name`, `cut_operator`: the scanner takes each piece of text
  as a whole, before what the printer puts behind it.
* `lexes_text`: the tokens of a printed formula.
-/

namespace FuzzyInference

namespace Token

/-! ## Tokens without their places -/

/-- The kind and the text of a token. -/
def lexeme (t : Token) : TokenKind × String := (t.kind, t.text)

/-- Characters are cut into tokens of these kinds and texts, wherever they start. -/
def Lexes (cs : List Char) (ls : List (TokenKind × String)) : Prop :=
  ∀ start, ∃ ts, lexFrom start cs = .ok ts ∧ ts.map lexeme = ls

theorem lexes_nil : Lexes [] [] := fun _ => ⟨[], by rw [lexFrom], rfl⟩

theorem Lexes.gap {c : Char} {cs : List Char} {ls : List (TokenKind × String)} (h : Lexes cs ls)
    (hgap : isGap c = true) : Lexes (c :: cs) ls := by
  intro start
  obtain ⟨ts, hlex, hts⟩ := h (start + c.utf8Size)
  exact ⟨ts, by rw [lexFrom, if_pos hgap, hlex], hts⟩

/-- The scanner takes a text as a whole, although others follow. -/
def Cut (kind : TokenKind) (cs rest : List Char) : Prop :=
  ∃ c ds, cs = c :: ds ∧ isGap c = false ∧ scan c (ds ++ rest) = some (kind, ds.length)

theorem Cut.lexes {kind : TokenKind} {cs rest : List Char} {ls : List (TokenKind × String)}
    (h : Cut kind cs rest) (hrest : Lexes rest ls) :
    Lexes (cs ++ rest) ((kind, String.ofList cs) :: ls) := by
  obtain ⟨c, ds, rfl, hgap, hscan⟩ := h
  intro start
  obtain ⟨ts, hlex, hts⟩ := hrest (start + byteSize (c :: ds))
  refine ⟨⟨kind, String.ofList (c :: ds), start⟩ :: ts, ?_, ?_⟩
  · rw [List.cons_append, lexFrom, hgap, if_neg Bool.false_ne_true, hscan]
    simp only [List.take_left, List.drop_left, hlex]
    rfl
  · rw [List.map_cons, hts]
    rfl

/-! ## Texts that are tokens -/

/-- Nothing follows, or a character that is in no number and in no name. -/
def Apart (rest : List Char) : Prop := ∀ c ∈ rest.head?, c ∈ [' ', '(', ')', ',']

theorem apart_nil : Apart [] := nofun

theorem apart_cons {c : Char} (hc : c ∈ [' ', '(', ')', ',']) (rest : List Char) :
    Apart (c :: rest) := by
  rintro d ⟨⟩
  exact hc

theorem Apart.noDigit {rest : List Char} (h : Apart rest) : Numeral.NoDigit rest := by
  intro c hc
  have hall : ∀ c ∈ [' ', '(', ')', ','], c.isDigit = false := by simp
  exact hall c (h c hc)

theorem Apart.notNameRest {rest : List Char} (h : Apart rest) :
    ∀ c ∈ rest.head?, isNameRest c = false := by
  intro c hc
  have hall : ∀ c ∈ [' ', '(', ')', ','], isNameRest c = false := by simp [isNameRest]
  exact hall c (h c hc)

theorem digitRun_append {ds rest : List Char} (hds : ds.all Char.isDigit = true)
    (hrest : Numeral.NoDigit rest) : digitRun (ds ++ rest) = ds.length :=
  congrArg (fun run => run.1.length) (Numeral.takeDigits_of_noDigit hds hrest)

theorem takeWhile_nameRest {ds rest : List Char} (hds : ds.all isNameRest = true)
    (hrest : Apart rest) : (ds ++ rest).takeWhile isNameRest = ds := by
  rw [List.takeWhile_append_of_pos (List.all_eq_true.1 hds)]
  cases rest with
  | nil => rw [List.takeWhile_nil, List.append_nil]
  | cons c cs =>
    rw [List.takeWhile_cons, hrest.notNameRest c rfl, if_neg Bool.false_ne_true, List.append_nil]

theorem Apart.powerRun {rest : List Char} (hrest : Apart rest) : powerRun rest = 0 := by
  cases rest with
  | nil => rfl
  | cons c cs =>
    have hc := hrest c rfl
    simp only [List.mem_cons, List.not_mem_nil, or_false] at hc
    rcases hc with rfl | rfl | rfl | rfl <;> rfl

theorem numberRun_whole {ds rest : List Char} (hrest : Apart rest)
    (hds : ds.all Char.isDigit = true) : numberRun (ds ++ rest) = ds.length := by
  unfold numberRun
  simp only [digitRun_append hds hrest.noDigit, List.drop_left]
  split
  · rename_i hpoint
    exact absurd (hrest _ rfl) (by decide)
  · rw [List.drop_left, hrest.powerRun]
    rfl

theorem numberRun_point {ds es rest : List Char} (hrest : Apart rest)
    (hds : ds.all Char.isDigit = true) (hes : es.all Char.isDigit = true) :
    numberRun (ds ++ '.' :: es ++ rest) = (ds ++ '.' :: es).length := by
  have hpoint : Numeral.NoDigit ('.' :: (es ++ rest)) := by
    rintro c ⟨⟩
    rfl
  have hlength : ds.length + 1 + es.length = (ds ++ '.' :: es).length := by
    rw [List.length_append, List.length_cons]
    omega
  rw [List.append_assoc, List.cons_append]
  unfold numberRun
  simp only [digitRun_append hds hpoint, List.drop_left, digitRun_append hes hrest.noDigit]
  have hdrop : (ds ++ '.' :: (es ++ rest)).drop (ds.length + 1 + es.length) = rest := by
    rw [hlength, ← List.cons_append, ← List.append_assoc, List.drop_left]
  rw [hdrop, hrest.powerRun, hlength]
  rfl

theorem not_isGap_of_isDigit {c : Char} (h : c.isDigit = true) : isGap c = false :=
  not_isGap_of_class (p := Char.isDigit) (by decide) h

theorem scan_digit {c : Char} (h : c.isDigit = true) (cs : List Char) :
    scan c cs = some (.number, numberRun cs) := by
  unfold scan
  rw [if_pos h]

theorem cut_number {cs rest : List Char} (h : IsPlain cs) (hrest : Apart rest) :
    Cut .number cs rest := by
  cases h with
  | @whole c ds hc hds =>
    refine ⟨c, ds, rfl, not_isGap_of_isDigit hc, ?_⟩
    rw [scan_digit hc, numberRun_whole hrest hds]
  | @point c ds es hc hds hes =>
    refine ⟨c, ds ++ '.' :: es, rfl, not_isGap_of_isDigit hc, ?_⟩
    rw [scan_digit hc, numberRun_point hrest hds hes]

theorem cut_name {s : String} {rest : List Char} (h : isName s = true) (hrest : Apart rest) :
    Cut .name s.toList rest := by
  unfold isName at h
  split at h
  · cases h
  · rename_i c cs hs
    rw [Bool.and_eq_true] at h
    obtain ⟨hstart, hall⟩ := h
    refine ⟨c, cs, hs, not_isGap_of_isNameStart hstart, ?_⟩
    rw [scan_name hstart, takeWhile_nameRest hall hrest]

end Token

/-! ## Signs and operations -/

/-- The token of a sign. -/
def Sign.kind : Sign → TokenKind
  | .minus => .minus
  | .plus => .plus

/-- The token of an operation. -/
def Operator.kind : Operator → TokenKind
  | .add => .plus
  | .subtract => .minus
  | .multiply => .times
  | .divide => .divide
  | .floorDivide => .floorDivide
  | .remainder => .remainder
  | .power => .power

theorem Token.cut_sign (s : Sign) (rest : List Char) : Cut s.kind s.symbol.toList rest := by
  cases s
  · exact ⟨'-', [], rfl, rfl, rfl⟩
  · exact ⟨'+', [], rfl, rfl, rfl⟩

/-- A blank keeps an operation from running into its right operand. -/
theorem Token.cut_operator (op : Operator) (rest : List Char) :
    Cut op.kind op.symbol.toList (' ' :: rest) := by
  cases op
  · exact ⟨'+', [], rfl, rfl, rfl⟩
  · exact ⟨'-', [], rfl, rfl, rfl⟩
  · exact ⟨'*', [], rfl, rfl, rfl⟩
  · exact ⟨'/', [], rfl, rfl, rfl⟩
  · exact ⟨'/', ['/'], rfl, rfl, rfl⟩
  · exact ⟨'%', [], rfl, rfl, rfl⟩
  · exact ⟨'*', ['*'], rfl, rfl, rfl⟩

theorem Function.isName_name (fn : Function) : Token.isName fn.name = true := by
  cases fn <;> decide

namespace Formula

variable {α : Type} [Scalar α]

open Token

/-! ## Formulas -/

mutual

/-- The tokens of a printed formula. Infinity is written as its name. -/
def lexemes : Formula α → List (TokenKind × String)
  | .number v => [(if Scalar.text v = "inf" then .name else .number, Scalar.text v)]
  | .name n => [(.name, n)]
  | .sign s f => (s.kind, s.symbol) :: lexemes f
  | .binary op l r =>
    (.opening, "(") :: (lexemes l ++ (op.kind, op.symbol) :: (lexemes r ++ [(.closing, ")")]))
  | .call fn args => (.name, fn.name) :: (.opening, "(") :: lexemesOf args

/-- The tokens of printed arguments, through the closing parenthesis. -/
def lexemesOf : List (Formula α) → List (TokenKind × String)
  | [] => [(.closing, ")")]
  | [f] => lexemes f ++ [(.closing, ")")]
  | f :: g :: fs => lexemes f ++ (.comma, ",") :: lexemesOf (g :: fs)

end

/-- The texts of arguments, through the closing parenthesis. -/
def argumentsText (args : List (Formula α)) : List Char :=
  (", ".intercalate (textsOf args)).toList ++ [')']

theorem text_call (fn : Function) (args : List (Formula α)) (rest : List Char) :
    (text (.call fn args)).toList ++ rest =
      fn.name.toList ++ ('(' :: (argumentsText args ++ rest)) := by
  simp [text, argumentsText]

theorem argumentsText_cons_cons (f g : Formula α) (fs : List (Formula α)) (rest : List Char) :
    argumentsText (f :: g :: fs) ++ rest =
      f.text.toList ++ (',' :: ' ' :: (argumentsText (g :: fs) ++ rest)) := by
  simp [argumentsText, textsOf, String.intercalate_cons_cons]

theorem text_binary (op : Operator) (l r : Formula α) (rest : List Char) :
    (text (.binary op l r)).toList ++ rest =
      '(' ::
        (l.text.toList ++
          (' ' :: (op.symbol.toList ++ (' ' :: (r.text.toList ++ (')' :: rest)))))) := by
  simp [text]

theorem lexes_opening {rest : List Char} {ls : List (TokenKind × String)} (h : Lexes rest ls) :
    Lexes ('(' :: rest) ((.opening, "(") :: ls) :=
  Cut.lexes ⟨'(', [], rfl, rfl, rfl⟩ h

theorem lexes_closing {rest : List Char} {ls : List (TokenKind × String)} (h : Lexes rest ls) :
    Lexes (')' :: rest) ((.closing, ")") :: ls) :=
  Cut.lexes ⟨')', [], rfl, rfl, rfl⟩ h

/-- A blank stands behind every comma. -/
theorem lexes_comma {rest : List Char} {ls : List (TokenKind × String)} (h : Lexes rest ls) :
    Lexes (',' :: ' ' :: rest) ((.comma, ",") :: ls) :=
  Cut.lexes ⟨',', [], rfl, rfl, rfl⟩ (h.gap rfl)

theorem lexes_name {n : String} (hn : isName n = true) {rest : List Char}
    {ls : List (TokenKind × String)} (hrest : Apart rest) (h : Lexes rest ls) :
    Lexes (n.toList ++ rest) ((.name, n) :: ls) := by
  have hcut := (cut_name hn hrest).lexes h
  rw [String.ofList_toList] at hcut
  exact hcut

/-- The tokens of a formula that stands before other text are those of the formula
    and of the text. -/
def LexesApart (f : Formula α) : Prop :=
  ∀ ⦃rest : List Char⦄ ⦃ls : List (TokenKind × String)⦄, Apart rest → Lexes rest ls →
    Lexes (f.text.toList ++ rest) (lexemes f ++ ls)

theorem lexes_number {v : α} (hv : IsWritable v) : LexesApart (.number v) := by
  intro rest ls hrest h
  rw [text, lexemes]
  cases hv with
  | infinity _ htext =>
    rw [htext, if_pos rfl]
    exact lexes_name (by decide) hrest h
  | literal hplain _ =>
    have hcut := (cut_number hplain hrest).lexes h
    rw [String.ofList_toList] at hcut
    rw [if_neg hplain.ne_infinity]
    exact hcut

theorem lexes_arguments {args : List (Formula α)} (hargs : ∀ a ∈ args, LexesApart a)
    {rest : List Char} {ls : List (TokenKind × String)} (h : Lexes rest ls) :
    Lexes (argumentsText args ++ rest) (lexemesOf args ++ ls) := by
  induction args with
  | nil => exact lexes_closing h
  | cons a as ih =>
    rw [List.forall_mem_cons] at hargs
    cases as with
    | nil =>
      have hlast := hargs.1 (apart_cons (by decide) rest) (lexes_closing h)
      simpa [argumentsText, textsOf, lexemesOf] using hlast
    | cons b bs =>
      have hmore := hargs.1 (apart_cons (by decide) _) (lexes_comma (ih hargs.2))
      rw [argumentsText_cons_cons]
      simpa [lexemesOf] using hmore

theorem lexes_sign {f : Formula α} (s : Sign) (hf : LexesApart f) : LexesApart (.sign s f) := by
  intro rest ls hrest h
  have hcut := (cut_sign s _).lexes (hf hrest h)
  rw [String.ofList_toList] at hcut
  rw [text, lexemes, String.toList_append, List.append_assoc]
  exact hcut

/-- The printer puts blanks around an operation and parentheses around the whole. -/
theorem lexes_binary {l r : Formula α} (op : Operator) (hl : LexesApart l) (hr : LexesApart r) :
    LexesApart (.binary op l r) := by
  intro rest ls hrest h
  have hright := (hr (apart_cons (by decide) rest) (lexes_closing h)).gap (c := ' ') rfl
  have hop := ((cut_operator op _).lexes hright).gap (c := ' ') rfl
  have hleft := lexes_opening (hl (apart_cons (by decide) _) hop)
  rw [String.ofList_toList] at hleft
  rw [text_binary, lexemes]
  simpa using hleft

theorem lexes_text {f : Formula α} (hf : Legible f) : LexesApart f := by
  induction f with
  | number v => exact lexes_number (hf.number v (Occurs.refl _))
  | name n =>
    intro rest ls hrest h
    rw [text, lexemes]
    exact lexes_name (hf.name n (Occurs.refl _)).1 hrest h
  | sign s f ih => exact lexes_sign s (ih (hf.of_operand (.signed s f)))
  | binary op l r ihl ihr =>
    exact lexes_binary op (ihl (hf.of_operand (.left op l r))) (ihr (hf.of_operand (.right op l r)))
  | call fn args ih =>
    have hargs : ∀ a ∈ args, LexesApart a := fun a ha => ih a ha (hf.of_operand (.argument fn ha))
    intro rest ls hrest h
    rw [text_call, lexemes]
    exact lexes_name fn.isName_name (apart_cons (by decide) _)
      (lexes_opening (lexes_arguments hargs h))

end Formula

end FuzzyInference
