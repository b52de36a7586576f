import FuzzyInference.Proofs.Formula.PrintedTokens

/-!
# Reading printed formulas

An operation is printed in parentheses and a sign is not, so a printed formula is
some signs and an atom behind them. Wherever the grammar asks for a factor these
signs belong to the operand they were printed for. In front of `**` they do not:
there the grammar asks for an atom, and the signs apply to the power. So `(-a) ** b`,
which is printed as `(-a ** b)`, reads back as `-(a ** b)`.

Results:

* `spellsBody`: what the tokens of a printed formula derive.
* `reread_eq_self_iff`: which formulas read back as they were.
* `parse_printed`: what the printed form of a parsed formula parses to.
-/

namespace FuzzyInference.Formula

variable {α : Type}

/-! ## Trees -/

/-- The signs in front of a printed formula. -/
def signs : Formula α → List Sign
  | .sign s f => s :: signs f
  | .number _ | .name _ | .binary .. | .call .. => []

/-- Signs in front of a formula, the first one outermost. -/
def underSigns (ss : List Sign) (f : Formula α) : Formula α := ss.foldr Formula.sign f

mutual

/-- What stands behind the signs of a printed formula, as it reads back. The signs
    of a base are in front of the whole power. -/
def body : Formula α → Formula α
  | .number v => .number v
  | .name n => .name n
  | .sign _ f => body f
  | .binary .power l r => underSigns l.signs (.binary .power (body l) (underSigns r.signs (body r)))
  | .binary op l r => .binary op (underSigns l.signs (body l)) (underSigns r.signs (body r))
  | .call fn args => .call fn (rereadAll args)

/-- The formulas that printed arguments read back as. -/
def rereadAll : List (Formula α) → List (Formula α)
  | [] => []
  | f :: fs => underSigns f.signs (body f) :: rereadAll fs

end

/-- The formula that the printed form of a formula reads back as. -/
def reread (f : Formula α) : Formula α := underSigns f.signs f.body

/-- Somewhere in a formula a power has a sign as its base. -/
def RaisesSign (f : Formula α) : Prop := ∃ s g x, Occurs (.binary .power (.sign s g) x) f

theorem rereadAll_eq_map (fs : List (Formula α)) : rereadAll fs = fs.map reread := by
  induction fs with
  | nil => rfl
  | cons f fs ih =>
    rw [rereadAll, ih]
    rfl

theorem reread_sign (s : Sign) (f : Formula α) : (sign s f).reread = .sign s f.reread := by
  rw [reread, signs, body]
  rfl

theorem reread_power (l r : Formula α) :
    (binary .power l r).reread = underSigns l.signs (.binary .power l.body r.reread) := by
  rw [reread, signs, body]
  rfl

theorem reread_binary {op : Operator} (hop : op ≠ .power) (l r : Formula α) :
    (binary op l r).reread = .binary op l.reread r.reread := by
  rw [reread, signs, body]
  · rfl
  · exact hop

theorem reread_call (fn : Function) (args : List (Formula α)) :
    (call fn args).reread = .call fn (args.map reread) := by
  rw [reread, signs, body, rereadAll_eq_map]
  rfl

/-! ## Formulas that read back as they were -/

theorem signs_eq_nil {f : Formula α} (h : ∀ s g, f ≠ .sign s g) : f.signs = [] := by
  cases f with
  | sign s g => exact absurd rfl (h s g)
  | number v => rfl
  | name n => rfl
  | binary op l r => rfl
  | call fn args => rfl

theorem raisesSign_sign {s : Sign} {f : Formula α} : RaisesSign (.sign s f) ↔ RaisesSign f := by
  simp [RaisesSign]

theorem raisesSign_binary {op : Operator} {l r : Formula α} :
    RaisesSign (.binary op l r) ↔ (op = .power ∧ ∃ s g, l = .sign s g) ∨ RaisesSign l ∨
    RaisesSign r := by
  constructor
  · rintro ⟨s, g, x, h⟩
    rcases occurs_binary.1 h with heq | h | h
    · cases heq
      exact .inl ⟨rfl, s, g, rfl⟩
    · exact .inr (.inl ⟨s, g, x, h⟩)
    · exact .inr (.inr ⟨s, g, x, h⟩)
  · rintro (⟨rfl, s, g, rfl⟩ | ⟨s, g, x, h⟩ | ⟨s, g, x, h⟩)
    · exact ⟨s, g, r, Occurs.refl _⟩
    · exact ⟨s, g, x, h.of_operand (.left op l r)⟩
    · exact ⟨s, g, x, h.of_operand (.right op l r)⟩

theorem raisesSign_call {fn : Function} {args : List (Formula α)} :
    RaisesSign (.call fn args) ↔ ∃ a ∈ args, RaisesSign a := by
  constructor
  · rintro ⟨s, g, x, h⟩
    rcases occurs_call.1 h with heq | ⟨a, ha, h⟩
    · cases heq
    · exact ⟨a, ha, s, g, x, h⟩
  · rintro ⟨a, ha, s, g, x, h⟩
    exact ⟨s, g, x, h.of_operand (.argument fn ha)⟩

/-- A power reads back as itself if its base is no sign and its operands read back
    as themselves. -/
theorem reread_power_eq_iff {l r : Formula α} :
    (binary .power l r).reread = .binary .power l r ↔
      (¬ ∃ s g, l = .sign s g) ∧ l.reread = l ∧ r.reread = r := by
  rw [reread_power]
  by_cases hl : ∃ s g, l = .sign s g
  · obtain ⟨s, g, rfl⟩ := hl
    simp [signs, underSigns]
  · have hsigns : l.signs = [] := signs_eq_nil fun s g h => hl ⟨s, g, h⟩
    have hbody : l.reread = l.body := by
      rw [reread, hsigns]
      rfl
    rw [hsigns, ← hbody]
    simp [underSigns, hl]

/-- A formula reads back as itself exactly if no power in it has a sign as its
    base. -/
theorem reread_eq_self_iff {f : Formula α} : f.reread = f ↔ ¬ RaisesSign f := by
  induction f with
  | number v => simp [reread, signs, body, underSigns, RaisesSign]
  | name n => simp [reread, signs, body, underSigns, RaisesSign]
  | sign s f ih => rw [reread_sign, raisesSign_sign, ← ih, Formula.sign.injEq, and_iff_right rfl]
  | binary op l r ihl ihr =>
    rw [raisesSign_binary, not_or, not_or, ← ihl, ← ihr]
    by_cases hop : op = .power
    · subst hop
      rw [reread_power_eq_iff, and_iff_right rfl]
    · rw [reread_binary hop, binary.injEq, and_iff_right rfl, and_iff_right fun h => hop h.1]
  | call fn args ih =>
    have hmap : args.map reread = args ↔ ∀ a ∈ args, a.reread = a := by
      simpa using List.map_inj_left (l := args) (f := reread) (g := id)
    rw [reread_call, raisesSign_call, call.injEq, and_iff_right rfl, hmap]
    simp only [not_exists, not_and]
    exact forall₂_congr ih

/-! ## Derivations -/

theorem joins_of_ne_power {op : Operator} (h : op ≠ .power) :
    JoinsTerms op.kind op ∨ JoinsFactors op.kind op := by
  cases op with
  | add => exact .inl .plus
  | subtract => exact .inl .minus
  | multiply => exact .inr .times
  | divide => exact .inr .divide
  | floorDivide => exact .inr .floorDivide
  | remainder => exact .inr .remainder
  | power => exact absurd rfl h

variable [Scalar α]

open Token

/-- The tokens of a printed formula are its signs and an atom, which the grammar
    derives in front of anything but an opening parenthesis. -/
def SpellsBody (f : Formula α) : Prop :=
  ∀ ⦃ts us : List Token⦄, ts.map lexeme = lexemes f → NotOpened us →
    ∃ ss vs, ts = ss ++ vs ∧ ss.map Token.kind = f.signs.map Sign.kind ∧ IsAtom (vs ++ us) f.body us

theorem isFactor_underSigns {ss ts rest : List Token} {f : Formula α} {signs : List Sign}
    (hss : ss.map Token.kind = signs.map Sign.kind) (h : IsFactor ts f rest) :
    IsFactor (ss ++ ts) (underSigns signs f) rest := by
  induction signs generalizing ss with
  | nil =>
    obtain rfl : ss = [] := List.map_eq_nil_iff.1 hss
    exact h
  | cons s signs ih =>
    obtain ⟨t, ss, rfl, hkind, hss⟩ := List.map_eq_cons_iff.1 hss
    have hfactor := ih hss
    cases s with
    | minus => exact .minus hkind hfactor
    | plus => exact .plus hkind hfactor

/-- A printed formula is a factor, which reads back with the signs where they
    were. -/
theorem SpellsBody.isFactor {f : Formula α} (hf : SpellsBody f) {ts us : List Token}
    (hts : ts.map lexeme = lexemes f) (hus : NotOpened us) : IsFactor (ts ++ us) f.reread us := by
  obtain ⟨ss, vs, rfl, hss, hatom⟩ := hf hts hus
  rw [List.append_assoc]
  exact isFactor_underSigns hss (.power (.atom hatom))

/-- In front of `**` the signs of a printed formula apply to the power. -/
theorem SpellsBody.isFactor_raised {l : Formula α} (hl : SpellsBody l)
    {ts more rest : List Token} {t : Token} {x : Formula α} (hts : ts.map lexeme = lexemes l)
    (ht : t.kind = .power) (hx : IsFactor more x rest) :
    IsFactor (ts ++ t :: more) (underSigns l.signs (.binary .power l.body x)) rest := by
  have hus : NotOpened (t :: more) := by
    rintro u ⟨⟩
    rw [ht]
    decide
  obtain ⟨ss, vs, rfl, hss, hatom⟩ := hl hts hus
  rw [List.append_assoc]
  exact isFactor_underSigns hss (.power (.raised hatom ht hx))

theorem notOpened_of_operator {t : Token} {op : Operator} (h : t.kind = op.kind)
    (more : List Token) : NotOpened (t :: more) := by
  rintro u ⟨⟩
  rw [h]
  cases op <;> decide

theorem notOpened_of_endsPart {t : Token} (h : EndsPart t) (more : List Token) :
    NotOpened (t :: more) := by
  rintro u ⟨⟩
  rcases h with h | h <;> simp [h]

/-- What stands between the parentheses of a printed operation. -/
theorem isSum_binary {op : Operator} {l r : Formula α} (hl : SpellsBody l) (hr : SpellsBody r)
    {tl tr us : List Token} {t : Token} (htl : tl.map lexeme = lexemes l) (ht : t.kind = op.kind)
    (htr : tr.map lexeme = lexemes r) (hus : NotOpened us) :
    IsSum (tl ++ t :: (tr ++ us)) (binary op l r).reread us := by
  have hright := hr.isFactor htr hus
  by_cases hop : op = .power
  · subst hop
    rw [reread_power]
    exact .term (.factor (hl.isFactor_raised htl ht hright))
  · have hleft := hl.isFactor htl (notOpened_of_operator ht (tr ++ us))
    have hjoins := joins_of_ne_power hop
    rw [← ht] at hjoins
    rw [reread_binary hop]
    rcases hjoins with hj | hj
    · exact .join (.term (.factor hleft)) hj (.factor hright)
    · exact .term (.join (.factor hleft) hj hright)

theorem kind_of_lexeme {t : Token} {k : TokenKind} {text : String}
    (h : lexeme t = (k, text)) : t.kind = k :=
  congrArg Prod.fst h

theorem text_of_lexeme {t : Token} {k : TokenKind} {text : String} (h : lexeme t = (k, text)) :
    t.text = text :=
  congrArg Prod.snd h

theorem spellsBody_binary {op : Operator} {l r : Formula α} (hl : SpellsBody l)
    (hr : SpellsBody r) : SpellsBody (.binary op l r) := by
  intro ts us hts _
  rw [lexemes] at hts
  obtain ⟨o, ts, rfl, ho, hts⟩ := List.map_eq_cons_iff.1 hts
  obtain ⟨tl, ts, rfl, htl, hts⟩ := List.map_eq_append_iff.1 hts
  obtain ⟨t, ts, rfl, ht, hts⟩ := List.map_eq_cons_iff.1 hts
  obtain ⟨tr, ts, rfl, htr, hts⟩ := List.map_eq_append_iff.1 hts
  obtain ⟨c, ts, rfl, hc, hts⟩ := List.map_eq_cons_iff.1 hts
  obtain rfl : ts = [] := List.map_eq_nil_iff.1 hts
  have hclose := kind_of_lexeme hc
  have hsum :=
    isSum_binary hl hr htl (kind_of_lexeme ht) htr (notOpened_of_endsPart (.inl hclose) us)
  refine ⟨[], _, rfl, rfl, ?_⟩
  rw [List.cons_append, List.append_assoc, List.cons_append, List.append_assoc]
  exact .group (kind_of_lexeme ho) hsum hclose

/-- Printed arguments are derived up to the closing parenthesis. -/
theorem areParts_arguments {a : Formula α} {args : List (Formula α)}
    (hall : ∀ b ∈ a :: args, SpellsBody b) {ts us : List Token}
    (hts : ts.map lexeme = lexemesOf (a :: args)) :
    AreParts (ts ++ us) ((a :: args).map reread) us := by
  induction args generalizing a ts with
  | nil =>
    rw [lexemesOf] at hts
    obtain ⟨ta, ts, rfl, hta, hts⟩ := List.map_eq_append_iff.1 hts
    obtain ⟨c, ts, rfl, hc, hts⟩ := List.map_eq_cons_iff.1 hts
    obtain rfl : ts = [] := List.map_eq_nil_iff.1 hts
    have hclose := kind_of_lexeme hc
    have hfactor :=
      (hall a List.mem_cons_self).isFactor hta (notOpened_of_endsPart (.inl hclose) us)
    rw [List.append_assoc]
    exact .last (.term (.factor hfactor)) hclose
  | cons b args ih =>
    rw [lexemesOf] at hts
    obtain ⟨ta, ts, rfl, hta, hts⟩ := List.map_eq_append_iff.1 hts
    obtain ⟨c, ts, rfl, hc, hts⟩ := List.map_eq_cons_iff.1 hts
    have hcomma := kind_of_lexeme hc
    have hfactor :=
      (hall a List.mem_cons_self).isFactor hta (notOpened_of_endsPart (.inr hcomma) (ts ++ us))
    have hparts := ih (fun d hd => hall d (List.mem_cons_of_mem a hd)) hts
    rw [List.append_assoc]
    exact .more (.term (.factor hfactor)) hcomma hparts

theorem areArguments_arguments {args : List (Formula α)} (hall : ∀ a ∈ args, SpellsBody a)
    {ts us : List Token} (hts : ts.map lexeme = lexemesOf args) :
    AreArguments (ts ++ us) (args.map reread) us := by
  cases args with
  | nil =>
    rw [lexemesOf] at hts
    obtain ⟨c, ts, rfl, hc, hts⟩ := List.map_eq_cons_iff.1 hts
    obtain rfl : ts = [] := List.map_eq_nil_iff.1 hts
    exact .none (kind_of_lexeme hc)
  | cons a args => exact .some (areParts_arguments hall hts)

theorem spellsBody_call {fn : Function} {args : List (Formula α)}
    (hn : fn.arity.admits args.length = true) (hall : ∀ a ∈ args, SpellsBody a) :
    SpellsBody (.call fn args) := by
  intro ts us hts _
  rw [lexemes] at hts
  obtain ⟨t, ts, rfl, ht, hts⟩ := List.map_eq_cons_iff.1 hts
  obtain ⟨o, ts, rfl, ho, hts⟩ := List.map_eq_cons_iff.1 hts
  have hfn : Function.ofName? t.text = some fn := by
    rw [text_of_lexeme ht]
    exact Function.ofName?_name fn
  have hargs : AreArguments (ts ++ us) (args.map reread) us := areArguments_arguments hall hts
  refine ⟨[], _, rfl, rfl, ?_⟩
  rw [body, rereadAll_eq_map]
  exact .call (kind_of_lexeme ht) hfn (kind_of_lexeme ho) hargs (by rw [List.length_map, hn])

theorem spellsBody_number {v : α} (hv : IsWritable v) : SpellsBody (.number v) := by
  intro ts us hts hus
  rw [lexemes] at hts
  obtain ⟨t, ts, rfl, ht, hts⟩ := List.map_eq_cons_iff.1 hts
  obtain rfl : ts = [] := List.map_eq_nil_iff.1 hts
  refine ⟨[], [t], rfl, rfl, ?_⟩
  rw [body]
  cases hv with
  | infinity h htext =>
    rw [htext, if_pos rfl] at ht
    refine .constant (kind_of_lexeme ht) hus ?_
    rw [text_of_lexeme ht, h]
    rfl
  | literal hplain h =>
    rw [if_neg hplain.ne_infinity] at ht
    refine .number (kind_of_lexeme ht) ?_
    rw [text_of_lexeme ht, h]

/-- By induction on the formula: an operation is an atom by itself, and a sign joins
    the signs of its operand. -/
theorem spellsBody {f : Formula α} (hf : Legible f) : SpellsBody f := by
  induction f with
  | number v => exact spellsBody_number (hf.number v (Occurs.refl _))
  | name n =>
    intro ts us hts hus
    rw [lexemes] at hts
    obtain ⟨t, ts, rfl, ht, hts⟩ := List.map_eq_cons_iff.1 hts
    obtain rfl : ts = [] := List.map_eq_nil_iff.1 hts
    obtain rfl := text_of_lexeme ht
    exact ⟨[], [t], rfl, rfl, .name (kind_of_lexeme ht) hus (hf.name t.text (Occurs.refl _)).2⟩
  | sign s f ih =>
    intro ts us hts hus
    rw [lexemes] at hts
    obtain ⟨t, ts, rfl, ht, hts⟩ := List.map_eq_cons_iff.1 hts
    obtain ⟨ss, vs, rfl, hss, hatom⟩ := ih (hf.of_operand (.signed s f)) hts hus
    refine ⟨t :: ss, vs, rfl, ?_, hatom⟩
    rw [List.map_cons, kind_of_lexeme ht, hss, signs, List.map_cons]
  | binary op l r ihl ihr =>
    exact spellsBody_binary (ihl (hf.of_operand (.left op l r)))
      (ihr (hf.of_operand (.right op l r)))
  | call fn args ih =>
    have hargs : ∀ a ∈ args, SpellsBody a := fun a ha => ih a ha (hf.of_operand (.argument fn ha))
    exact spellsBody_call (hf.call fn args (Occurs.refl _)) hargs

/-! ## Parsing -/

/-- A legible formula is printed as a source of the formula that it rereads as. -/
theorem parse_text_of_legible {f : Formula α} (hf : Legible f) : parse f.text = .ok f.reread := by
  have hlexes := lexes_text hf apart_nil lexes_nil
  rw [List.append_nil, List.append_nil] at hlexes
  obtain ⟨ts, hlex, hts⟩ := hlexes 0
  have hfactor : IsFactor (ts ++ []) f.reread [] :=
    (spellsBody hf).isFactor hts (by simp [NotOpened])
  rw [List.append_nil] at hfactor
  rw [parse_eq_ok hlex, reads_iff_isSum]
  exact .term (.factor hfactor)

/-- The printed form of a parsed formula parses, if the texts of its numbers read
    back: to the formula itself unless a power in it has a sign as its base, and
    otherwise to the formula with that sign in front of the power. -/
theorem parse_printed {source : String} {f : Formula Float} (h : parse source = .ok f)
    (hread : ∀ x, Occurs (.number x) f → Scalar.read? (Scalar.text x) = some x) :
    parse f.text = .ok f.reread ∧
      (parse f.text = .ok f ↔ ∀ s g x, ¬ Occurs (.binary .power (.sign s g) x) f) := by
  have hparse := parse_text_of_legible (legible_of_parse h hread)
  refine ⟨hparse, ?_⟩
  rw [hparse, Except.ok.injEq, reread_eq_self_iff, RaisesSign]
  push Not
  rfl

/-- A power whose base has a sign, which only parentheses can say. -/
def signedBase : Formula Float := .binary .power (.sign .minus (.name "a")) (.number 0.1)

theorem parse_signedBase : parse "(-a) ** 0.1" = .ok signedBase := by
  have hlex : Token.lex "(-a) ** 0.1" =
      .ok [⟨.opening, "(", 0⟩, ⟨.minus, "-", 1⟩, ⟨.name, "a", 2⟩, ⟨.closing, ")", 3⟩,
        ⟨.power, "**", 5⟩, ⟨.number, "0.1", 8⟩] := by cbv
  rw [parse_eq_ok hlex, reads_iff_isSum]
  have hname : IsAtom [⟨.name, "a", 2⟩, ⟨.closing, ")", 3⟩, ⟨.power, "**", 5⟩, ⟨.number, "0.1", 8⟩]
      (.name "a" : Formula Float) [⟨.closing, ")", 3⟩, ⟨.power, "**", 5⟩, ⟨.number, "0.1", 8⟩] :=
    .name rfl (by simp [NotOpened]) (by decide)
  have hbase := IsAtom.group (o := ⟨.opening, "(", 0⟩) rfl
    (.term (.factor (.minus (t := ⟨.minus, "-", 1⟩) rfl (.power (.atom hname))))) rfl
  have hexponent : IsFactor [⟨.number, "0.1", 8⟩] (.number (0.1 : Float)) [] :=
    .power (.atom (.number rfl rfl))
  exact .term (.factor (.power (.raised hbase rfl hexponent)))

/-- Without its parentheses the sign of a base applies to the power. -/
theorem parse_printed_signedBase :
    parse "(-a) ** 0.1" = .ok signedBase ∧
      (∀ x, Occurs (.number x) signedBase → Scalar.read? (Scalar.text x) = some x) ∧
      signedBase.text = "(-a ** 0.1)" ∧
      parse signedBase.text = .ok
        (.sign .minus (.binary .power (.name "a") (.number (0.1 : Float)))) ∧
      parse signedBase.text ≠ .ok signedBase := by
  have htext : Scalar.text (0.1 : Float) = "0.1" := by decide +kernel
  have hread : ∀ x, Occurs (.number x) signedBase → Scalar.read? (Scalar.text x) = some x := by
    intro x hx
    simp only [signedBase, occurs_binary, occurs_sign, occurs_name, occurs_number,
      reduceCtorEq, false_or, number.injEq] at hx
    rw [hx, htext]
    rfl
  obtain ⟨hparse, hself⟩ := parse_printed parse_signedBase hread
  refine ⟨parse_signedBase, hread, ?_, hparse, ?_⟩
  · simp [signedBase, text, htext, Operator.symbol, Sign.symbol]
  · exact fun h => hself.1 h _ _ _ (Occurs.refl _)

end FuzzyInference.Formula
