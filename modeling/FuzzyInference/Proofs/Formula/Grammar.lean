import FuzzyInference.Formula.Parse

/-!
# The grammar of formulas

The grammar that formulas are written in, as relations between the tokens a
reading starts at, the tree it builds and the tokens it leaves:

* a sum is terms joined by `+` and `-`, grouped to the left;
* a term is factors joined by `*`, `/`, `//` and `%`, grouped to the left;
* a factor is a sign and a factor, or a power;
* a power is an atom, or an atom, `**` and a factor;
* an atom is a number, a constant, a name, a call, or a sum in parentheses.

Nothing here mentions strengths or the order in which a parser tries things.

Results:

* `IsLevel.weaken` and `IsLevel.join`: sums, terms and factors as the levels of
  strength one, two and three.
-/

namespace FuzzyInference.Formula

variable {α : Type} [Scalar α]

/-- The tokens that join terms, with their operations. -/
inductive JoinsTerms : TokenKind → Operator → Prop
  | plus : JoinsTerms .plus .add
  | minus : JoinsTerms .minus .subtract

/-- The tokens that join factors, with their operations. -/
inductive JoinsFactors : TokenKind → Operator → Prop
  | times : JoinsFactors .times .multiply
  | divide : JoinsFactors .divide .divide
  | floorDivide : JoinsFactors .floorDivide .floorDivide
  | remainder : JoinsFactors .remainder .remainder

/-- Tokens that do not start with an opening parenthesis. -/
def NotOpened (ts : List Token) : Prop := ∀ t ∈ ts.head?, t.kind ≠ .opening

mutual

/-- A sum stands at the start of the first tokens and leaves the second ones. -/
inductive IsSum : List Token → Formula α → List Token → Prop
  | term {ts f rest} : IsTerm ts f rest → IsSum ts f rest
  | join {ts l t op more r rest} : IsSum ts l (t :: more) → JoinsTerms t.kind op →
      IsTerm more r rest → IsSum ts (.binary op l r) rest

/-- A term stands at the start of the first tokens and leaves the second ones. -/
inductive IsTerm : List Token → Formula α → List Token → Prop
  | factor {ts f rest} : IsFactor ts f rest → IsTerm ts f rest
  | join {ts l t op more r rest} : IsTerm ts l (t :: more) → JoinsFactors t.kind op →
      IsFactor more r rest → IsTerm ts (.binary op l r) rest

/-- A factor stands at the start of the first tokens and leaves the second ones. -/
inductive IsFactor : List Token → Formula α → List Token → Prop
  | minus {t ts f rest} : t.kind = .minus → IsFactor ts f rest →
      IsFactor (t :: ts) (.sign .minus f) rest
  | plus {t ts f rest} : t.kind = .plus → IsFactor ts f rest →
      IsFactor (t :: ts) (.sign .plus f) rest
  | power {ts f rest} : IsPower ts f rest → IsFactor ts f rest

/-- A power stands at the start of the first tokens and leaves the second ones. -/
inductive IsPower : List Token → Formula α → List Token → Prop
  | atom {ts f rest} : IsAtom ts f rest → IsPower ts f rest
  | raised {ts base t more exponent rest} : IsAtom ts base (t :: more) → t.kind = .power →
      IsFactor more exponent rest → IsPower ts (.binary .power base exponent) rest

/-- An atom stands at the start of the first tokens and leaves the second ones. -/
inductive IsAtom : List Token → Formula α → List Token → Prop
  | number {t v rest} : t.kind = .number → Scalar.read? t.text = some v →
      IsAtom (t :: rest) (.number v) rest
  | constant {t v rest} : t.kind = .name → NotOpened rest → constant? t.text = some v →
      IsAtom (t :: rest) (.number v) rest
  | name {t rest} : t.kind = .name → NotOpened rest → isBuiltinName t.text = false →
      IsAtom (t :: rest) (.name t.text) rest
  | call {t o f ts args rest} : t.kind = .name → Function.ofName? t.text = some f →
      o.kind = .opening → AreArguments ts args rest → f.arity.admits args.length = true →
      IsAtom (t :: o :: ts) (.call f args) rest
  | group {o ts f c rest} : o.kind = .opening → IsSum ts f (c :: rest) → c.kind = .closing →
      IsAtom (o :: ts) f rest

/-- Arguments and a closing parenthesis stand at the start of the first tokens. -/
inductive AreArguments : List Token → List (Formula α) → List Token → Prop
  | none {c rest} : c.kind = .closing → AreArguments (c :: rest) [] rest
  | some {ts args rest} : AreParts ts args rest → AreArguments ts args rest

/-- One argument or more, between commas, and a closing parenthesis. -/
inductive AreParts : List Token → List (Formula α) → List Token → Prop
  | last {ts f c rest} : IsSum ts f (c :: rest) → c.kind = .closing → AreParts ts [f] rest
  | more {ts f c more fs rest} : IsSum ts f (c :: more) → c.kind = .comma → AreParts more fs rest →
      AreParts ts (f :: fs) rest

end

/-! ## Levels -/

/-- What operations of at least a given strength and their operands spell. -/
def IsLevel (strength : Nat) (ts : List Token) (f : Formula α) (rest : List Token) : Prop :=
  if strength ≤ 1 then IsSum ts f rest
  else if strength = 2 then IsTerm ts f rest
  else IsFactor ts f rest

/-- An operation of two operands is at the start of tokens only if it has less than
    a given strength. -/
def WeakerThan (strength : Nat) (ts : List Token) : Prop :=
  ∀ t ∈ ts.head?, ∀ op s, operator? t.kind = some (op, s) → s < strength

theorem operator?_eq_some {k : TokenKind} {op : Operator} {s : Nat}
    (h : operator? k = some (op, s)) : JoinsTerms k op ∧ s = 1 ∨ JoinsFactors k op ∧ s = 2 := by
  cases k <;> simp only [operator?, Option.some.injEq, Prod.mk.injEq, reduceCtorEq] at h <;>
    obtain ⟨rfl, rfl⟩ := h
  · exact .inr ⟨.floorDivide, rfl⟩
  · exact .inl ⟨.plus, rfl⟩
  · exact .inl ⟨.minus, rfl⟩
  · exact .inr ⟨.times, rfl⟩
  · exact .inr ⟨.divide, rfl⟩
  · exact .inr ⟨.remainder, rfl⟩

theorem operator?_of_joinsTerms {k : TokenKind} {op : Operator} (h : JoinsTerms k op) :
    operator? k = some (op, 1) := by
  cases h <;> rfl

theorem operator?_of_joinsFactors {k : TokenKind} {op : Operator} (h : JoinsFactors k op) :
    operator? k = some (op, 2) := by
  cases h <;> rfl

theorem weakerThan_three (ts : List Token) : WeakerThan 3 ts := by
  intro t _ op s h
  rcases operator?_eq_some h with ⟨_, rfl⟩ | ⟨_, rfl⟩ <;> omega

theorem WeakerThan.mono {m n : Nat} {ts : List Token} (h : WeakerThan m ts) (hmn : m ≤ n) :
    WeakerThan n ts :=
  fun t ht op s hs => Nat.lt_of_lt_of_le (h t ht op s hs) hmn

/-- A factor is also a term, and a term is also a sum. -/
theorem IsLevel.weaken {m n : Nat} {ts rest : List Token} {f : Formula α} (h : IsLevel m ts f rest)
    (hnm : n ≤ m) : IsLevel n ts f rest := by
  unfold IsLevel at h ⊢
  split at h
  · have : n ≤ 1 := by omega
    simpa [this] using h
  · split at h
    · rcases Nat.lt_or_ge 1 n with hn | hn
      · have hn2 : n = 2 := by omega
        simpa [hn2] using h
      · simpa [hn] using IsSum.term h
    · rcases Nat.lt_trichotomy n 2 with hn | hn | hn
      · have : n ≤ 1 := by omega
        simpa [this] using IsSum.term (IsTerm.factor h)
      · simpa [hn] using IsTerm.factor h
      · have h1 : ¬ n ≤ 1 := by omega
        have h2 : ¬ n = 2 := by omega
        simpa [h1, h2] using h

/-- An operation joins a left operand of its own strength and a right operand of a
    greater one. -/
theorem IsLevel.join {s : Nat} {ts more rest : List Token} {t : Token} {op : Operator}
    {l r : Formula α} (hop : operator? t.kind = some (op, s)) (hl : IsLevel s ts l (t :: more))
    (hr : IsLevel (s + 1) more r rest) : IsLevel s ts (.binary op l r) rest := by
  rcases operator?_eq_some hop with ⟨hj, rfl⟩ | ⟨hj, rfl⟩
  · exact IsSum.join hl hj hr
  · exact IsTerm.join hl hj hr

end FuzzyInference.Formula
