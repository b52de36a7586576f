import FuzzyInference.Proofs.Formula.Parsing
import FuzzyInference.Proofs.Formula.Parts
import FuzzyInference.Proofs.Scalar.Finiteness

/-!
# Numbers of formulas

The numbers of a formula come from its source: each is the value of a literal or
of a constant among the tokens. So a number is never undefined, and it is
infinite only where the source says `inf` or writes a literal out of range.

Results:

* `spelled_of_parse`: every number of a formula is spelled by a token.
* `isNaN_of_spelled` and `isFinite_of_spelled`: what is known about it.
-/

namespace FuzzyInference

variable {α : Type} [Scalar α]

/-- A token is a literal or a constant with some value. -/
inductive Token.Spells (t : Token) (x : α) : Prop where
  | literal (hkind : t.kind = .number) (h : Scalar.read? t.text = some x)
  | constant (hkind : t.kind = .name) (h : constant? t.text = some x)

/-- A token is the constant `inf`, or a literal out of range. -/
def Token.SpellsInfinity (α : Type) [Scalar α] (t : Token) : Prop :=
  t.kind = .name ∧ t.text = "inf" ∨
    t.kind = .number ∧ ∃ x : α, Scalar.read? t.text = some x ∧ Scalar.isInfinite x = true

namespace Formula

/-! ## Where numbers come from -/

/-- The numbers of a formula are spelled by the tokens it was read from, and the
    tokens left are some of them. -/
structure ReadFrom (ts : List Token) (f : Formula α) (rest : List Token) : Prop where
  left : rest ⊆ ts
  numbers : ∀ x, Occurs (.number x) f → ∃ t ∈ ts, t.Spells x

/-- The same for several formulas. -/
structure AllReadFrom (ts : List Token) (fs : List (Formula α)) (rest : List Token) : Prop where
  left : rest ⊆ ts
  numbers : ∀ f ∈ fs, ∀ x, Occurs (.number x) f → ∃ t ∈ ts, t.Spells x

theorem ReadFrom.mono {ts ts' rest rest' : List Token} {f : Formula α} (h : ReadFrom ts f rest)
    (hts : ts ⊆ ts') (hrest : rest' ⊆ rest) : ReadFrom ts' f rest' := by
  constructor
  · exact fun t ht => hts (h.left (hrest ht))
  · intro x hx
    obtain ⟨t, ht, hspell⟩ := h.numbers x hx
    exact ⟨t, hts ht, hspell⟩

theorem ReadFrom.binary {ts more rest : List Token} {l r : Formula α} {t : Token} {op : Operator}
    (hl : ReadFrom ts l (t :: more)) (hr : ReadFrom more r rest) :
    ReadFrom ts (.binary op l r) rest := by
  have hmore : more ⊆ ts := fun u hu => hl.left (List.mem_cons_of_mem t hu)
  have hr' := hr.mono hmore (List.Subset.refl rest)
  constructor
  · exact hr'.left
  · intro x hx
    rcases occurs_binary.1 hx with h | h | h
    · cases h
    · exact hl.numbers x h
    · exact hr'.numbers x h

theorem ReadFrom.sign {ts rest : List Token} {f : Formula α} {t : Token} {s : Sign}
    (h : ReadFrom ts f rest) : ReadFrom (t :: ts) (.sign s f) rest := by
  have h' := h.mono (List.subset_cons_self t ts) (List.Subset.refl rest)
  constructor
  · exact h'.left
  · intro x hx
    rcases occurs_sign.1 hx with hx | hx
    · cases hx
    · exact h'.numbers x hx

theorem ReadFrom.number {t : Token} {rest : List Token} {v : α} (h : t.Spells v) :
    ReadFrom (t :: rest) (.number v) rest := by
  constructor
  · exact List.subset_cons_self t rest
  · intro x hx
    cases occurs_number.1 hx
    exact ⟨t, List.mem_cons_self, h⟩

mutual

theorem IsSum.readFrom {ts rest : List Token} {f : Formula α} (h : IsSum ts f rest) :
    ReadFrom ts f rest :=
  match h with
  | .term hterm => hterm.readFrom
  | .join hl _ hr => hl.readFrom.binary hr.readFrom

theorem IsTerm.readFrom {ts rest : List Token} {f : Formula α} (h : IsTerm ts f rest) :
    ReadFrom ts f rest :=
  match h with
  | .factor hfactor => hfactor.readFrom
  | .join hl _ hr => hl.readFrom.binary hr.readFrom

theorem IsFactor.readFrom {ts rest : List Token} {f : Formula α} (h : IsFactor ts f rest) :
    ReadFrom ts f rest :=
  match h with
  | .minus _ hf => hf.readFrom.sign
  | .plus _ hf => hf.readFrom.sign
  | .power hp => hp.readFrom

theorem IsPower.readFrom {ts rest : List Token} {f : Formula α} (h : IsPower ts f rest) :
    ReadFrom ts f rest :=
  match h with
  | .atom ha => ha.readFrom
  | .raised ha _ hx => ha.readFrom.binary hx.readFrom

theorem IsAtom.readFrom {ts rest : List Token} {f : Formula α} (h : IsAtom ts f rest) :
    ReadFrom ts f rest :=
  match h with
  | .number hk hv => .number (.literal hk hv)
  | .constant hk _ hv => .number (.constant hk hv)
  | @IsAtom.name _ _ t rest _ _ _ => by
    constructor
    · exact List.subset_cons_self t rest
    · intro x hx
      cases occurs_name.1 hx
  | @IsAtom.call _ _ t o fn us args _ _ _ _ hargs _ => by
    have hall := hargs.readFrom
    have hus : us ⊆ t :: o :: us := fun u hu => List.mem_cons_of_mem t (List.mem_cons_of_mem o hu)
    constructor
    · exact fun u hu => hus (hall.left hu)
    · intro x hx
      rcases occurs_call.1 hx with h | ⟨a, ha, h⟩
      · cases h
      · obtain ⟨u, hu, hspell⟩ := hall.numbers a ha x h
        exact ⟨u, hus hu, hspell⟩
  | @IsAtom.group _ _ o us _ c rest _ hsum _ =>
    hsum.readFrom.mono (List.subset_cons_self o us) (List.subset_cons_self c rest)

theorem AreArguments.readFrom {ts rest : List Token} {args : List (Formula α)}
    (h : AreArguments ts args rest) : AllReadFrom ts args rest :=
  match h with
  | @AreArguments.none _ _ c _ _ => ⟨List.subset_cons_self c rest, fun _ hf => nomatch hf⟩
  | .some hparts => hparts.readFrom

theorem AreParts.readFrom {ts rest : List Token} {args : List (Formula α)}
    (h : AreParts ts args rest) : AllReadFrom ts args rest :=
  match h with
  | @AreParts.last _ _ _ _ c _ hsum _ => by
    have hread := hsum.readFrom
    constructor
    · exact fun u hu => hread.left (List.mem_cons_of_mem c hu)
    · intro f hf
      rw [List.mem_singleton.1 hf]
      exact hread.numbers
  | @AreParts.more _ _ _ _ c more _ _ hsum _ hparts => by
    have hread := hsum.readFrom
    have hrest := hparts.readFrom
    have hmore : more ⊆ ts := fun u hu => hread.left (List.mem_cons_of_mem c hu)
    constructor
    · exact fun u hu => hmore (hrest.left hu)
    · intro f hf x hx
      rcases List.mem_cons.1 hf with rfl | hf
      · exact hread.numbers x hx
      · obtain ⟨u, hu, hspell⟩ := hrest.numbers f hf x hx
        exact ⟨u, hmore hu, hspell⟩

end

theorem spelled_of_parse {source : String} {ts : List Token} {f : Formula α}
    (hlex : Token.lex source = .ok ts) (hparse : parse source = .ok f) {x : α}
    (hx : Occurs (.number x) f) : ∃ t ∈ ts, t.Spells x :=
  (reads_iff_isSum.1 ((parse_eq_ok hlex).1 hparse)).readFrom.numbers x hx

end Formula

/-! ## What is spelled -/

namespace Token

variable [FiniteNumbers α]

omit [FiniteNumbers α] in
theorem constant?_eq_some {name : String} {x : α} (h : constant? name = some x) :
    x = Scalar.e ∨ x = Scalar.pi ∨ name = "inf" ∧ x = Scalar.infinity := by
  unfold constant? at h
  split at h
  · exact .inl (Option.some.inj h).symm
  · exact .inr (.inl (Option.some.inj h).symm)
  · exact .inr (.inr ⟨rfl, (Option.some.inj h).symm⟩)
  · cases h

theorem isNaN_of_spelled {source : String} {ts : List Token}
    (hlex : lex source = .ok ts) {t : Token} (ht : t ∈ ts) {x : α} (h : t.Spells x) :
    Scalar.isNaN x = false := by
  cases h with
  | literal hkind h =>
    obtain ⟨d, hd⟩ := magnitude_of_lex hlex t ht hkind
    rw [Scalar.read?, hd] at h
    rw [← Option.some.inj h]
    exact FiniteNumbers.isNaN_ofDecimal d
  | constant hkind h =>
    rcases constant?_eq_some h with rfl | rfl | ⟨-, rfl⟩
    · exact Scalar.isNaN_of_isFinite FiniteNumbers.isFinite_e
    · exact Scalar.isNaN_of_isFinite FiniteNumbers.isFinite_pi
    · exact FiniteNumbers.isNaN_infinity

theorem isFinite_of_spelled {source : String} {ts : List Token} (hlex : lex source = .ok ts)
    {t : Token} (ht : t ∈ ts) {x : α} (h : t.Spells x) (hinfinity : ¬ t.SpellsInfinity α) :
    Scalar.isFinite x = true := by
  have hdefined := isNaN_of_spelled hlex ht h
  cases h with
  | literal hkind h =>
    have hfinite : Scalar.isInfinite x = false := by
      rw [← Bool.not_eq_true]
      exact fun hx => hinfinity (.inr ⟨hkind, x, h, hx⟩)
    rw [Scalar.isFinite, hdefined, hfinite]
    rfl
  | constant hkind h =>
    rcases constant?_eq_some h with rfl | rfl | ⟨hname, rfl⟩
    · exact FiniteNumbers.isFinite_e
    · exact FiniteNumbers.isFinite_pi
    · exact absurd (.inl ⟨hkind, hname⟩) hinfinity

end Token

end FuzzyInference
