import FuzzyInference.Proofs.Formula.Reading

/-!
# The parser reads every formula

What the grammar derives is read by the parser, if nothing stands behind it that
the parser would take as well. The proofs follow a derivation. A sum or a term is
the left operand of whatever comes next, so the statement for these is about the
loop that goes on behind it.

Results:

* `IsSum.reads`, `IsTerm.reads`, `IsFactor.reads`, `IsPower.reads`, `IsAtom.reads`,
  `AreArguments.reads` and `AreParts.reads`: one for each kind of derivation.
-/

namespace FuzzyInference.Formula

variable {α : Type} [Scalar α]

/-! ## Tokens that a reading starts or ends at -/

theorem notRaised_of_kind {t : Token} (ts : List Token) (h : t.kind ≠ .power) :
    NotRaised (t :: ts) := by
  intro u hu
  cases hu
  exact h

theorem weakerThan_of_operator {s n : Nat} {op : Operator} {t : Token} (ts : List Token)
    (h : operator? t.kind = some (op, s)) (hs : s < n) : WeakerThan n (t :: ts) := by
  intro u hu op' s' h'
  cases hu
  rw [h] at h'
  cases h'
  exact hs

/-- The tokens that end a sum inside of parentheses. -/
def EndsPart (t : Token) : Prop := t.kind = .closing ∨ t.kind = .comma

theorem weakerThan_of_endsPart {n : Nat} {t : Token} (ts : List Token) (h : EndsPart t) :
    WeakerThan n (t :: ts) := by
  intro u hu op s hop
  cases hu
  rcases h with h | h <;> simp [h, operator?] at hop

theorem notRaised_of_endsPart {t : Token} (ts : List Token) (h : EndsPart t) :
    NotRaised (t :: ts) := by
  apply notRaised_of_kind
  rcases h with h | h <;> simp [h]

theorem climb_reads_endsPart {least : Nat} {f : Formula α} {t : Token} (ts : List Token)
    (h : EndsPart t) : Reads (climb least f (t :: ts)) f (t :: ts) :=
  (climb_reads_stop (weakerThan_of_endsPart ts h)).2 ⟨rfl, rfl⟩

theorem ne_power_of_operator {k : TokenKind} {op : Operator} {s : Nat}
    (h : operator? k = some (op, s)) : k ≠ .power := by
  rintro rfl
  cases h

theorem signOf?_of_power {ts rest : List Token} {f : Formula α} (h : Reads (power ts) f rest) :
    ∀ t ∈ ts.head?, signOf? t.kind = none := by
  obtain ⟨base, mid, hbase⟩ := atom_of_power h
  obtain ⟨t, more, rfl, hk⟩ := kind_of_atom hbase
  intro u hu
  cases hu
  rcases hk with hk | hk | hk <;> simp [hk, signOf?]

/-- No reading starts at a closing parenthesis. -/
theorem ne_closing_of_operations {least : Nat} {ts rest : List Token} {f : Formula α}
    (h : Reads (operations least ts) f rest) : ∀ t ∈ ts.head?, t.kind ≠ .closing := by
  obtain ⟨left, mid, hleft, -⟩ := operations_reads.1 h
  intro t ht hk
  have hsign : ∀ u ∈ ts.head?, signOf? u.kind = none := by
    intro u hu
    obtain rfl : t = u := Option.mem_unique ht hu
    simp [hk, signOf?]
  obtain ⟨base, last, hbase⟩ := atom_of_power ((factor_reads_power hsign).1 hleft)
  obtain ⟨u, more, rfl, hu⟩ := kind_of_atom hbase
  cases ht
  simp [hk] at hu

theorem ofName_of_notBuiltin {n : String} (h : isBuiltinName n = false) :
    ofName (α := α) n = .ok (.name n) := by
  simp only [isBuiltinName, Bool.or_eq_false_iff] at h
  obtain ⟨hf, hc⟩ := h
  have hconst : constant? (α := α) n = none := by
    unfold constant?
    split <;> simp_all [constantNames]
  simp [ofName, hconst, hf]

/-! ## Derivations -/

mutual

theorem IsSum.reads {ts rest last : List Token} {f g : Formula α} (h : IsSum ts f rest)
    (hweak : WeakerThan 2 rest) (hraised : NotRaised rest) (hloop : Reads (climb 0 f rest) g last) :
    Reads (operations 0 ts) g last :=
  match h with
  | .term hterm => hterm.reads (Nat.zero_le 2) hraised hloop
  | @IsSum.join _ _ _ _ _ _ more r _ hl hj hr => by
    have hop := operator?_of_joinsTerms hj
    have hright : Reads (operations 2 more) r rest :=
      hr.reads (Nat.le_refl 2) hraised ((climb_reads_stop hweak).2 ⟨rfl, rfl⟩)
    exact hl.reads (weakerThan_of_operator more hop (by omega))
      (notRaised_of_kind more (ne_power_of_operator hop))
      ((climb_reads_operation hop (Nat.zero_le 1)).2 ⟨r, rest, hright, hloop⟩)

theorem IsTerm.reads {least : Nat} {ts rest last : List Token} {f g : Formula α}
    (h : IsTerm ts f rest) (hleast : least ≤ 2) (hraised : NotRaised rest)
    (hloop : Reads (climb least f rest) g last) : Reads (operations least ts) g last :=
  match h with
  | .factor hfactor => operations_reads.2 ⟨f, rest, hfactor.reads hraised, hloop⟩
  | @IsTerm.join _ _ _ _ _ _ more r _ hl hj hr => by
    have hop := operator?_of_joinsFactors hj
    have hright : Reads (operations 3 more) r rest :=
      operations_reads.2 ⟨r, rest, hr.reads hraised,
        (climb_reads_stop (weakerThan_three rest)).2 ⟨rfl, rfl⟩⟩
    exact hl.reads hleast (notRaised_of_kind more (ne_power_of_operator hop))
      ((climb_reads_operation hop hleast).2 ⟨r, rest, hright, hloop⟩)

theorem IsFactor.reads {ts rest : List Token} {f : Formula α} (h : IsFactor ts f rest)
    (hraised : NotRaised rest) : Reads (factor ts) f rest :=
  match h with
  | .minus hk hf => (factor_reads_sign (by rw [hk]; rfl)).2 ⟨_, hf.reads hraised, rfl⟩
  | .plus hk hf => (factor_reads_sign (by rw [hk]; rfl)).2 ⟨_, hf.reads hraised, rfl⟩
  | .power hp => by
    have hpower := hp.reads hraised
    exact (factor_reads_power (signOf?_of_power hpower)).2 hpower

theorem IsPower.reads {ts rest : List Token} {f : Formula α} (h : IsPower ts f rest)
    (hraised : NotRaised rest) : Reads (power ts) f rest :=
  match h with
  | .atom ha => (power_reads_atom ha.reads hraised).2 ⟨rfl, rfl⟩
  | .raised ha hk hx => (power_reads_raised ha.reads hk).2 ⟨_, hx.reads hraised, rfl⟩

theorem IsAtom.reads {ts rest : List Token} {f : Formula α} (h : IsAtom ts f rest) :
    Reads (atom ts) f rest :=
  match h with
  | .number hk hv => (atom_reads_number hk).2 ⟨_, hv, rfl, rfl⟩
  | .constant hk ho hv => (atom_reads_name hk ho).2 ⟨by simp [ofName, hv], rfl⟩
  | .name hk ho hb => (atom_reads_name hk ho).2 ⟨ofName_of_notBuiltin hb, rfl⟩
  | .call hk hg ho hargs hn => (atom_reads_call hk ho).2 ⟨_, _, hg, hargs.reads, hn, rfl⟩
  | .group ho hsum hc =>
    (atom_reads_group ho).2 ⟨_, hsum.reads (weakerThan_of_endsPart _ (.inl hc))
      (notRaised_of_endsPart _ (.inl hc)) (climb_reads_endsPart _ (.inl hc)), hc⟩

theorem AreArguments.reads {ts rest : List Token} {args : List (Formula α)}
    (h : AreArguments ts args rest) : Reads (arguments ts) args rest :=
  match h with
  | .none hc => (arguments_reads_none hc).2 ⟨rfl, rfl⟩
  | .some hparts => by
    have hmore := hparts.reads
    obtain ⟨arg, t, more, hsum, -⟩ := moreArguments_reads.1 hmore
    exact (arguments_reads_some (ne_closing_of_operations hsum)).2 hmore

theorem AreParts.reads {ts rest : List Token} {args : List (Formula α)}
    (h : AreParts ts args rest) : Reads (moreArguments ts) args rest :=
  match h with
  | .last hsum hc => by
    have hread :=
      hsum.reads (weakerThan_of_endsPart _ (.inl hc)) (notRaised_of_endsPart _ (.inl hc))
      (climb_reads_endsPart _ (.inl hc))
    exact moreArguments_reads.2 ⟨_, _, _, hread, .inl ⟨hc, rfl, rfl⟩⟩
  | .more hsum hc hparts => by
    have hread :=
      hsum.reads (weakerThan_of_endsPart _ (.inr hc)) (notRaised_of_endsPart _ (.inr hc))
      (climb_reads_endsPart _ (.inr hc))
    exact moreArguments_reads.2 ⟨_, _, _, hread, .inr ⟨hc, _, hparts.reads, rfl⟩⟩

end

end FuzzyInference.Formula
