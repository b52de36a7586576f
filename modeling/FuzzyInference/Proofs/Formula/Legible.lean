import FuzzyInference.Proofs.Formula.Literals
import FuzzyInference.Proofs.Formula.Parsing
import FuzzyInference.Proofs.Scalar.Unsigned

/-!
# Formulas that can be written

Not every tree can be written as a source. In one that comes from a source, a
name is spelled like a name and is not reserved, a call has as many arguments as
its function takes, and a number has no sign. The text of a number without a sign
is a literal, or the name of infinity.

Results:

* `Token.isName_of_lex`: a name among the tokens is spelled like one.
* `IsSum.sourced` and its companions: where the names and calls of a derived tree
  come from, one lemma for each kind of derivation.
* `legible_of_parse`: a formula that a source parses to can be written, if the
  texts of its numbers read back.
-/

namespace FuzzyInference

/-! ## Names -/

namespace Token

theorem isName_of_scan {c : Char} {cs : List Char} {more : ℕ} (h : scan c cs = some (.name, more)) :
    isName (String.ofList (c :: cs.take more)) = true := by
  unfold scan at h
  split at h
  · cases h
  · split at h
    · rename_i hstart
      cases h
      have hrun : cs.take (cs.takeWhile isNameRest).length = cs.takeWhile isNameRest :=
        (List.prefix_iff_eq_take.1 (List.takeWhile_prefix isNameRest)).symm
      rw [isName, String.toList_ofList, hrun]
      change (isNameStart c && (cs.takeWhile isNameRest).all isNameRest) = true
      rw [hstart, List.all_takeWhile]
      rfl
    · split at h <;> try cases h
      -- a point starts a number if it starts anything
      dsimp only at h
      split at h <;> cases h

theorem isName_of_lex {source : String} {ts : List Token} (h : lex source = .ok ts)
    {t : Token} (ht : t ∈ ts) (hkind : t.kind = .name) : isName t.text = true := by
  obtain ⟨c, cs, more, hscan, htext⟩ := scan_of_lexFrom h t ht
  rw [hkind] at hscan
  rw [htext]
  exact isName_of_scan hscan

end Token

namespace Formula

variable {α : Type}

/-! ## Parts -/

/-- A name is among the tokens and not reserved; a call has the arguments that its
    function takes. -/
def Sourced (ts : List Token) : Formula α → Prop
  | .name n => isBuiltinName n = false ∧ ∃ t ∈ ts, t.kind = .name ∧ t.text = n
  | .call fn args => fn.arity.admits args.length = true
  | _ => True

/-- Every part of a formula is as its tokens have it. -/
def AllSourced (ts : List Token) (f : Formula α) : Prop := ∀ p, Occurs p f → Sourced ts p

theorem Sourced.mono {ts us : List Token} {p : Formula α} (h : Sourced ts p) (hts : ts ⊆ us) :
    Sourced us p := by
  cases p with
  | name n =>
    obtain ⟨hbuiltin, t, ht, hname⟩ := h
    exact ⟨hbuiltin, t, hts ht, hname⟩
  | call fn args => exact h
  | number value => trivial
  | sign s f => trivial
  | binary op l r => trivial

theorem AllSourced.mono {ts us : List Token} {f : Formula α} (h : AllSourced ts f) (hts : ts ⊆ us) :
    AllSourced us f :=
  fun p hp => (h p hp).mono hts

theorem AllSourced.sign {ts : List Token} {t : Token} {s : Sign} {f : Formula α}
    (h : AllSourced ts f) : AllSourced (t :: ts) (.sign s f) := by
  intro p hp
  rcases occurs_sign.1 hp with rfl | hp
  · trivial
  · exact (h p hp).mono (List.subset_cons_self t ts)

/-- The right operand stands behind the left one and the operation. -/
theorem AllSourced.binary {ts more : List Token} {t : Token} {op : Operator} {l r : Formula α}
    (hleft : t :: more ⊆ ts) (hl : AllSourced ts l) (hr : AllSourced more r) :
    AllSourced ts (.binary op l r) := by
  intro p hp
  rcases occurs_binary.1 hp with rfl | hp | hp
  · trivial
  · exact hl p hp
  · exact (hr p hp).mono fun u hu => hleft (List.mem_cons_of_mem t hu)

theorem allSourced_number {ts : List Token} {v : α} : AllSourced ts (.number v) := by
  intro p hp
  cases occurs_number.1 hp
  trivial

variable [Scalar α]

mutual

theorem IsSum.sourced {ts rest : List Token} {f : Formula α} (h : IsSum ts f rest) :
    AllSourced ts f :=
  match h with
  | .term hterm => hterm.sourced
  | .join hl _ hr => hl.sourced.binary hl.readFrom.left hr.sourced

theorem IsTerm.sourced {ts rest : List Token} {f : Formula α} (h : IsTerm ts f rest) :
    AllSourced ts f :=
  match h with
  | .factor hfactor => hfactor.sourced
  | .join hl _ hr => hl.sourced.binary hl.readFrom.left hr.sourced

theorem IsFactor.sourced {ts rest : List Token} {f : Formula α} (h : IsFactor ts f rest) :
    AllSourced ts f :=
  match h with
  | .minus _ hf => hf.sourced.sign
  | .plus _ hf => hf.sourced.sign
  | .power hp => hp.sourced

theorem IsPower.sourced {ts rest : List Token} {f : Formula α} (h : IsPower ts f rest) :
    AllSourced ts f :=
  match h with
  | .atom ha => ha.sourced
  | .raised ha _ hx => ha.sourced.binary ha.readFrom.left hx.sourced

theorem IsAtom.sourced {ts rest : List Token} {f : Formula α} (h : IsAtom ts f rest) :
    AllSourced ts f :=
  match h with
  | .number _ _ => allSourced_number
  | .constant _ _ _ => allSourced_number
  | @IsAtom.name _ _ t _ hk _ hb => by
    intro p hp
    cases occurs_name.1 hp
    exact ⟨hb, t, List.mem_cons_self, hk, rfl⟩
  | @IsAtom.call _ _ t o _ us _ _ _ _ _ hargs hn => by
    have hall := hargs.sourced
    intro p hp
    rcases occurs_call.1 hp with rfl | ⟨a, ha, hp⟩
    · exact hn
    · exact (hall a ha p hp).mono fun u hu => List.mem_cons_of_mem t (List.mem_cons_of_mem o hu)
  | @IsAtom.group _ _ o us _ _ _ _ hsum _ => hsum.sourced.mono (List.subset_cons_self o us)

theorem AreArguments.sourced {ts rest : List Token} {args : List (Formula α)}
    (h : AreArguments ts args rest) : ∀ a ∈ args, AllSourced ts a :=
  match h with
  | .none _ => fun _ ha => nomatch ha
  | .some hparts => hparts.sourced

theorem AreParts.sourced {ts rest : List Token} {args : List (Formula α)}
    (h : AreParts ts args rest) : ∀ a ∈ args, AllSourced ts a :=
  match h with
  | .last hsum _ => by
    have hlast := hsum.sourced
    intro a ha
    rw [List.mem_singleton.1 ha]
    exact hlast
  | @AreParts.more _ _ _ _ c _ _ _ hsum _ hparts => by
    have hfirst := hsum.sourced
    have hothers := hparts.sourced
    intro a ha
    rcases List.mem_cons.1 ha with rfl | ha
    · exact hfirst
    · exact (hothers a ha).mono fun u hu => hsum.readFrom.left (List.mem_cons_of_mem c hu)

end

/-! ## Legible formulas -/

/-- The text of a number is the name of infinity, or a literal of the number. -/
inductive IsWritable (x : α) : Prop
  | infinity (h : x = Scalar.infinity) (htext : Scalar.text x = "inf")
  | literal (htext : IsPlain (Scalar.text x).toList) (h : Scalar.read? (Scalar.text x) = some x)

/-- Numbers can be written, names are spelled like names and not reserved, and calls
    have the arguments that their functions take. -/
structure Legible (f : Formula α) : Prop where
  number : ∀ x, Occurs (.number x) f → IsWritable x
  name : ∀ n, Occurs (.name n) f → Token.isName n = true ∧ isBuiltinName n = false
  call : ∀ fn args, Occurs (.call fn args) f → fn.arity.admits args.length = true

theorem Legible.of_operand {f g : Formula α} (h : Legible f) (hg : IsOperand g f) : Legible g where
  number x hx := h.number x (hx.of_operand hg)
  name n hn := h.name n (hn.of_operand hg)
  call fn args hcall := h.call fn args (hcall.of_operand hg)

theorem signBit_of_spelled {source : String} {ts : List Token}
    (hlex : Token.lex source = .ok ts) {t : Token} (ht : t ∈ ts) {x : Float} (h : t.Spells x) :
    Binary.signBit x = false := by
  cases h with
  | literal hkind h =>
    obtain ⟨d, hd⟩ := Token.magnitude_of_lex hlex t ht hkind
    rw [Scalar.read?, hd] at h
    rw [← Option.some.inj h]
    exact Binary64.signBit_toFloat d
  | constant hkind h =>
    rcases Token.constant?_eq_some h with rfl | rfl | ⟨-, rfl⟩
    · rfl
    · rfl
    · rfl

theorem sourced_of_parse {source : String} {ts : List Token} {f : Formula α}
    (hlex : Token.lex source = .ok ts) (hparse : parse source = .ok f) : AllSourced ts f :=
  (reads_iff_isSum.1 ((parse_eq_ok hlex).1 hparse)).sourced

theorem lex_of_parse {source : String} {f : Formula α} (h : parse source = .ok f) :
    ∃ ts, Token.lex source = .ok ts := by
  cases hlex : Token.lex source with
  | ok ts => exact ⟨ts, rfl⟩
  | error fault => simp [parse, hlex, bind, Except.bind] at h

/-- A number that is written as infinity and reads back is infinity. -/
theorem eq_infinity_of_read {x : Float} (h : Scalar.read? "inf" = some x) :
    x = Scalar.infinity := by
  have hinfinity : Scalar.read? "inf" = some (Scalar.infinity : Float) := by rfl
  rw [hinfinity] at h
  exact (Option.some.inj h).symm

theorem legible_of_parse {source : String} {f : Formula Float} (h : parse source = .ok f)
    (hread : ∀ x, Occurs (.number x) f → Scalar.read? (Scalar.text x) = some x) : Legible f := by
  obtain ⟨ts, hlex⟩ := lex_of_parse h
  have hparts := sourced_of_parse hlex h
  constructor
  · intro x hx
    obtain ⟨t, ht, hspell⟩ := spelled_of_parse hlex h hx
    have hsign := signBit_of_spelled hlex ht hspell
    have hdefined : x.isNaN = false := Token.isNaN_of_spelled hlex ht hspell
    have hback := hread x hx
    rcases Binary64.text_of_unsigned hsign hdefined with hinf | hplain
    · rw [hinf] at hback
      exact .infinity (eq_infinity_of_read hback) hinf
    · exact .literal hplain hback
  · intro n hn
    obtain ⟨hbuiltin, t, ht, hkind, htext⟩ := hparts _ hn
    exact ⟨htext ▸ Token.isName_of_lex hlex ht hkind, hbuiltin⟩
  · intro fn args hcall
    exact hparts _ hcall

end Formula

end FuzzyInference
