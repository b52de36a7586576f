import FuzzyInference.Proofs.Formula.Parsing
import FuzzyInference.Proofs.Formula.Parts

/-!
# Names in the order of the source

Reading a formula neither drops nor moves a name: the names that the tree
mentions from left to right are the name tokens it was read from, without those
that are reserved for functions and constants.

Results:

* `IsSum.freeNames_eq` and its companions: a reading takes the names of its tree
  from the tokens.
* `names_of_parse`: the names of a parsed formula are the free names of its
  source, each where it stands first.
-/

namespace FuzzyInference.Formula

variable {α : Type}

/-! ## Names among tokens -/

/-- The names among tokens that are not reserved, from left to right. -/
def freeNames (ts : List Token) : List String :=
  (ts.filter fun t => decide (t.kind = .name) && !isBuiltinName t.text).map Token.text

theorem freeNames_name {t : Token} (hkind : t.kind = .name) (hfree : isBuiltinName t.text = false)
    (ts : List Token) : freeNames (t :: ts) = t.text :: freeNames ts := by
  simp [freeNames, hkind, hfree]

theorem freeNames_builtin {t : Token} (h : isBuiltinName t.text = true) (ts : List Token) :
    freeNames (t :: ts) = freeNames ts := by
  simp [freeNames, h]

theorem freeNames_sign {t : Token} (h : t.kind ≠ .name) (ts : List Token) :
    freeNames (t :: ts) = freeNames ts := by
  simp [freeNames, h]

/-- The right operand stands behind the left one and a token that is no name. -/
theorem freeNames_binary {ts more rest : List Token} {t : Token} {op : Operator} {l r : Formula α}
    (hl : freeNames ts = l.mentions ++ freeNames (t :: more)) (ht : t.kind ≠ .name)
    (hr : freeNames more = r.mentions ++ freeNames rest) :
    freeNames ts = (binary op l r).mentions ++ freeNames rest := by
  rw [hl, freeNames_sign ht, hr, mentions_binary, List.append_assoc]

theorem isBuiltinName_of_function {n : String} {f : Function} (h : Function.ofName? n = some f) :
    isBuiltinName n = true := by
  rw [isBuiltinName, h]
  rfl

/-! ## Readings -/

variable [Scalar α]

theorem isBuiltinName_of_constant {n : String} {v : α} (h : constant? n = some v) :
    isBuiltinName n = true := by
  unfold constant? at h
  split at h
  · decide
  · decide
  · decide
  · cases h

theorem JoinsTerms.ne_name {k : TokenKind} {op : Operator} (h : JoinsTerms k op) : k ≠ .name := by
  cases h <;> decide

theorem JoinsFactors.ne_name {k : TokenKind} {op : Operator} (h : JoinsFactors k op) :
    k ≠ .name := by
  cases h <;> decide

mutual

theorem IsSum.freeNames_eq {ts rest : List Token} {f : Formula α} (h : IsSum ts f rest) :
    freeNames ts = f.mentions ++ freeNames rest :=
  match h with
  | .term hterm => hterm.freeNames_eq
  | .join hl hjoin hr => freeNames_binary hl.freeNames_eq hjoin.ne_name hr.freeNames_eq

theorem IsTerm.freeNames_eq {ts rest : List Token} {f : Formula α} (h : IsTerm ts f rest) :
    freeNames ts = f.mentions ++ freeNames rest :=
  match h with
  | .factor hfactor => hfactor.freeNames_eq
  | .join hl hjoin hr => freeNames_binary hl.freeNames_eq hjoin.ne_name hr.freeNames_eq

theorem IsFactor.freeNames_eq {ts rest : List Token} {f : Formula α} (h : IsFactor ts f rest) :
    freeNames ts = f.mentions ++ freeNames rest :=
  match h with
  | .minus hkind hf => by
    rw [freeNames_sign (by rw [hkind]; decide), hf.freeNames_eq, mentions]
  | .plus hkind hf => by
    rw [freeNames_sign (by rw [hkind]; decide), hf.freeNames_eq, mentions]
  | .power hpower => hpower.freeNames_eq

theorem IsPower.freeNames_eq {ts rest : List Token} {f : Formula α} (h : IsPower ts f rest) :
    freeNames ts = f.mentions ++ freeNames rest :=
  match h with
  | .atom hatom => hatom.freeNames_eq
  | .raised hbase hkind hexponent =>
    freeNames_binary hbase.freeNames_eq (by rw [hkind]; decide) hexponent.freeNames_eq

theorem IsAtom.freeNames_eq {ts rest : List Token} {f : Formula α} (h : IsAtom ts f rest) :
    freeNames ts = f.mentions ++ freeNames rest :=
  match h with
  | .number hkind _ => by
    rw [freeNames_sign (by rw [hkind]; decide), mentions, List.nil_append]
  | .constant _ _ hvalue => by
    rw [freeNames_builtin (isBuiltinName_of_constant hvalue), mentions, List.nil_append]
  | .name hkind _ hfree => by
    rw [freeNames_name hkind hfree, mentions, List.singleton_append]
  | .call _ hfunction hopen hargs _ => by
    rw [freeNames_builtin (isBuiltinName_of_function hfunction),
      freeNames_sign (by rw [hopen]; decide), hargs.freeNames_eq, mentions]
  | .group hopen hsum hclose => by
    rw [freeNames_sign (by rw [hopen]; decide), hsum.freeNames_eq,
      freeNames_sign (by rw [hclose]; decide)]

theorem AreArguments.freeNames_eq {ts rest : List Token} {args : List (Formula α)}
    (h : AreArguments ts args rest) : freeNames ts = mentionsOf args ++ freeNames rest :=
  match h with
  | .none hclose => by
    rw [freeNames_sign (by rw [hclose]; decide), mentionsOf, List.nil_append]
  | .some hparts => hparts.freeNames_eq

theorem AreParts.freeNames_eq {ts rest : List Token} {args : List (Formula α)}
    (h : AreParts ts args rest) : freeNames ts = mentionsOf args ++ freeNames rest :=
  match h with
  | .last hsum hclose => by
    rw [hsum.freeNames_eq, freeNames_sign (by rw [hclose]; decide), mentionsOf, mentionsOf,
      List.append_nil]
  | .more hsum hcomma hparts => by
    rw [hsum.freeNames_eq, freeNames_sign (by rw [hcomma]; decide), hparts.freeNames_eq, mentionsOf,
      List.append_assoc]

end

/-! ## First mentions -/

omit [Scalar α] in
theorem firsts_eq_eraseDups (seen ns : List String) :
    firsts seen ns = (ns.filter fun n => decide (n ∉ seen)).eraseDups := by
  induction ns generalizing seen with
  | nil => rfl
  | cons n ns ih =>
    rw [firsts]
    by_cases hseen : n ∈ seen
    · rw [if_pos hseen, ih, List.filter_cons_of_neg (by simpa using hseen)]
    · -- those seen behind `n` are the ones seen before it and `n`
      have hfilter : (ns.filter fun m => decide (m ∉ n :: seen)) =
          (ns.filter fun m => decide (m ∉ seen)).filter fun m => !m == n := by
        rw [List.filter_filter]
        refine List.filter_congr fun m _ => ?_
        by_cases heq : m = n <;> simp [heq]
      rw [if_neg hseen, ih, hfilter, List.filter_cons_of_pos (by simpa using hseen),
        List.eraseDups_cons]

/-- The names of a parsed formula are the free names of its source, each where it
    stands first. -/
theorem names_of_parse {source : String} {ts : List Token} {f : Formula α}
    (hlex : Token.lex source = .ok ts) (hparse : parse source = .ok f) :
    f.names = (freeNames ts).eraseDups := by
  have hread := (reads_iff_isSum.1 ((parse_eq_ok hlex).1 hparse)).freeNames_eq
  have hnone : freeNames [] = [] := rfl
  rw [hnone, List.append_nil] at hread
  rw [names, firsts_eq_eraseDups, hread]
  simp

end FuzzyInference.Formula
