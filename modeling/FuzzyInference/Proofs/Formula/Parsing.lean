import FuzzyInference.Proofs.Formula.Completeness
import FuzzyInference.Proofs.Formula.NumberToken
import FuzzyInference.Proofs.Formula.Soundness
import FuzzyInference.Scalar.Binary64

/-!
# Parsing is the grammar

The parser climbs precedences with a threshold, the grammar is stratified and
knows of none. They agree: the parser accepts the token lists that the grammar
derives as a whole, and builds the tree of the derivation.

A text that is spelled like a name is one token, and it is a formula by itself
unless the name is one of a function or a constant.

Results:

* `parse_iff_grammar`: what a source parses to, and that nothing else is a parse.
* `parse_signed_power`: a case of it on 64-bit numbers.
* `lex_name` and `parse_name`: the tokens and the formula of a name.
-/

namespace FuzzyInference.Formula

variable {α : Type} [Scalar α]

/-- A source parses if a reading takes all of its tokens. -/
theorem parse_eq_ok {source : String} {ts : List Token} (h : Token.lex source = .ok ts)
    {f : Formula α} : parse source = .ok f ↔ Reads (operations 0 ts) f [] := by
  unfold parse
  simp only [h, bind, Except.bind]
  rcases hr : operations 0 ts with e | ⟨g, mid, hmid⟩
  · simp
  · cases mid with
    | nil => simp [pure, Except.pure]
    | cons t more => simp [throw, throwThe, MonadExceptOf.throw]

theorem reads_iff_isSum {ts : List Token} {f : Formula α} :
    Reads (operations 0 ts) f [] ↔ IsSum ts f [] := by
  constructor
  · intro h
    exact ((soundAt ts).operations 0 f [] h).1
  · intro h
    have hweak : ∀ n, WeakerThan n [] := fun n t ht => by simp at ht
    exact h.reads (hweak 2) (by simp [NotRaised]) ((climb_reads_stop (hweak 0)).2 ⟨rfl, rfl⟩)

/-- A source of tokens parses to a formula exactly if the grammar derives the
    formula from all of the tokens. There is at most one such formula, and without
    one the source is refused. A number token always has the value that the grammar
    asks of it. -/
theorem parse_iff_grammar {source : String} {ts : List Token} (h : Token.lex source = .ok ts) :
    (∀ f : Formula α, parse source = .ok f ↔ IsSum ts f []) ∧
      (∀ f g : Formula α, IsSum ts f [] → IsSum ts g [] → f = g) ∧
      ((∀ f : Formula α, ¬ IsSum ts f []) →
        ∃ fault : CompileFault, parse (α := α) source = .error fault) ∧
      ∀ t ∈ ts, t.kind = .number → ∃ v : α, Scalar.read? t.text = some v := by
  have hparse : ∀ f : Formula α, parse source = .ok f ↔ IsSum ts f [] :=
    fun f => (parse_eq_ok h).trans reads_iff_isSum
  refine ⟨hparse, ?_, ?_, Token.number_of_lex h⟩
  · intro f g hf hg
    exact (Reads.unique (reads_iff_isSum.2 hf) (reads_iff_isSum.2 hg)).1
  · intro hnone
    cases hr : parse (α := α) source with
    | error fault => exact ⟨fault, rfl⟩
    | ok f => exact absurd ((hparse f).1 hr) (hnone f)

/-- A sign in front of a power applies to the whole power. -/
theorem parse_signed_power :
    ∃ v : Float, parse "-2**2" = .ok (.sign .minus (.binary .power (.number v) (.number v))) := by
  have hlex : Token.lex "-2**2" =
      .ok [⟨.minus, "-", 0⟩, ⟨.number, "2", 1⟩, ⟨.power, "**", 2⟩, ⟨.number, "2", 4⟩] := by cbv
  obtain ⟨hparse, -, -, hnumber⟩ := parse_iff_grammar (α := Float) hlex
  obtain ⟨v, hv⟩ := hnumber ⟨.number, "2", 1⟩ (by simp) rfl
  refine ⟨v, (hparse _).2 ?_⟩
  have hexponent : IsFactor [⟨.number, "2", 4⟩] (.number v) [] := .power (.atom (.number rfl hv))
  exact .term (.factor (.minus rfl (.power (.raised (.number rfl hv) rfl hexponent))))

end FuzzyInference.Formula

namespace FuzzyInference

namespace Token

/-- Whether a text is one name. -/
def isName (s : String) : Bool :=
  match s.toList with
  | [] => false
  | c :: cs => isNameStart c && cs.all isNameRest

/-- A class of characters without gaps. -/
theorem not_isGap_of_class {p : Char → Bool}
    (hp : [' ', '\t', '\r', '\n', '\x0c'].any p = false) {c : Char} (h : p c = true) :
    isGap c = false := by
  rw [← Bool.not_eq_true]
  intro hgap
  have hmem : c ∈ [' ', '\t', '\r', '\n', '\x0c'] := by
    simpa [isGap, or_assoc] using hgap
  exact absurd h (List.any_eq_false.1 hp c hmem)

theorem not_isGap_of_isNameStart {c : Char} (h : isNameStart c = true) : isGap c = false :=
  not_isGap_of_class (by decide) h

theorem not_isDigit_of_isNameStart {c : Char} (h : isNameStart c = true) : c.isDigit = false := by
  rw [← Bool.not_eq_true]
  intro hdigit
  simp only [isNameStart, Bool.or_eq_true, beq_iff_eq] at h
  rcases h with rfl | halpha
  · revert hdigit
    decide
  · simp only [Char.isAlpha, Char.isUpper, Char.isLower, Char.isDigit, Bool.or_eq_true,
      Bool.and_eq_true, decide_eq_true_eq, UInt32.le_iff_toNat_le, ge_iff_le] at halpha hdigit
    -- the digits end before the letters start
    have hnine : '9'.val.toNat = 57 := rfl
    have hupper : 'A'.val.toNat = 65 := rfl
    have hlower : 'a'.val.toNat = 97 := rfl
    omega

theorem scan_name {c : Char} (h : isNameStart c = true) (cs : List Char) :
    scan c cs = some (.name, (cs.takeWhile isNameRest).length) := by
  unfold scan
  rw [not_isDigit_of_isNameStart h, if_neg Bool.false_ne_true, if_pos h]

theorem lex_name {s : String} (h : isName s = true) : lex s = .ok [⟨.name, s, 0⟩] := by
  unfold isName at h
  split at h
  · cases h
  · rename_i c cs hs
    rw [Bool.and_eq_true, List.all_eq_true] at h
    obtain ⟨hstart, hrest⟩ := h
    have hall : cs.takeWhile isNameRest = cs := List.takeWhile_eq_self_iff.2 hrest
    have htext : String.ofList (c :: cs) = s := by rw [← hs, String.ofList_toList]
    rw [lex, hs, lexFrom, not_isGap_of_isNameStart hstart, if_neg Bool.false_ne_true,
      scan_name hstart, hall]
    simp only [List.take_length, List.drop_length, lexFrom, htext]
    rfl

end Token

namespace Formula

variable {α : Type} [Scalar α]

theorem isSum_name {name : String} {start : Nat} {rest : List Token} (hrest : NotOpened rest)
    (hname : isBuiltinName name = false) :
    IsSum (⟨.name, name, start⟩ :: rest) (.name name : Formula α) rest := by
  have hatom : IsAtom (⟨.name, name, start⟩ :: rest) (.name name : Formula α) rest :=
    .name rfl hrest hname
  exact .term (.factor (.power (.atom hatom)))

theorem parse_name {name : String} (h : Token.isName name = true)
    (hname : isBuiltinName name = false) : parse name = .ok (.name name : Formula α) := by
  rw [parse_eq_ok (Token.lex_name h), reads_iff_isSum]
  exact isSum_name (by simp [NotOpened]) hname

end Formula

end FuzzyInference
