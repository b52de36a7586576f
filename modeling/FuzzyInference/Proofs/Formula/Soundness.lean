import FuzzyInference.Proofs.Formula.Reading

/-!
# The parser reads formulas only

What a step of the parser reads is in the grammar, with the tree that the
grammar gives it. All steps are shown at once, by induction on the number of
tokens: a step on some tokens needs the other steps on fewer tokens, and on the
same ones only the steps below it.

Results:

* `climb_sound`: the loop of precedence climbing keeps a left operand of a level
  that the operations behind it can join.
* `soundAt`: every step reads what the grammar calls it.
-/

namespace FuzzyInference.Formula

variable {α : Type} [Scalar α]

variable (α) in
/-- What the steps read from some tokens is what the grammar calls it, and an
    operation that a reading left was too weak for it. -/
structure SoundAt (ts : List Token) : Prop where
  operations : ∀ (least : Nat) (f : Formula α) (rest : List Token),
    Reads (operations least ts) f rest → IsLevel least ts f rest ∧ WeakerThan least rest
  factor : ∀ (f : Formula α) (rest : List Token), Reads (factor ts) f rest → IsFactor ts f rest
  arguments : ∀ (args : List (Formula α)) (rest : List Token),
    Reads (arguments ts) args rest → AreArguments ts args rest
  moreArguments : ∀ (args : List (Formula α)) (rest : List Token),
    Reads (moreArguments ts) args rest → AreParts ts args rest

variable (α) in
/-- The steps are sound on fewer than a number of tokens. -/
def SoundBelow (n : Nat) : Prop := ∀ ts : List Token, ts.length < n → SoundAt α ts

theorem ofName_eq_ok {n : String} {f : Formula α} (h : ofName n = .ok f) :
    (∃ v, constant? n = some v ∧ f = .number v) ∨ isBuiltinName n = false ∧ f = .name n := by
  unfold ofName at h
  split at h
  · rename_i v hv
    cases h
    exact .inl ⟨v, hv, rfl⟩
  · rename_i hconst
    split at h
    · cases h
    · rename_i hf
      cases h
      refine .inr ⟨?_, rfl⟩
      have hn : n ∉ constantNames := by
        intro hmem
        simp only [constantNames, List.mem_cons, List.not_mem_nil, or_false] at hmem
        rcases hmem with rfl | rfl | rfl <;> simp [constant?] at hconst
      simp only [Bool.not_eq_true] at hf
      simp [isBuiltinName, hf, hn]

/-! ## The steps below operations -/

theorem atom_sound {ts rest : List Token} {f : Formula α} (ih : SoundBelow α ts.length)
    (h : Reads (atom ts) f rest) : IsAtom ts f rest := by
  obtain ⟨t, more, rfl, hk | hk | hk⟩ := kind_of_atom h
  · obtain ⟨v, hv, rfl, rfl⟩ := (atom_reads_number hk).1 h
    exact .number hk hv
  · by_cases ho : NotOpened more
    · obtain ⟨hf, rfl⟩ := (atom_reads_name hk ho).1 h
      rcases ofName_eq_ok hf with ⟨v, hv, rfl⟩ | ⟨hb, rfl⟩
      · exact .constant hk ho hv
      · exact .name hk ho hb
    · obtain ⟨o, us, rfl, hopen⟩ : ∃ o us, more = o :: us ∧ o.kind = .opening := by
        cases more with
        | nil => simp [NotOpened] at ho
        | cons o us => exact ⟨o, us, rfl, by simpa [NotOpened] using ho⟩
      obtain ⟨g, args, hg, hargs, hn, rfl⟩ := (atom_reads_call hk hopen).1 h
      have hus : us.length < (t :: o :: us).length := by simp only [List.length_cons]; omega
      exact .call hk hg hopen ((ih us hus).arguments args rest hargs) hn
  · obtain ⟨c, hc, hclose⟩ := (atom_reads_group hk).1 h
    have hmore : more.length < (t :: more).length := by simp
    have hsum := ((ih more hmore).operations 0 f (c :: rest) hc).1
    exact .group hk hsum hclose

theorem power_sound {ts rest : List Token} {f : Formula α} (ih : SoundBelow α ts.length)
    (h : Reads (power ts) f rest) : IsPower ts f rest := by
  obtain ⟨base, mid, hbase⟩ := atom_of_power h
  have hatom := atom_sound ih hbase
  by_cases hr : NotRaised mid
  · obtain ⟨rfl, rfl⟩ := (power_reads_atom hbase hr).1 h
    exact .atom hatom
  · obtain ⟨t, more, rfl, ht⟩ : ∃ t more, mid = t :: more ∧ t.kind = .power := by
      cases mid with
      | nil => simp [NotRaised] at hr
      | cons t more => exact ⟨t, more, rfl, by simpa [NotRaised] using hr⟩
    obtain ⟨x, hx, rfl⟩ := (power_reads_raised hbase ht).1 h
    have hmore : more.length < ts.length := by
      have := hbase.rest
      simp only [List.length_cons] at this
      omega
    exact .raised hatom ht ((ih more hmore).factor x rest hx)

theorem factor_sound {ts rest : List Token} {f : Formula α} (ih : SoundBelow α ts.length)
    (h : Reads (factor ts) f rest) : IsFactor ts f rest := by
  by_cases hs : ∀ t ∈ ts.head?, signOf? t.kind = none
  · exact .power (power_sound ih ((factor_reads_power hs).1 h))
  · obtain ⟨t, more, s, rfl, hsign⟩ : ∃ t more s, ts = t :: more ∧ signOf? t.kind = some s := by
      cases ts with
      | nil => simp at hs
      | cons t more =>
        simp only [List.head?_cons, Option.mem_def, Option.some.injEq, forall_eq'] at hs
        obtain ⟨s, hsome⟩ := Option.ne_none_iff_exists'.1 hs
        exact ⟨t, more, s, rfl, hsome⟩
    obtain ⟨g, hg, rfl⟩ := (factor_reads_sign hsign).1 h
    have hfactor := (ih more (by simp)).factor g rest hg
    cases hk : t.kind <;> simp only [hk, signOf?, reduceCtorEq, Option.some.injEq] at hsign <;>
      subst hsign
    · exact .plus hk hfactor
    · exact .minus hk hfactor

/-! ## Precedence climbing -/

/-- The loop starts behind a left operand of some level `m`, and an operation that
    stands there is not stronger than `m`, so the operand can be joined by it.
    Reading the right operand one level higher leaves operations of the joining
    one's strength at most, which keeps this true. -/
theorem climb_sound {n : Nat} (ih : SoundBelow α n) {least m : Nat} {start mid rest : List Token}
    {left f : Formula α} (hn : mid.length ≤ n) (hm : least ≤ m) (hleft : IsLevel m start left mid)
    (hweak : WeakerThan (m + 1) mid) (h : Reads (climb least left mid) f rest) :
    IsLevel least start f rest ∧ WeakerThan least rest := by
  by_cases hstop : WeakerThan least mid
  · obtain ⟨rfl, rfl⟩ := (climb_reads_stop hstop).1 h
    exact ⟨hleft.weaken hm, hstop⟩
  · obtain ⟨t, more, op, s, hmid, hop, hs⟩ : ∃ t more op s, mid = t :: more ∧
        operator? t.kind = some (op, s) ∧ least ≤ s := by
      cases mid with
      | nil => simp [WeakerThan] at hstop
      | cons t more =>
        simp only [WeakerThan, List.head?_cons, Option.mem_def, Option.some.injEq, forall_eq',
          Classical.not_forall, Nat.not_lt] at hstop
        obtain ⟨op, s, hop, hs⟩ := hstop
        exact ⟨t, more, op, s, rfl, hop, hs⟩
    have hlen : mid.length = more.length + 1 := by simp [hmid]
    subst hmid
    obtain ⟨right, last, hright, hloop⟩ := (climb_reads_operation hop hs).1 h
    obtain ⟨hlevel, hlast⟩ := (ih more (by omega)).operations (s + 1) right last hright
    have hsm : s ≤ m := Nat.lt_succ_iff.1 (hweak t (by simp) op s hop)
    have hshort := hright.rest
    exact climb_sound ih (by omega) hs (.join hop (hleft.weaken hsm) hlevel) hlast hloop
termination_by mid.length

theorem operations_sound {least : Nat} {ts rest : List Token} {f : Formula α}
    (ih : SoundBelow α ts.length) (h : Reads (operations least ts) f rest) :
    IsLevel least ts f rest ∧ WeakerThan least rest := by
  obtain ⟨left, mid, hleft, hloop⟩ := operations_reads.1 h
  have hfactor : IsLevel (least + 3) ts left mid := by
    have h1 : ¬ least + 3 ≤ 1 := by omega
    have h2 : ¬ least + 3 = 2 := by omega
    simpa [IsLevel, h1, h2] using factor_sound ih hleft
  exact climb_sound ih (Nat.le_of_lt hleft.rest) (by omega) hfactor
    ((weakerThan_three mid).mono (by omega)) hloop

theorem moreArguments_sound {ts rest : List Token} {args : List (Formula α)}
    (ih : SoundBelow α ts.length) (h : Reads (moreArguments ts) args rest) :
    AreParts ts args rest := by
  obtain ⟨arg, t, more, hsum, hend | ⟨ht, others, hothers, rfl⟩⟩ := moreArguments_reads.1 h
  · obtain ⟨ht, rfl, rfl⟩ := hend
    exact .last (operations_sound ih hsum).1 ht
  · have hmore : more.length < ts.length := by
      have := hsum.rest
      simp only [List.length_cons] at this
      omega
    exact .more (operations_sound ih hsum).1 ht ((ih more hmore).moreArguments others rest hothers)

theorem arguments_sound {ts rest : List Token} {args : List (Formula α)}
    (ih : SoundBelow α ts.length) (h : Reads (arguments ts) args rest) :
    AreArguments ts args rest := by
  by_cases hts : ∀ t ∈ ts.head?, t.kind ≠ .closing
  · exact .some (moreArguments_sound ih ((arguments_reads_some hts).1 h))
  · obtain ⟨c, more, rfl, hc⟩ : ∃ c more, ts = c :: more ∧ c.kind = .closing := by
      cases ts with
      | nil => simp at hts
      | cons c more => exact ⟨c, more, rfl, by simpa using hts⟩
    obtain ⟨rfl, rfl⟩ := (arguments_reads_none hc).1 h
    exact .none hc

theorem soundAt (ts : List Token) : SoundAt α ts := by
  induction hlen : ts.length using Nat.strongRecOn generalizing ts with
  | ind n ih =>
    have below : SoundBelow α ts.length := fun us hus => ih us.length (hlen ▸ hus) us rfl
    exact {
      operations := fun _ _ _ h => operations_sound below h
      factor := fun _ _ h => factor_sound below h
      arguments := fun _ _ h => arguments_sound below h
      moreArguments := fun _ _ h => moreArguments_sound below h }

end FuzzyInference.Formula
