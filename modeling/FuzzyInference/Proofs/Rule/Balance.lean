import FuzzyInference.Proofs.Rule.Level

/-!
# What the passes accept

Items are counted against the words between them: each item that is not reserved
counts one, each `IS` and each connective takes one away. A pass keeps the count
unless it makes a query of a reserved word, which raises it. A level that takes
turns counts one at least, and more than one if another reserved word stands
between two items. So a level that ends as a single item was well formed.

Results:

* `balance_foldQueries` and `balance_eq_one`: the count of a level that folds.
* `checkTurns_balance`: the count of items that take turns.
* `foldLevel_iff`: a level folds exactly if it is well formed and its phrases are
  conditions.
-/

namespace FuzzyInference.Item

variable {α : Type}

/-- What an item counts. -/
def worth (x : Item α) : Int :=
  if x.isReserved = false then 1
  else if x.isWord "is" = true ∨ x.connective?.isSome = true then -1
  else 0

/-- What items count together. -/
def balance (xs : List (Item α)) : Int := (xs.map worth).sum

@[simp] theorem balance_nil : balance ([] : List (Item α)) = 0 := rfl

@[simp] theorem balance_cons (x : Item α) (xs : List (Item α)) :
    balance (x :: xs) = worth x + balance xs := by
  simp [balance]

@[simp] theorem balance_append (xs ys : List (Item α)) :
    balance (xs ++ ys) = balance xs + balance ys := by
  simp [balance]

@[simp] theorem balance_reverse (xs : List (Item α)) : balance xs.reverse = balance xs := by
  induction xs with
  | nil => rfl
  | cons x xs ih =>
    rw [List.reverse_cons, balance_append, balance_cons, balance_cons, balance_nil, ih]
    omega

theorem worth_le_one (x : Item α) : worth x ≤ 1 := by
  unfold worth
  split
  · omega
  · split <;> omega

@[simp] theorem worth_done (e : Expr α) : worth (.done e) = 1 := rfl

theorem worth_of_not_isReserved {x : Item α} (hx : x.isReserved = false) : worth x = 1 := by
  simp [worth, hx]

theorem worth_of_is {x : Item α} (hx : x.isWord "is" = true) : worth x = -1 := by
  have hr : x.isReserved = true := isReserved_of_isWord hx (by simp [reserved])
  simp [worth, hr, hx]

theorem worth_of_connective? {x : Item α} {op : LogicOp} (hx : x.connective? = some op) :
    worth x = -1 := by
  simp [worth, isReserved_of_connective? hx, hx]

theorem worth_of_not {x : Item α} (hx : x.isWord "not" = true) : worth x = 0 := by
  have hr : x.isReserved = true := isReserved_of_isWord hx (by simp [reserved])
  have his : x.isWord "is" = false := isWord_unique hx (by decide)
  have hop : x.connective? = none := by
    cases hop : x.connective? with
    | none => rfl
    | some op =>
      rw [isWord_of_connective?_of_ne hop (.inr rfl)] at hx
      cases hx
  simp [worth, hr, his, hop]

theorem worth_eq_neg_one {x : Item α} (h : worth x = -1) :
    x.isWord "is" = true ∨ ∃ op, x.connective? = some op := by
  unfold worth at h
  split at h
  · omega
  · split at h
    · rename_i hx
      rcases hx with his | hop
      · exact .inl his
      · exact .inr (Option.isSome_iff_exists.1 hop)
    · omega

/-! ## The count through the passes -/

theorem balance_putBack (x : Item α) (passed : List (Item α)) :
    balance (putBack x passed) = worth x + balance passed := by
  unfold putBack
  split
  · simp only [balance_cons]
    omega
  · simp only [balance_append, balance_cons, balance_nil]
    omega

theorem balance_hoistNots (passed items : List (Item α)) :
    balance (hoistNots passed items) = balance passed + balance items := by
  induction items generalizing passed with
  | nil => simp [hoistNots]
  | cons x rest ih =>
    unfold hoistNots
    split
    · rw [ih, balance_putBack, balance_cons]
      omega
    · rw [ih, balance_cons, balance_cons]
      omega

variable [Scalar α]

/-- An `IS` that folds stands between two words. -/
theorem foldQueries_is_inv {x : Item α} (hx : x.isWord "is" = true)
    {passed rest out : List (Item α)} {queries : List (String × String)}
    (h : foldQueries passed (x :: rest) = .ok (out, queries)) :
    ∃ input membership passed' rest' queries', passed = .word input :: passed' ∧
      rest = .word membership :: rest' ∧
      foldQueries (.done (.query input membership) :: passed') rest' = .ok (out, queries') := by
  rw [foldQueries.eq_def] at h
  simp only [hx, if_true] at h
  split at h
  · rename_i input passed' membership rest'
    cases hr : foldQueries (.done (.query input membership) :: passed') rest' with
    | error fault => simp [hr, bind, Except.bind] at h
    | ok more =>
      obtain ⟨items, queries'⟩ := more
      simp only [hr, bind, Except.bind, pure, Except.pure, Except.ok.injEq, Prod.mk.injEq] at h
      exact ⟨input, membership, passed', rest', queries', rfl, rfl, by rw [hr, h.1]⟩
  · cases h

theorem balance_foldQueries {passed items out : List (Item α)} {queries : List (String × String)}
    (h : foldQueries passed items = .ok (out, queries)) :
    balance passed + balance items ≤ balance out := by
  induction passed, items using foldQueries.induct generalizing out queries with
  | case1 passed =>
    simp only [foldQueries, Except.ok.injEq, Prod.mk.injEq] at h
    simp [← h.1]
  | case2 x hx input passed membership rest ih =>
    obtain ⟨_, _, _, _, queries', hpassed, hrest, hrun⟩ := foldQueries_is_inv hx h
    cases hpassed
    cases hrest
    have hbalance := ih hrun
    have hinput := worth_le_one (.word input : Item α)
    have hmembership := worth_le_one (.word membership : Item α)
    simp only [balance_cons, worth_done, worth_of_is hx] at hbalance ⊢
    omega
  | case3 passed x hx rest hbad =>
    obtain ⟨input, membership, passed', rest', _, hpassed, hrest, _⟩ := foldQueries_is_inv hx h
    exact absurd hrest (hbad input passed' membership rest' hpassed)
  | case4 passed x rest hx ih =>
    rw [foldQueries_cons (by simpa using hx)] at h
    have hbalance := ih h
    simp only [balance_cons] at hbalance ⊢
    omega

theorem worth_of_toExpr {x : Item α} {e : Expr α} (h : x.toExpr = .ok e) : worth x = 1 :=
  worth_of_not_isReserved (not_isReserved_of_toExpr h)

theorem balance_foldNots {items out : List (Item α)} (h : foldNots items = .ok out) :
    balance out = balance items := by
  induction items using foldNots.induct generalizing out with
  | case1 => cases h; rfl
  | case2 x hx => simp [foldNots, hx] at h
  | case3 x hx operand rest ih =>
    rw [foldNots.eq_def] at h
    simp only [hx, if_true] at h
    cases he : operand.toExpr with
    | error fault => simp [he, bind, Except.bind] at h
    | ok e =>
      cases hr : foldNots rest with
      | error fault => simp [he, hr, bind, Except.bind] at h
      | ok rest' =>
        simp only [he, hr, bind, Except.bind, pure, Except.pure, Except.ok.injEq] at h
        simp [← h, ih hr, worth_of_not hx, worth_of_toExpr he]
  | case4 x rest hx ih =>
    rw [foldNots_cons (by simpa using hx)] at h
    cases hr : foldNots rest with
    | error fault => simp [hr, Except.map] at h
    | ok rest' =>
      simp only [hr, Except.map, Except.ok.injEq] at h
      simp [← h, ih hr]

theorem balance_foldLogic {passed items out : List (Item α)}
    (h : foldLogic passed items = .ok out) : balance out = balance passed + balance items := by
  induction passed, items using foldLogic.induct generalizing out with
  | case1 passed =>
    cases h
    simp
  | case2 passed x rest hx ih =>
    rw [foldLogic] at h
    simp only [hx] at h
    rw [ih h, balance_cons, balance_cons]
    omega
  | case3 x op hx left passed right rest ih =>
    rw [foldLogic] at h
    simp only [hx] at h
    cases hr : right.toExpr with
    | error fault => simp [hr, bind, Except.bind] at h
    | ok r =>
      cases hl : left.toExpr with
      | error fault => simp [hr, hl, bind, Except.bind] at h
      | ok l =>
        simp only [hr, hl, bind, Except.bind] at h
        rw [ih r l h]
        simp only [balance_cons, worth_done, worth_of_connective? hx, worth_of_toExpr hr,
          worth_of_toExpr hl]
        omega
  | case4 passed x rest op hx hbad =>
    rw [foldLogic.eq_def] at h
    simp only [hx] at h
    cases h

theorem balance_single {items : List (Item α)} {e : Expr α} (h : single items = .ok e) :
    balance items = 1 := by
  match items with
  | [] => cases h
  | [x] => simpa using worth_of_toExpr h
  | x :: y :: rest => cases h

/-- Behind the queries, what is folded into one condition counts one. -/
theorem balance_eq_one {queried negated rest : List (Item α)} {e : Expr α}
    (hnots : foldNots queried = .ok negated) (hlogic : foldLogic [] negated = .ok rest)
    (hsingle : single rest = .ok e) : balance queried = 1 := by
  have h₁ := balance_foldNots hnots
  have h₂ := balance_foldLogic hlogic
  have h₃ := balance_single hsingle
  simp only [balance_nil] at h₂
  omega

/-! ## Turns -/

/-- Items that are not reserved, with `IS`, `IS NOT` or a connective between
    them. -/
inductive Turns : List (Item α) → Prop
  | last {x} : x.isReserved = false → Turns [x]
  | link {x c rest} : x.isReserved = false → worth c = -1 → Turns rest → Turns (x :: c :: rest)
  | isNot {x is not rest} : x.isReserved = false → is.isWord "is" = true → not.isWord "not" = true →
      Turns rest → Turns (x :: is :: not :: rest)

omit [Scalar α] in
theorem Turns.balance {items : List (Item α)} (h : Turns items) : balance items = 1 := by
  induction h with
  | last hx => simp [worth_of_not_isReserved hx]
  | link hx hc _ ih =>
    simp [worth_of_not_isReserved hx, hc, ih]
  | isNot hx his hnot _ ih =>
    simp [worth_of_not_isReserved hx, worth_of_is his, worth_of_not hnot, ih]

theorem checkTurns_inv {previous : Option (Item α)} {items : List (Item α)}
    (hprevious : ∀ p ∈ previous, p.isWord "is" = false)
    (h : checkTurns previous true items = .ok ()) :
    ∃ x tail, items = x :: tail ∧ x.isReserved = false ∧
      (tail = [] ∨ ∃ c rest, tail = c :: rest ∧ c.isReserved = true ∧
        checkTurns (some c) true rest = .ok ()) := by
  cases items with
  | nil => cases previous <;> cases h
  | cons x tail =>
    have hx : x.isReserved = false := by
      cases hx : x.isReserved with
      | false => rfl
      | true =>
        rw [checkTurns.eq_def] at h
        cases previous with
        | none => simp [hx] at h
        | some p => simp [hx, hprevious p rfl] at h
    refine ⟨x, tail, rfl, hx, ?_⟩
    rw [checkTurns_item hx] at h
    cases tail with
    | nil => exact .inl rfl
    | cons c rest =>
      have hc : c.isReserved = true := by
        cases hc : c.isReserved with
        | true => rfl
        | false =>
          have his : x.isWord "is" = false := isWord_of_not_isReserved hx (by simp [reserved])
          rw [checkTurns.eq_def] at h
          simp [hc, his] at h
      rw [checkTurns_separator hc] at h
      exact .inr ⟨c, rest, rfl, hc, h⟩

/-- Behind `IS` the turns start again, or `NOT` comes first. -/
theorem checkTurns_is_inv {is : Item α} (his : is.isWord "is" = true) {items : List (Item α)}
    (h : checkTurns (some is) true items = .ok ()) :
    checkTurns none true items = .ok () ∨ ∃ not rest, items = not :: rest ∧
      not.isWord "not" = true ∧ checkTurns (some not) true rest = .ok () := by
  match items with
  | [] => cases h
  | x :: rest =>
    cases hx : x.isReserved with
    | false =>
      rw [checkTurns_item hx] at h ⊢
      exact .inl h
    | true =>
      rw [checkTurns.eq_def] at h
      simp only [hx, if_true, his, Bool.true_and] at h
      by_cases hnot : x.isWord "not" = true
      · rw [if_pos hnot] at h
        exact .inr ⟨x, rest, rfl, hnot, h⟩
      · rw [if_neg hnot] at h
        cases h

/-- Items that take turns count one at least, and only well-formed turns count
    one. -/
theorem checkTurns_balance {previous : Option (Item α)} {items : List (Item α)}
    (hprevious : ∀ p ∈ previous, p.isWord "is" = false)
    (h : checkTurns previous true items = .ok ()) :
    1 ≤ Item.balance items ∧ (Item.balance items = 1 → Turns items) := by
  -- A reserved word that takes nothing away leaves the count of the rest, and the item in front
  -- of it lifts that to two; so a count of one rules it out.
  obtain ⟨x, tail, rfl, hx, rfl | ⟨c, rest, rfl, hc, hrest⟩⟩ := checkTurns_inv hprevious h
  · exact ⟨by simp [worth_of_not_isReserved hx], fun _ => .last hx⟩
  · have hitem := worth_of_not_isReserved hx
    by_cases his : c.isWord "is" = true
    · have hc' := worth_of_is his
      rcases checkTurns_is_inv his hrest with hrest | ⟨not, rest, rfl, hnot, hrest⟩
      · obtain ⟨hle, hturns⟩ := checkTurns_balance (by simp) hrest
        rw [balance_cons, balance_cons, hitem, hc']
        exact ⟨by omega, fun heq => .link hx hc' (hturns (by omega))⟩
      · have hnotis : not.isWord "is" = false := isWord_unique hnot (by decide)
        obtain ⟨hle, hturns⟩ := checkTurns_balance (by simpa using hnotis) hrest
        rw [balance_cons, balance_cons, balance_cons, hitem, hc', worth_of_not hnot]
        exact ⟨by omega, fun heq => .isNot hx his hnot (hturns (by omega))⟩
    · obtain ⟨hle, hturns⟩ := checkTurns_balance (by simpa using his) hrest
      have hc' : worth c = -1 ∨ worth c = 0 := by
        simp only [worth, hc, Bool.true_eq_false, if_false]
        split
        · exact .inl rfl
        · exact .inr rfl
      rw [balance_cons, balance_cons, hitem]
      exact ⟨by omega, fun heq => .link hx (by omega) (hturns (by omega))⟩
termination_by items.length

/-! ## The shape of a level -/

omit [Scalar α] in
theorem isWord_not_of_worth {c : Item α} (hc : worth c = -1) : c.isWord "not" = false := by
  rcases worth_eq_neg_one hc with his | ⟨op, hop⟩
  · exact isWord_unique his (by decide)
  · exact isWord_of_connective?_of_ne hop (.inr rfl)

omit [Scalar α] in
/-- In well-formed turns, `NOT` moves no further than to the start of them. -/
theorem Turns.hoistNots {items : List (Item α)} (h : Turns items) (passed : List (Item α)) :
    hoistNots passed items = passed.reverse ++ Item.hoistNots [] items := by
  induction h generalizing passed with
  | last hx =>
    have hx' := isWord_of_not_isReserved hx (k := "not") (by simp [reserved])
    simp [Item.hoistNots, hx']
  | link hx hc _ ih =>
    have hx' := isWord_of_not_isReserved hx (k := "not") (by simp [reserved])
    rw [hoistNots_cons hx', hoistNots_cons hx', hoistNots_cons (isWord_not_of_worth hc),
      hoistNots_cons (isWord_not_of_worth hc), ih, ih [_, _]]
    simp
  | isNot hx his hnot _ ih =>
    have hx' := isWord_of_not_isReserved hx (k := "not") (by simp [reserved])
    have his' := isWord_unique (l := "not") his (by decide)
    rw [hoistNots_cons hx', hoistNots_cons hx', hoistNots_cons his', hoistNots_cons his',
      hoistNots_not hnot, hoistNots_not hnot, ih, ih [_, _, _]]
    simp

omit [Scalar α] in
theorem hoistNots_last {x : Item α} (hx : x.isReserved = false) : hoistNots [] [x] = [x] := by
  have hx' := isWord_of_not_isReserved hx (k := "not") (by simp [reserved])
  simp [hoistNots, hx']

omit [Scalar α] in
theorem hoistNots_link {x c : Item α} {rest : List (Item α)} (hx : x.isReserved = false)
    (hc : worth c = -1) (hrest : Turns rest) :
    hoistNots [] (x :: c :: rest) = x :: c :: hoistNots [] rest := by
  have hx' := isWord_of_not_isReserved hx (k := "not") (by simp [reserved])
  rw [hoistNots_cons hx', hoistNots_cons (isWord_not_of_worth hc), hrest.hoistNots]
  rfl

omit [Scalar α] in
theorem hoistNots_isNot {x is not : Item α} {rest : List (Item α)} (hx : x.isReserved = false)
    (his : is.isWord "is" = true) (hnot : not.isWord "not" = true) (hrest : Turns rest) :
    hoistNots [] (x :: is :: not :: rest) = not :: x :: is :: hoistNots [] rest := by
  have hx' := isWord_of_not_isReserved hx (k := "not") (by simp [reserved])
  rw [hoistNots_cons hx', hoistNots_cons (isWord_unique his (by decide)), hoistNots_not hnot,
    hrest.hoistNots]
  rfl

/-- What folds behind `IS` is a membership, alone or with a connective behind it:
    another `IS` finds no word in front of it, and another `IS NOT` gives up its
    `NOT` as a membership, which raises the count. -/
theorem turns_behind_is {x is : Item α} {passed rest out : List (Item α)}
    {queries : List (String × String)} (hx : x.isReserved = false) (his : is.isWord "is" = true)
    (hrest : Turns rest) (hpassed : Item.balance passed = 0) (hout : Item.balance out = 1)
    (h : foldQueries (x :: passed) (is :: hoistNots [] rest) = .ok (out, queries)) :
    ∃ input membership, x = .word input ∧ (.word membership : Item α).isReserved = false ∧
      (rest = [.word membership] ∨ ∃ c op more queries', rest = .word membership :: c :: more ∧
        c.connective? = some op ∧ Turns more ∧
        foldQueries (c :: .done (.query input membership) :: passed) (hoistNots [] more) =
          .ok (out, queries')) := by
  obtain ⟨input, membership, passed', rest', queries', hwords, hmore, hrun⟩ :=
    foldQueries_is_inv his h
  cases hwords
  cases hrest with
  | last hy =>
    rw [hoistNots_last hy] at hmore
    cases hmore
    exact ⟨input, membership, rfl, hy, .inl rfl⟩
  | @link y c more hy hc hturns =>
    rw [hoistNots_link hy hc hturns] at hmore
    cases hmore
    rcases worth_eq_neg_one hc with hcis | ⟨op, hop⟩
    · obtain ⟨_, _, _, _, _, hdone, _⟩ := foldQueries_is_inv hcis hrun
      cases hdone
    · rw [foldQueries_cons (isWord_of_connective?_of_ne hop (.inl rfl))] at hrun
      exact ⟨input, membership, rfl, hy, .inr ⟨c, op, more, queries', rfl, hop, hturns, hrun⟩⟩
  | @isNot y is' not more hy his' hnot hturns =>
    rw [hoistNots_isNot hy his' hnot hturns] at hmore
    cases hmore
    -- Here the `NOT` would be the membership, and the count would end above one.
    have hcount := balance_foldQueries hrun
    have hlast := hturns.balance
    have hhoist := balance_hoistNots [] more
    simp only [balance_cons, balance_nil, worth_done, worth_of_not_isReserved hy,
      worth_of_is his'] at hcount hhoist
    omega

omit [Scalar α] in
theorem eq_word_of_isWord {x : Item α} {k : String} (hx : x.isWord k = true) :
    ∃ w, x = .word w ∧ w.toLower = k := by
  cases x with
  | word w => exact ⟨w, rfl, by simpa [isWord] using hx⟩
  | group es => cases hx
  | done e => cases hx

omit [Scalar α] in
theorem eq_word_of_connective? {x : Item α} {op : LogicOp} (hx : x.connective? = some op) :
    ∃ w, x = .word w ∧ LogicOp.ofKeyword? w = some op := by
  cases x with
  | word w => exact ⟨w, rfl, hx⟩
  | group es => cases hx
  | done e => cases hx

omit [Scalar α] in
theorem not_mem_reserved {w : String} (hw : (word w : Item α).isReserved = false) :
    w.toLower ∉ reserved := by
  intro hmem
  rw [isReserved_word.2 hmem] at hw
  cases hw

/-- Well-formed turns that fold into a single item are operands and connectives. -/
theorem spread_of_turns {items passed out : List (Item α)} {queries : List (String × String)}
    (hturns : Turns items) (hpassed : Item.balance passed = 0) (hout : Item.balance out = 1)
    (h : foldQueries passed (hoistNots [] items) = .ok (out, queries)) :
    ∃ (o : Phrase α) (js : List (Joint α)), items = spread Phrase.turned o js := by
  -- The items passed count nothing. That is kept from phrase to phrase, and with it
  -- `turns_behind_is` finds a whole query at each `IS`.
  cases hturns with
  | @last x hx => exact ⟨.item x hx, [], rfl⟩
  | @link x c rest hx hc hrest =>
    have hx' := isWord_of_not_isReserved hx (k := "is") (by simp [reserved])
    rw [hoistNots_link hx hc hrest, foldQueries_cons hx'] at h
    rcases worth_eq_neg_one hc with his | ⟨op, hop⟩
    · obtain ⟨is, rfl, hlower⟩ := eq_word_of_isWord his
      obtain ⟨input, membership, rfl, hm, rfl | ⟨c', op, more, _, rfl, hop, hmore, hrun⟩⟩ :=
        turns_behind_is hx his hrest hpassed hout h
      · exact ⟨.query input is membership (not_mem_reserved hx) hlower (not_mem_reserved hm), [],
          rfl⟩
      · obtain ⟨w, rfl, hw⟩ := eq_word_of_connective? hop
        obtain ⟨o, js, rfl⟩ := spread_of_turns hmore
          (by simp [hpassed, worth_of_connective? hop]) hout hrun
        exact ⟨.query input is membership (not_mem_reserved hx) hlower (not_mem_reserved hm),
          ⟨w, op, o, hw⟩ :: js, rfl⟩
    · obtain ⟨w, rfl, hw⟩ := eq_word_of_connective? hop
      rw [foldQueries_cons (isWord_of_connective?_of_ne hop (.inl rfl))] at h
      obtain ⟨o, js, rfl⟩ := spread_of_turns hrest
        (by simp [hpassed, worth_of_connective? hop, worth_of_not_isReserved hx]) hout h
      exact ⟨.item x hx, ⟨w, op, o, hw⟩ :: js, rfl⟩
  | @isNot x is not rest hx his hnot hrest =>
    have hx' := isWord_of_not_isReserved hx (k := "is") (by simp [reserved])
    rw [hoistNots_isNot hx his hnot hrest, foldQueries_cons (isWord_unique hnot (by decide)),
      foldQueries_cons hx'] at h
    have hpassed' : Item.balance (not :: passed) = 0 := by simp [hpassed, worth_of_not hnot]
    obtain ⟨is, rfl, hlower⟩ := eq_word_of_isWord his
    obtain ⟨input, membership, rfl, hm, rfl | ⟨c', op, more, _, rfl, hop, hmore, hrun⟩⟩ :=
      turns_behind_is hx his hrest hpassed' hout h
    · obtain ⟨not, rfl, hlower'⟩ := eq_word_of_isWord hnot
      exact ⟨.negated input is not membership (not_mem_reserved hx) hlower hlower'
        (not_mem_reserved hm), [], rfl⟩
    · obtain ⟨w, rfl, hw⟩ := eq_word_of_connective? hop
      obtain ⟨o, js, rfl⟩ := spread_of_turns hmore
        (by simp [hpassed, worth_of_connective? hop, worth_of_not hnot]) hout hrun
      obtain ⟨not, rfl, hlower'⟩ := eq_word_of_isWord hnot
      exact ⟨.negated input is not membership (not_mem_reserved hx) hlower hlower'
        (not_mem_reserved hm), ⟨w, op, o, hw⟩ :: js, rfl⟩
termination_by items.length

/-- What folds is well formed behind its calls. -/
theorem spread_of_foldLevel {aliases : AliasTable α} {items : List (Item α)} {e : Expr α}
    {queries : List (String × String)} (h : foldLevel aliases items = .ok (e, queries)) :
    ∃ o js, foldCalls (items.map (expand aliases)) = .ok (spread Phrase.turned o js) := by
  unfold foldLevel at h
  obtain ⟨called, hcalls, h⟩ := bind_eq_ok.1 h
  obtain ⟨_, hturns, h⟩ := bind_eq_ok.1 h
  obtain ⟨⟨queried, own⟩, hqueries, h⟩ := bind_eq_ok.1 h
  obtain ⟨negated, hnots, h⟩ := bind_eq_ok.1 h
  obtain ⟨rest, hlogic, h⟩ := bind_eq_ok.1 h
  obtain ⟨_, hsingle, -⟩ := bind_eq_ok.1 h
  have hout := balance_eq_one hnots hlogic hsingle
  have hcount := balance_foldQueries hqueries
  obtain ⟨hle, hwell⟩ := checkTurns_balance (by simp) hturns
  rw [balance_hoistNots] at hcount
  simp only [balance_nil] at hcount
  obtain ⟨o, js, rfl⟩ := spread_of_turns (hwell (by omega)) balance_nil hout hqueries
  exact ⟨o, js, hcalls⟩

/-- A level folds into a condition exactly if operands and connectives stand behind
    its calls, and the conditions of the operands are joined to it from left to
    right. -/
theorem foldLevel_iff {aliases : AliasTable α} {items : List (Item α)} {e : Expr α} :
    (∃ queries, foldLevel aliases items = .ok (e, queries)) ↔
      ∃ o js l, foldCalls (items.map (expand aliases)) = .ok (spread Phrase.turned o js) ∧
        o.folded.toExpr = .ok l ∧ joined? l js = .ok e := by
  constructor
  · rintro ⟨queries, h⟩
    obtain ⟨o, js, hcalls⟩ := spread_of_foldLevel h
    obtain ⟨-, l, hl, he⟩ := (foldLevel_spread hcalls e queries).1 h
    exact ⟨o, js, l, hcalls, hl, he⟩
  · rintro ⟨o, js, l, hcalls, hl, he⟩
    exact ⟨ownQueries o js, (foldLevel_spread hcalls e _).2 ⟨rfl, l, hl, he⟩⟩

end FuzzyInference.Item
