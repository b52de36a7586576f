import FuzzyInference.Proofs.Error.Result
import FuzzyInference.Proofs.Rule.Keyword

/-!
# The passes over a well-formed level

A level is well formed when connectives stand between phrases and each phrase is
a single item, a query or a query with `NOT`. Every pass treats the phrases one
by one, so what it makes of such a level is known from what it makes of a phrase.

Results:

* `checkTurns_spread`, `hoistNots_spread`, `foldQueries_spread` and
  `foldNots_spread`: what the passes make of a well-formed level.
* `foldLevel_spread`: the condition that is left in the end, and the queries that
  the level lists.
* `folds_of_foldCalls`: what stays in place when calls are folded.
-/

namespace FuzzyInference.Item

variable {α : Type}

/-- What stands between the connectives of a level. -/
inductive Phrase (α : Type) where
  | item (x : Item α) (hx : x.isReserved = false)
  | query (input is membership : String) (hinput : input.toLower ∉ reserved)
      (his : is.toLower = "is") (hmembership : membership.toLower ∉ reserved)
  | negated (input is not membership : String) (hinput : input.toLower ∉ reserved)
      (his : is.toLower = "is") (hnot : not.toLower = "not")
      (hmembership : membership.toLower ∉ reserved)

/-- A connective and the phrase behind it. -/
structure Joint (α : Type) where
  word : String
  op : LogicOp
  phrase : Phrase α
  names : LogicOp.ofKeyword? word = some op

/-! ## Stages -/

namespace Phrase

/-- The phrase before `NOT` is moved. -/
def turned : Phrase α → List (Item α)
  | item x _ => [x]
  | query input is membership .. => [.word input, .word is, .word membership]
  | negated input is not membership .. => [.word input, .word is, .word not, .word membership]

/-- The phrase with `NOT` in front. -/
def hoisted : Phrase α → List (Item α)
  | item x _ => [x]
  | query input is membership .. => [.word input, .word is, .word membership]
  | negated input is not membership .. => [.word not, .word input, .word is, .word membership]

/-- The phrase with its query folded. -/
def queried : Phrase α → List (Item α)
  | item x _ => [x]
  | query input _ membership .. => [.done (.query input membership)]
  | negated input _ not membership .. => [.word not, .done (.query input membership)]

/-- The item that is left of the phrase. -/
def folded : Phrase α → Item α
  | item x _ => x
  | query input _ membership .. => .done (.query input membership)
  | negated input _ _ membership .. => .done (.negation (.query input membership))

/-- The query that the phrase makes itself. -/
def own : Phrase α → List (String × String)
  | item _ _ => []
  | query input _ membership .. => [(input, membership)]
  | negated input _ _ membership .. => [(input, membership)]

end Phrase

/-- The queries that phrases make themselves, from left to right. -/
def ownQueries (o : Phrase α) (js : List (Joint α)) : List (String × String) :=
  o.own ++ js.flatMap fun j => j.phrase.own

/-- Connectives and the phrases behind them, at some stage. -/
def following (stage : Phrase α → List (Item α)) (js : List (Joint α)) : List (Item α) :=
  js.flatMap fun j => .word j.word :: stage j.phrase

/-- A level of phrases, at some stage. -/
def spread (stage : Phrase α → List (Item α)) (o : Phrase α) (js : List (Joint α)) :
    List (Item α) :=
  stage o ++ following stage js

theorem following_cons (stage : Phrase α → List (Item α)) (j : Joint α) (js : List (Joint α)) :
    following stage (j :: js) = .word j.word :: (stage j.phrase ++ following stage js) := rfl

theorem isReserved_folded (o : Phrase α) : o.folded.isReserved = false := by
  cases o with
  | item x hx => exact hx
  | query => rfl
  | negated => rfl

theorem Joint.connective? (j : Joint α) : (.word j.word : Item α).connective? = some j.op := j.names

theorem Joint.isWord (j : Joint α) {k : String} (hk : k = "is" ∨ k = "not") :
    (.word j.word : Item α).isWord k = false :=
  isWord_of_connective?_of_ne j.connective? hk

/-! ## Calls -/

/-- What folding calls makes of items: a function word takes the group behind it,
    anything else stays. -/
inductive Folds : List (Item α) → List (Item α) → Prop
  | nil : Folds [] []
  | keep {x rest rest'} (h : Folds rest rest') : Folds (x :: rest) (x :: rest')
  | call {w f args rest rest'} (hf : RuleFunction.ofKeyword? w = some f) (h : Folds rest rest') :
      Folds (.word w :: .group args :: rest) (.done (.call f args) :: rest')

theorem folds_of_foldCalls {items items' : List (Item α)} (h : foldCalls items = .ok items') :
    Folds items items' := by
  induction items using foldCalls.induct generalizing items' with
  | case1 =>
    cases h
    exact .nil
  | case2 w rest hf ih =>
    rw [foldCalls.eq_def] at h
    simp only [hf] at h
    obtain ⟨rest', hrest, h⟩ := bind_eq_ok.1 h
    cases h
    exact .keep (ih hrest)
  | case3 w f hf es rest ih =>
    rw [foldCalls.eq_def] at h
    simp only [hf] at h
    obtain ⟨rest', hrest, h⟩ := bind_eq_ok.1 h
    cases h
    exact .call hf (ih hrest)
  | case4 w rest f hf hbad =>
    rw [foldCalls.eq_def] at h
    simp only [hf] at h
    cases h
  | case5 x rest hword ih =>
    have hstep : foldCalls (x :: rest) = (foldCalls rest).bind fun rest' => .ok (x :: rest') := by
      cases x with
      | word w => exact absurd rfl (hword w)
      | group es => rfl
      | done e => rfl
    rw [hstep] at h
    obtain ⟨rest', hrest, h⟩ := bind_eq_ok.1 h
    cases h
    exact .keep (ih hrest)

/-! ## Words of a query -/

theorem isReserved_of_not_mem {w : String} (h : w.toLower ∉ reserved) :
    (word w : Item α).isReserved = false := by
  cases hr : (word w : Item α).isReserved with
  | false => rfl
  | true => exact absurd (isReserved_word.1 hr) h

theorem isWord_of_not_mem {w k : String} (h : w.toLower ∉ reserved) (hk : k ∈ reserved) :
    (word w : Item α).isWord k = false :=
  isWord_of_not_isReserved (isReserved_of_not_mem h) hk

theorem isWord_self {w k : String} (h : w.toLower = k) : (word w : Item α).isWord k = true := by
  simp [Item.isWord, h]

/-! ## The passes -/

theorem hoistNots_cons {x : Item α} (hx : x.isWord "not" = false) (passed rest : List (Item α)) :
    hoistNots passed (x :: rest) = hoistNots (x :: passed) rest := by
  simp [hoistNots, hx]

theorem hoistNots_not {x : Item α} (hx : x.isWord "not" = true) (a b : Item α)
    (passed rest : List (Item α)) :
    hoistNots (a :: b :: passed) (x :: rest) = hoistNots (a :: b :: x :: passed) rest := by
  simp [hoistNots, hx, putBack]

theorem hoistNots_phrase (o : Phrase α) (passed rest : List (Item α)) :
    hoistNots passed (o.turned ++ rest) = hoistNots (o.hoisted.reverse ++ passed) rest := by
  cases o with
  | item x hx => exact hoistNots_cons (isWord_of_not_isReserved hx (by simp [reserved])) passed rest
  | query input is membership hinput his hmembership =>
    simp only [Phrase.turned, List.cons_append, List.nil_append]
    rw [hoistNots_cons (isWord_of_not_mem hinput (by simp [reserved])),
      hoistNots_cons (isWord_unique (isWord_self his) (by decide)),
      hoistNots_cons (isWord_of_not_mem hmembership (by simp [reserved]))]
    rfl
  | negated input is not membership hinput his hnot hmembership =>
    simp only [Phrase.turned, List.cons_append, List.nil_append]
    rw [hoistNots_cons (isWord_of_not_mem hinput (by simp [reserved])),
      hoistNots_cons (isWord_unique (isWord_self his) (by decide)),
      hoistNots_not (isWord_self hnot),
      hoistNots_cons (isWord_of_not_mem hmembership (by simp [reserved]))]
    rfl

theorem hoistNots_following (passed : List (Item α)) (js : List (Joint α)) :
    hoistNots passed (following Phrase.turned js) =
      passed.reverse ++ following Phrase.hoisted js := by
  induction js generalizing passed with
  | nil => simp [following, hoistNots]
  | cons j js ih =>
    rw [following_cons, hoistNots_cons (j.isWord (.inr rfl)), hoistNots_phrase, ih, following_cons]
    simp

theorem hoistNots_spread (o : Phrase α) (js : List (Joint α)) :
    hoistNots [] (spread Phrase.turned o js) = spread Phrase.hoisted o js := by
  rw [spread, hoistNots_phrase, hoistNots_following]
  simp [spread]

variable [Scalar α]

theorem checkTurns_item {x : Item α} (hx : x.isReserved = false) (previous : Option (Item α))
    (rest : List (Item α)) :
    checkTurns previous true (x :: rest) = checkTurns (some x) false rest := by
  simp [checkTurns, hx]

theorem checkTurns_separator {x : Item α} (hx : x.isReserved = true) (previous : Option (Item α))
    (rest : List (Item α)) :
    checkTurns previous false (x :: rest) = checkTurns (some x) true rest := by
  simp [checkTurns, hx]

theorem checkTurns_phrase (o : Phrase α) (previous : Option (Item α)) (rest : List (Item α)) :
    ∃ last, checkTurns previous true (o.turned ++ rest) = checkTurns (some last) false rest := by
  cases o with
  | item x hx => exact ⟨x, checkTurns_item hx previous rest⟩
  | query input is membership hinput his hmembership =>
    refine ⟨.word membership, ?_⟩
    have hr : (word is : Item α).isReserved = true :=
      isReserved_of_isWord (isWord_self his) (by simp [reserved])
    simp only [Phrase.turned, List.cons_append, List.nil_append]
    rw [checkTurns_item (isReserved_of_not_mem hinput), checkTurns_separator hr,
      checkTurns_item (isReserved_of_not_mem hmembership)]
  | negated input is not membership hinput his hnot hmembership =>
    refine ⟨.word membership, ?_⟩
    have hr : (word is : Item α).isReserved = true :=
      isReserved_of_isWord (isWord_self his) (by simp [reserved])
    have hn : (word not : Item α).isReserved = true :=
      isReserved_of_isWord (isWord_self hnot) (by simp [reserved])
    have hpair : checkTurns (some (word is)) true (word not :: word membership :: rest) =
        checkTurns (some (word not)) true (word membership :: rest) := by
      rw [checkTurns]
      simp [hn, isWord_self his, isWord_self hnot]
    simp only [Phrase.turned, List.cons_append, List.nil_append]
    rw [checkTurns_item (isReserved_of_not_mem hinput), checkTurns_separator hr, hpair,
      checkTurns_item (isReserved_of_not_mem hmembership)]

theorem checkTurns_following (last : Item α) (js : List (Joint α)) :
    checkTurns (some last) false (following Phrase.turned js) = .ok () := by
  induction js generalizing last with
  | nil => rfl
  | cons j js ih =>
    obtain ⟨last', hphrase⟩ := checkTurns_phrase j.phrase (some (.word j.word))
      (following Phrase.turned js)
    rw [following_cons, checkTurns_separator (isReserved_of_connective? j.connective?), hphrase]
    exact ih last'

theorem checkTurns_spread (o : Phrase α) (js : List (Joint α)) :
    checkTurns none true (spread Phrase.turned o js) = .ok () := by
  obtain ⟨last, hphrase⟩ := checkTurns_phrase o none (following Phrase.turned js)
  rw [spread, hphrase]
  exact checkTurns_following last js

theorem foldQueries_cons {x : Item α} (hx : x.isWord "is" = false) (passed rest : List (Item α)) :
    foldQueries passed (x :: rest) = foldQueries (x :: passed) rest := by
  rw [foldQueries.eq_def]
  simp [hx]

theorem foldQueries_is {is : String} (his : is.toLower = "is") (input membership : String)
    (passed rest : List (Item α)) :
    foldQueries (.word input :: passed) (.word is :: .word membership :: rest) =
      (foldQueries (.done (.query input membership) :: passed) rest).map fun (items, queries) =>
        (items, (input, membership) :: queries) := by
  rw [foldQueries]
  simp only [isWord_self his, if_true]
  rcases foldQueries (.done (.query input membership) :: passed) rest with e | ⟨items, queries⟩ <;>
    rfl

theorem foldQueries_phrase (o : Phrase α) (passed rest : List (Item α)) :
    foldQueries passed (o.hoisted ++ rest) =
      (foldQueries (o.queried.reverse ++ passed) rest).map fun (items, queries) =>
        (items, o.own ++ queries) := by
  cases o with
  | item x hx =>
    have hstep := foldQueries_cons (isWord_of_not_isReserved hx (by simp [reserved])) passed rest
    simp only [Phrase.hoisted, Phrase.queried, List.cons_append, List.nil_append, List.reverse_cons,
      List.reverse_nil]
    rw [hstep]
    rcases foldQueries (x :: passed) rest with e | ⟨items, queries⟩ <;> rfl
  | query input is membership hinput his hmembership =>
    simp only [Phrase.hoisted, List.cons_append, List.nil_append]
    rw [foldQueries_cons (isWord_of_not_mem hinput (by simp [reserved])), foldQueries_is his]
    rfl
  | negated input is not membership hinput his hnot hmembership =>
    simp only [Phrase.hoisted, List.cons_append, List.nil_append]
    rw [foldQueries_cons (isWord_unique (isWord_self hnot) (by decide)),
      foldQueries_cons (isWord_of_not_mem hinput (by simp [reserved])), foldQueries_is his]
    rfl

theorem foldQueries_following (passed : List (Item α)) (js : List (Joint α)) :
    foldQueries passed (following Phrase.hoisted js) =
      .ok (passed.reverse ++ following Phrase.queried js, js.flatMap fun j => j.phrase.own) := by
  induction js generalizing passed with
  | nil => simp [following, foldQueries]
  | cons j js ih =>
    rw [following_cons, foldQueries_cons (j.isWord (.inl rfl)), foldQueries_phrase, ih,
      following_cons]
    simp [Except.map]

theorem foldQueries_spread (o : Phrase α) (js : List (Joint α)) :
    foldQueries [] (spread Phrase.hoisted o js) =
      .ok (spread Phrase.queried o js, ownQueries o js) := by
  rw [spread, foldQueries_phrase, foldQueries_following]
  simp [Except.map, spread, ownQueries]

theorem foldNots_cons {x : Item α} (hx : x.isWord "not" = false) (rest : List (Item α)) :
    foldNots (x :: rest) = (foldNots rest).map (x :: ·) := by
  rw [foldNots.eq_def]
  simp only [hx]
  cases foldNots rest <;> rfl

theorem foldNots_phrase (o : Phrase α) (rest : List (Item α)) :
    foldNots (o.queried ++ rest) = (foldNots rest).map (o.folded :: ·) := by
  cases o with
  | item x hx => exact foldNots_cons (isWord_of_not_isReserved hx (by simp [reserved])) rest
  | query input is membership hinput his hmembership => exact foldNots_cons rfl rest
  | negated input is not membership hinput his hnot hmembership =>
    simp only [Phrase.queried, List.cons_append, List.nil_append]
    rw [foldNots.eq_def]
    simp only [isWord_self hnot, if_true, toExpr, Phrase.folded, bind, Except.bind]
    cases foldNots rest <;> rfl

theorem foldNots_following (js : List (Joint α)) :
    foldNots (following Phrase.queried js) = .ok (following (fun o => [o.folded]) js) := by
  induction js with
  | nil => rfl
  | cons j js ih =>
    rw [following_cons, foldNots_cons (j.isWord (.inr rfl)), foldNots_phrase, ih, following_cons]
    rfl

theorem foldNots_spread (o : Phrase α) (js : List (Joint α)) :
    foldNots (spread Phrase.queried o js) = .ok (spread (fun o => [o.folded]) o js) := by
  rw [spread, foldNots_phrase, foldNots_following]
  rfl

/-! ## The condition -/

/-- The condition of phrases joined from left to right to the condition of the first
    one. -/
def joined? (l : Expr α) : List (Joint α) → Except CompileFault (Expr α)
  | [] => .ok l
  | j :: js => do
    let r ← j.phrase.folded.toExpr
    joined? (.logic j.op l r) js

theorem foldLogic_joint {x y : Item α} {l : Expr α} (hx : x.toExpr = .ok l) (j : Joint α)
    (rest : List (Item α)) :
    foldLogic [x] (.word j.word :: y :: rest) =
      y.toExpr.bind fun r => foldLogic [.done (.logic j.op l r)] rest := by
  rw [foldLogic]
  simp only [connective?, j.names, hx]
  rfl

theorem foldLogic_following {x : Item α} {l : Expr α} (hx : x.toExpr = .ok l)
    (js : List (Joint α)) :
    (foldLogic [x] (following (fun o => [o.folded]) js)).bind single = joined? l js := by
  induction js generalizing x l with
  | nil => exact hx
  | cons j js ih =>
    rw [following_cons, List.singleton_append, foldLogic_joint hx, joined?]
    cases hr : j.phrase.folded.toExpr with
    | error fault => rfl
    | ok r => exact ih rfl

theorem foldLogic_spread (o : Phrase α) (js : List (Joint α)) (e : Expr α) :
    (foldLogic [] (spread (fun o => [o.folded]) o js)).bind single = .ok e ↔
      ∃ l, o.folded.toExpr = .ok l ∧ joined? l js = .ok e := by
  have hstep : foldLogic [] (spread (fun o => [o.folded]) o js) =
      foldLogic [o.folded] (following (fun o => [o.folded]) js) := by
    rw [spread, List.singleton_append, foldLogic]
    simp only [connective?_of_not_isReserved (isReserved_folded o)]
  rw [hstep]
  cases hl : o.folded.toExpr with
  | ok l => simp [foldLogic_following hl]
  | error fault =>
    cases js with
    | nil => simp [following, foldLogic, single, Except.bind, hl]
    | cons j js =>
      rw [following_cons, List.singleton_append, foldLogic]
      simp only [connective?, j.names, hl, bind, Except.bind]
      cases j.phrase.folded.toExpr <;> simp

/-- A level that is well formed behind its calls has a condition exactly if its
    phrases have one, and lists the queries of its phrases. -/
theorem foldLevel_spread {aliases : AliasTable α} {items : List (Item α)} {o : Phrase α}
    {js : List (Joint α)}
    (h : foldCalls (items.map (expand aliases)) = .ok (spread Phrase.turned o js)) (e : Expr α)
    (queries : List (String × String)) :
    foldLevel aliases items = .ok (e, queries) ↔
      queries = ownQueries o js ∧ ∃ l, o.folded.toExpr = .ok l ∧ joined? l js = .ok e := by
  rw [← foldLogic_spread]
  unfold foldLevel
  simp only [h, checkTurns_spread, hoistNots_spread, foldQueries_spread, foldNots_spread, bind,
    Except.bind]
  rcases foldLogic [] (spread (fun o => [o.folded]) o js) with fault | rest
  · simp
  · rcases hsingle : single rest with fault | e'
    · simp [hsingle]
    · simp [pure, Except.pure, hsingle, and_comm, eq_comm (b := queries)]

end FuzzyInference.Item
