import FuzzyInference.Proofs.Rule.InPlace.Vector
import FuzzyInference.Rule.Fold

/-!
# Folding a level in place

The passes that fold a level work on one vector of items and a position in it.
They remove items ahead of the position and behind it, put one two places back,
and go on without moving when something was folded. What a pass has done with the
items in front of its position is a list by itself, and so is what is left, which
gets shorter with every round: this is the form in which the passes over lists are
written, and both are the same.

Results:

* `foldCalls_eq`, `checkTurns_eq`, `hoistNots_eq`, `foldQueries_eq`, `foldNots_eq`
  and `foldLogic_eq`: each pass in place is the pass over lists.
* `foldLevel_eq`: a level that is folded in place.
-/

namespace FuzzyInference.InPlace

variable {α : Type} [Scalar α]

/-! ## Passes in place -/

/-- The condition of a single item. -/
def toExpr (item : Item α) : Run (Expr α) :=
  match item with
  | .done e => pure e
  | .group es =>
    match es.length with
    | 1 => do
      let (e, _) ← remove es 0
      return e
    | 0 => fail .emptyParentheses
    | _ => fail (.strayComma (Expr.groupText es))
  | .word w =>
    match Scalar.read? w with
    | some value => pure (.constant value)
    | none => fail (.unrecognized w)

/-- The function that an item is the word for. -/
def function? : Item α → Option RuleFunction
  | .word w => RuleFunction.ofKeyword? w
  | _ => none

/-- A function takes the group behind it. -/
def Cursor.foldCalls : Cursor (Item α) → Run (List (Item α))
  | ⟨items, i⟩ => do
    if i < items.length then
      match function? (← index items i) with
      | some f =>
        match items[i + 1]? with
        | some (.group _) =>
          let (removed, items) ← remove items (i + 1)
          match removed with
          | .group args =>
            let items ← replace items i (.done (.call f args))
            Cursor.mk items (i + 1) |>.foldCalls
          | _ => Cursor.mk items (i + 1) |>.foldCalls
        | _ => fail (.callWithoutArguments f.keyword)
      | none => Cursor.mk items (i + 1) |>.foldCalls
    else return items
partial_fixpoint

/-- Whether the last item is reserved, if reserved words and other items take turns
    from a position on. -/
def Cursor.takeTurns : Cursor (Item α) → Bool → Run Bool
  | ⟨items, i⟩, lastReserved => do
    match items[i]? with
    | none => return lastReserved
    | some item =>
      if item.isReserved = lastReserved then
        if i = 0 then fail (.badPair "IF" item.text)
        else
          let previous ← index items (← back i 1)
          if previous.isWord "is" && item.isWord "not" then
            Cursor.mk items (i + 1) |>.takeTurns lastReserved
          else fail (.badPair previous.text item.text)
      else Cursor.mk items (i + 1) |>.takeTurns item.isReserved
partial_fixpoint

/-- The last item is not reserved. -/
def endTurns (items : List (Item α)) (lastReserved : Bool) : Run Unit :=
  match items.getLast? with
  | none => fail .emptyCondition
  | some last => if lastReserved then fail (.badEnd last.text) else pure ()

/-- Reserved words and other items have to take turns. -/
def checkTurns (items : List (Item α)) : Run Unit := do
  endTurns items (← Cursor.takeTurns ⟨items, 0⟩ true)

/-- `NOT` moves two places back, or to the start. -/
def Cursor.hoistNots : Cursor (Item α) → Nat → Run (List (Item α))
  | ⟨items, i⟩, count => do
    if i < count then
      if (← index items i).isWord "not" then
        let (item, items) ← remove items i
        let items ← insert items (i - 2) item
        Cursor.mk items (i + 1) |>.hoistNots count
      else Cursor.mk items (i + 1) |>.hoistNots count
    else return items
partial_fixpoint

/-- The text of an item that is a word. -/
def word? : Item α → Option String
  | .word w => some w
  | _ => none

/-- The word in front of a position. -/
def wordBefore (items : List (Item α)) (i : Nat) : Run (Option String) := do
  if i = 0 then return none
  let item ← index items (← back i 1)
  return word? item

/-- Adds queries to the ones that are recorded, if any are. -/
def record (queries : Option (OrderedMap String)) (new : List (String × String)) :
    Option (OrderedMap String) :=
  queries.map fun recorded => new.foldl (fun m q => m.insert q.1 q.2) recorded

/-- `input IS membership` becomes a query, which is recorded. -/
def Cursor.foldQueries : Cursor (Item α) → Option (OrderedMap String) →
    Run (List (Item α) × Option (OrderedMap String))
  | ⟨items, i⟩, queries => do
    if i < items.length then
      let item ← index items i
      if item.isWord "is" then
        match ← wordBefore items i, items[i + 1]?.bind word? with
        | some input, some membership =>
          let items ← drain items i (i + 2)
          let items ← replace items (← back i 1) (.done (.query input membership))
          Cursor.mk items i |>.foldQueries (record queries [(input, membership)])
        | _, _ => fail (.isMalformed (items[i + 1]?.getD (← index items i)).text)
      else Cursor.mk items (i + 1) |>.foldQueries queries
    else return (items, queries)
partial_fixpoint

/-- `NOT` takes the item behind it. -/
def Cursor.foldNots : Cursor (Item α) → Run (List (Item α))
  | ⟨items, i⟩ => do
    if i < items.length then
      if (← index items i).isWord "not" then
        if items.length ≤ i + 1 then fail .notWithoutOperand
        else
          let (operand, items) ← remove items (i + 1)
          let e ← toExpr operand
          let items ← replace items i (.done (.negation e))
          Cursor.mk items (i + 1) |>.foldNots
      else Cursor.mk items (i + 1) |>.foldNots
    else return items
partial_fixpoint

/-- A connective takes its neighbours. -/
def Cursor.foldLogic : Cursor (Item α) → Run (List (Item α))
  | ⟨items, i⟩ => do
    if i < items.length then
      match (← index items i).connective? with
      | none => Cursor.mk items (i + 1) |>.foldLogic
      | some op =>
        if i = 0 ∨ items.length ≤ i + 1 then fail (.operandMissing op.keyword)
        else
          let (right, items) ← remove items (i + 1)
          let r ← toExpr right
          let (_, items) ← remove items i
          let place ← back i 1
          let left ← index items place
          let l ← toExpr left
          let items ← replace items place (.done (.logic op l r))
          Cursor.mk items i |>.foldLogic
    else return items
partial_fixpoint

/-- The only item that is left. -/
def single (items : List (Item α)) : Run (Expr α) :=
  match items with
  | [] => fail .emptyCondition
  | [item] => toExpr item
  | _ :: extra :: _ => fail (.leftOver extra.text)

/-- Folds a level into its condition, with the queries recorded so far and its
    own. -/
def foldLevel (aliases : AliasTable α) (items : List (Item α))
    (queries : Option (OrderedMap String)) :
    Run (Expr α × Option (OrderedMap String)) := do
  let items ← Cursor.foldCalls ⟨items.map (Item.expand aliases), 0⟩
  checkTurns items
  let items ← Cursor.hoistNots ⟨items, 0⟩ items.length
  let (items, queries) ← Cursor.foldQueries ⟨items, 0⟩ queries
  let items ← Cursor.foldNots ⟨items, 0⟩
  let items ← Cursor.foldLogic ⟨items, 0⟩
  let e ← single items
  return (e, queries)

/-! ## The same passes over lists -/

theorem toExpr_eq (item : Item α) : toExpr item = ofExcept item.toExpr := by
  cases item with
  | done e => rfl
  | word w =>
    rw [toExpr, Item.toExpr]
    cases (Scalar.read? w : Option α) <;> rfl
  | group es =>
    match es with
    | [] => rfl
    | [e] => rfl
    | e :: e' :: es => rfl

omit [Scalar α]

/-- An item that a pass is done with, in front of what it makes of the others. -/
theorem map_cons (done : List (Item α)) (item : Item α) (x : Except CompileFault (List (Item α))) :
    x.map (done ++ [item] ++ ·) = (do return item :: (← x)).map (done ++ ·) := by
  cases x with
  | error f => rfl
  | ok items => simp [Except.map, bind, Except.bind, pure, Except.pure]

theorem foldCalls_over (done rest : List (Item α)) {item : Item α} (h : function? item = none) :
    Cursor.foldCalls ⟨done ++ item :: rest, done.length⟩ =
      Cursor.foldCalls ⟨done ++ [item] ++ rest, (done ++ [item]).length⟩ := by
  rw [Cursor.foldCalls]
  simp [h]

theorem foldCalls_eq (done rest : List (Item α)) :
    Cursor.foldCalls ⟨done ++ rest, done.length⟩ =
      ofExcept ((Item.foldCalls rest).map (done ++ ·)) := by
  induction rest using Item.foldCalls.induct generalizing done with
  | case1 =>
    rw [Cursor.foldCalls]
    simp [Item.foldCalls, Except.map]
  | case2 w rest hf ih =>
    have hword : function? (.word w : Item α) = none := hf
    rw [foldCalls_over done rest hword, ih, map_cons, Item.foldCalls, hf]
  | case3 w f hf args rest ih =>
    have hround : Cursor.foldCalls ⟨done ++ .word w :: .group args :: rest, done.length⟩ =
        Cursor.foldCalls ⟨done ++ [.done (.call f args)] ++ rest,
          (done ++ [Item.done (.call f args)]).length⟩ := by
      rw [Cursor.foldCalls]
      simp [function?, hf]
    rw [hround, ih, map_cons, Item.foldCalls, hf]
  | case4 w rest f hf hgroup =>
    rw [Cursor.foldCalls, Item.foldCalls, hf]
    cases rest with
    | nil => simp [function?, hf, Except.map]
    | cons next rest =>
      cases next with
      | group args => exact absurd rfl (hgroup args rest)
      | word | done => simp [function?, hf, Except.map]
  | case5 item rest hword ih =>
    have hf : function? item = none := by
      cases item with
      | word w => exact absurd rfl (hword w)
      | group | done => rfl
    rw [foldCalls_over done rest hf, ih, map_cons, Item.foldCalls]
    exact hword

variable [Scalar α]

theorem takeTurns_over (done rest : List (Item α)) {item : Item α} {lastReserved : Bool}
    (h : item.isReserved ≠ lastReserved) :
    Cursor.takeTurns ⟨done ++ item :: rest, done.length⟩ lastReserved =
      Cursor.takeTurns ⟨done ++ [item] ++ rest, (done ++ [item]).length⟩ item.isReserved := by
  rw [Cursor.takeTurns]
  simp [h]

theorem takeTurns_eq (done rest : List (Item α)) (lastReserved : Bool) :
    (Cursor.takeTurns ⟨done ++ rest, done.length⟩ lastReserved >>= endTurns (done ++ rest)) =
      ofExcept (Item.checkTurns done.getLast? lastReserved rest) := by
  induction rest generalizing done lastReserved with
  | nil =>
    have hend : Cursor.takeTurns ⟨done ++ [], done.length⟩ lastReserved = pure lastReserved := by
      rw [Cursor.takeTurns, List.append_nil, List.getElem?_eq_none (Nat.le_refl _)]
    rw [hend, pure_bind, List.append_nil, endTurns, Item.checkTurns.eq_def]
    cases done.getLast? with
    | none => rfl
    | some last => cases lastReserved <;> rfl
  | cons item rest ih =>
    have hnext : ∀ reserved,
        (Cursor.takeTurns ⟨done ++ [item] ++ rest, (done ++ [item]).length⟩ reserved >>=
        endTurns (done ++ item :: rest)) =
          ofExcept (Item.checkTurns (some item) reserved rest) := by
      intro reserved
      rw [← List.getLast?_concat, ← ih (done ++ [item]) reserved, List.append_assoc,
        List.singleton_append]
    rw [Item.checkTurns.eq_def]
    dsimp only
    by_cases hturn : item.isReserved = lastReserved
    · rw [if_pos hturn]
      rcases List.eq_nil_or_concat done with rfl | ⟨before, previous, rfl⟩
      · rw [Cursor.takeTurns]
        simp [hturn]
      · have hround :
            Cursor.takeTurns ⟨before ++ [previous] ++ item :: rest, (before ++ [previous]).length⟩
              lastReserved =
              if previous.isWord "is" && item.isWord "not" then
                Cursor.takeTurns
                  ⟨before ++ [previous] ++ [item] ++ rest,
                    (before ++ [previous] ++ [item]).length⟩ lastReserved
              else fail (.badPair previous.text item.text) := by
          rw [Cursor.takeTurns]
          simp [hturn]
        rw [List.concat_eq_append] at hnext ⊢
        rw [hround, List.getLast?_concat]
        dsimp only
        split
        · exact hnext lastReserved
        · rfl
    · rw [if_neg hturn, takeTurns_over done rest hturn]
      exact hnext item.isReserved

theorem checkTurns_eq (items : List (Item α)) :
    checkTurns items = ofExcept (Item.checkTurns none true items) :=
  takeTurns_eq [] items true

omit [Scalar α]

/-! The passed items are kept in reverse in the passes over lists. -/

theorem hoistNots_over (passed rest : List (Item α)) {item : Item α} {count : Nat}
    (hcount : passed.length < count) (h : item.isWord "not" = false) :
    Cursor.hoistNots ⟨passed.reverse ++ item :: rest, passed.length⟩ count =
      Cursor.hoistNots ⟨(item :: passed).reverse ++ rest, (item :: passed).length⟩ count := by
  rw [Cursor.hoistNots]
  simp [hcount, h]

theorem insert_putBack (passed rest : List (Item α)) (item : Item α) :
    insert (passed.reverse ++ rest) (passed.length - 2) item =
      pure ((Item.putBack item passed).reverse ++ rest) := by
  match passed with
  | [] => exact insert_append [] rest item
  | [a] => exact insert_append [] (a :: rest) item
  | a :: b :: passed =>
    have hplace : (a :: b :: passed).reverse ++ rest = passed.reverse ++ (b :: a :: rest) := by simp
    have hlength : (a :: b :: passed).length - 2 = passed.reverse.length := by simp
    rw [hplace, hlength, insert_append]
    simp [Item.putBack]

theorem hoistNots_back (passed rest : List (Item α)) {item : Item α} {count : Nat}
    (hcount : passed.length < count) (h : item.isWord "not" = true) :
    Cursor.hoistNots ⟨passed.reverse ++ item :: rest, passed.length⟩ count =
      Cursor.hoistNots ⟨(Item.putBack item passed).reverse ++ rest,
        (Item.putBack item passed).length⟩ count := by
  rw [Cursor.hoistNots, Item.length_putBack]
  simp [hcount, h, insert_putBack]

theorem hoistNots_eq (passed rest : List (Item α)) :
    Cursor.hoistNots ⟨passed.reverse ++ rest, passed.length⟩ (passed.length + rest.length) =
      pure (Item.hoistNots passed rest) := by
  induction passed, rest using Item.hoistNots.induct with
  | case1 passed =>
    rw [Cursor.hoistNots, Item.hoistNots]
    simp
  | case2 passed item rest hnot ih =>
    have hsame : passed.length + (item :: rest).length =
        (Item.putBack item passed).length + rest.length := by
      rw [List.length_cons, Item.length_putBack]
      omega
    rw [hoistNots_back passed rest (by simp) hnot, hsame, ih, Item.hoistNots, if_pos hnot]
  | case3 passed item rest hnot ih =>
    have hsame : passed.length + (item :: rest).length = (item :: passed).length + rest.length := by
      rw [List.length_cons, List.length_cons]
      omega
    rw [hoistNots_over passed rest (by simp) (Bool.not_eq_true _ ▸ hnot), hsame, ih,
      Item.hoistNots, if_neg hnot]

theorem wordBefore_passed (passed zs : List (Item α)) :
    wordBefore (passed.reverse ++ zs) passed.length = pure (passed.head?.bind word?) := by
  cases passed with
  | nil => rfl
  | cons x passed =>
    simp only [wordBefore, List.length_cons, Nat.succ_ne_zero, if_false, back_succ,
      pure_bind, index_back]
    rfl

theorem getElem?_passed_succ (passed zs : List (Item α)) (y : Item α) :
    (passed.reverse ++ y :: zs)[passed.length + 1]? = zs.head? := by
  rw [← List.length_reverse, List.getElem?_append_right (Nat.le_succ _),
    Nat.succ_sub (Nat.le_refl _), Nat.sub_self, List.getElem?_cons_succ, List.head?_eq_getElem?]

theorem word?_eq_some {item : Item α} {w : String} (h : word? item = some w) : item = .word w := by
  cases item with
  | word v => exact congrArg Item.word (Option.some.inj h)
  | group | done => cases h

variable [Scalar α]

theorem foldQueries_over (passed rest : List (Item α)) (queries : Option (OrderedMap String))
    {item : Item α} (h : item.isWord "is" = false) :
    Cursor.foldQueries ⟨passed.reverse ++ item :: rest, passed.length⟩ queries =
      Cursor.foldQueries ⟨(item :: passed).reverse ++ rest, (item :: passed).length⟩ queries := by
  rw [Cursor.foldQueries]
  simp [h]

theorem foldQueries_fold (passed rest : List (Item α)) (queries : Option (OrderedMap String))
    {item : Item α} (h : item.isWord "is" = true) (input membership : String) :
    Cursor.foldQueries ⟨(.word input :: passed).reverse ++ item :: .word membership :: rest,
        (Item.word input :: passed).length⟩ queries =
      Cursor.foldQueries ⟨(.done (.query input membership) :: passed).reverse ++ rest,
        (Item.done (.query input membership) :: passed).length⟩
          (record queries [(input, membership)]) := by
  have hlength : (Item.word input :: passed).length <
      ((.word input :: passed).reverse ++ item :: .word membership :: rest).length := by
    simp
  have hback : back (Item.word input :: passed).length 1 = pure passed.length :=
    back_succ passed.length
  rw [Cursor.foldQueries, if_pos hlength]
  simp only [index_passed, pure_bind, h, if_true, wordBefore_passed, getElem?_passed_succ,
    List.head?_cons, Option.bind_some, word?, drain_passed_two, hback, replace_back]
  rfl

theorem foldQueries_malformed (passed rest : List (Item α)) (queries : Option (OrderedMap String))
    {item : Item α} (h : item.isWord "is" = true)
    (hwords :
      ∀ (input : String) (passed' : List (Item α)) (membership : String) (rest' : List (Item α)),
      passed = .word input :: passed' → rest = .word membership :: rest' → False) :
    Cursor.foldQueries ⟨passed.reverse ++ item :: rest, passed.length⟩ queries =
      fail (.isMalformed (rest.headD item).text) := by
  have hlength : passed.length < (passed.reverse ++ item :: rest).length := by simp
  rw [Cursor.foldQueries, if_pos hlength]
  simp only [index_passed, pure_bind, h, if_true, wordBefore_passed, getElem?_passed_succ]
  split
  · rename_i input membership hinput hmembership
    obtain ⟨x, hx, hinput⟩ := Option.bind_eq_some_iff.1 hinput
    obtain ⟨y, hy, hmembership⟩ := Option.bind_eq_some_iff.1 hmembership
    obtain ⟨passed', rfl⟩ := List.head?_eq_some_iff.1 hx
    obtain ⟨rest', rfl⟩ := List.head?_eq_some_iff.1 hy
    rw [word?_eq_some hinput, word?_eq_some hmembership] at hwords
    exact absurd rfl (hwords input passed' membership rest' rfl)
  · rw [List.headD_eq_head?_getD]

theorem foldQueries_eq (passed rest : List (Item α)) (queries : Option (OrderedMap String)) :
    Cursor.foldQueries ⟨passed.reverse ++ rest, passed.length⟩ queries =
      ofExcept ((Item.foldQueries passed rest).map fun folded =>
        (folded.1, record queries folded.2)) := by
  induction passed, rest using Item.foldQueries.induct generalizing queries with
  | case1 passed =>
    rw [Cursor.foldQueries, Item.foldQueries]
    simp [Except.map, record]
  | case2 item his input passed membership rest ih =>
    rw [foldQueries_fold passed rest queries his input membership, ih, Item.foldQueries, if_pos his]
    cases Item.foldQueries (.done (.query input membership) :: passed) rest with
    | error f => rfl
    | ok folded => cases queries <;> rfl
  | case3 passed item his rest hwords =>
    rw [foldQueries_malformed passed rest queries his hwords, Item.foldQueries.eq_def]
    simp only [his, if_true]
    rfl
  | case4 passed item rest his ih =>
    rw [foldQueries_over passed rest queries (Bool.not_eq_true _ ▸ his), ih,
      Item.foldQueries.eq_def passed]
    dsimp only
    rw [if_neg his]

theorem foldNots_over (done rest : List (Item α)) {item : Item α} (h : item.isWord "not" = false) :
    Cursor.foldNots ⟨done ++ item :: rest, done.length⟩ =
      Cursor.foldNots ⟨done ++ [item] ++ rest, (done ++ [item]).length⟩ := by
  rw [Cursor.foldNots]
  simp [h]

theorem foldNots_fold (done rest : List (Item α)) {item operand : Item α}
    (h : item.isWord "not" = true) :
    Cursor.foldNots ⟨done ++ item :: operand :: rest, done.length⟩ =
      ofExcept operand.toExpr >>= fun e =>
        Cursor.foldNots ⟨done ++ [.done (.negation e)] ++ rest,
          (done ++ [Item.done (.negation e)]).length⟩ := by
  rw [Cursor.foldNots]
  simp [h, toExpr_eq]

theorem foldNots_eq (done rest : List (Item α)) :
    Cursor.foldNots ⟨done ++ rest, done.length⟩ =
      ofExcept ((Item.foldNots rest).map (done ++ ·)) := by
  induction rest using Item.foldNots.induct generalizing done with
  | case1 =>
    rw [Cursor.foldNots, Item.foldNots]
    simp [Except.map]
  | case2 item hnot =>
    rw [Cursor.foldNots, Item.foldNots, if_pos hnot]
    simp [hnot, Except.map]
  | case3 item hnot operand rest ih =>
    rw [foldNots_fold done rest hnot, Item.foldNots, if_pos hnot]
    cases operand.toExpr with
    | error f => rfl
    | ok e =>
      exact (ih (done ++ [.done (.negation e)])).trans (congrArg ofExcept (map_cons done _ _))
  | case4 item rest hnot ih =>
    rw [foldNots_over done rest (Bool.not_eq_true _ ▸ hnot), ih, map_cons,
      Item.foldNots.eq_def (item :: rest)]
    dsimp only
    rw [if_neg hnot]

theorem foldLogic_over (passed rest : List (Item α)) {item : Item α} (h : item.connective? = none) :
    Cursor.foldLogic ⟨passed.reverse ++ item :: rest, passed.length⟩ =
      Cursor.foldLogic ⟨(item :: passed).reverse ++ rest, (item :: passed).length⟩ := by
  rw [Cursor.foldLogic]
  simp [h]

theorem foldLogic_fold (passed rest : List (Item α)) {item : Item α} {op : LogicOp}
    (h : item.connective? = some op) (left right : Item α) :
    Cursor.foldLogic ⟨(left :: passed).reverse ++ item :: right :: rest, (left :: passed).length⟩ =
      ofExcept right.toExpr >>= fun r => ofExcept left.toExpr >>= fun l =>
        Cursor.foldLogic
          ⟨(.done (.logic op l r) :: passed).reverse ++ rest,
            (Item.done (.logic op l r) :: passed).length⟩ := by
  have hlength : (left :: passed).length + 1 <
      ((left :: passed).reverse ++ item :: right :: rest).length := by
    simp only [List.length_append, List.length_reverse, List.length_cons]
    omega
  have hends : ¬ ((left :: passed).length = 0 ∨
      ((left :: passed).reverse ++ item :: right :: rest).length ≤
        (left :: passed).length + 1) := by
    rw [not_or, List.length_eq_zero_iff, Nat.not_le]
    exact ⟨List.cons_ne_nil _ _, hlength⟩
  have hback : back (left :: passed).length 1 = pure passed.length := back_succ passed.length
  rw [Cursor.foldLogic, if_pos (Nat.lt_of_succ_lt hlength)]
  simp only [index_passed, pure_bind, h, hends, if_false, remove_passed_succ, remove_passed,
    toExpr_eq, hback, index_back, replace_back]
  rfl

theorem foldLogic_missing (passed rest : List (Item α)) {item : Item α} {op : LogicOp}
    (h : item.connective? = some op)
    (hends : ∀ (left : Item α) (passed' : List (Item α)) (right : Item α) (rest' : List (Item α)),
      passed = left :: passed' → rest = right :: rest' → False) :
    Cursor.foldLogic ⟨passed.reverse ++ item :: rest, passed.length⟩ =
      fail (.operandMissing op.keyword) := by
  have hlength : passed.length < (passed.reverse ++ item :: rest).length := by simp
  have hmissing : passed.length = 0 ∨
      (passed.reverse ++ item :: rest).length ≤ passed.length + 1 := by
    cases passed with
    | nil => exact .inl rfl
    | cons left passed =>
      cases rest with
      | nil => exact .inr (by simp)
      | cons right rest => exact absurd rfl (hends left passed right rest rfl)
  rw [Cursor.foldLogic, if_pos hlength]
  simp only [index_passed, pure_bind, h, hmissing, if_true]

theorem foldLogic_eq (passed rest : List (Item α)) :
    Cursor.foldLogic ⟨passed.reverse ++ rest, passed.length⟩ =
      ofExcept (Item.foldLogic passed rest) := by
  induction passed, rest using Item.foldLogic.induct with
  | case1 passed =>
    rw [Cursor.foldLogic, Item.foldLogic]
    simp
  | case2 passed item rest hop ih =>
    rw [foldLogic_over passed rest hop, ih, Item.foldLogic.eq_def passed]
    dsimp only
    rw [hop]
  | case3 item op hop left passed right rest ih =>
    have hfold : Item.foldLogic (left :: passed) (item :: right :: rest) = right.toExpr >>= fun r =>
        left.toExpr >>= fun l => Item.foldLogic (.done (.logic op l r) :: passed) rest := by
      rw [Item.foldLogic, hop]
    rw [foldLogic_fold passed rest hop left right, hfold, ofExcept_bind]
    refine bind_congr fun r => ?_
    rw [ofExcept_bind]
    exact bind_congr fun l => ih r l
  | case4 passed item rest op hop hends =>
    rw [foldLogic_missing passed rest hop hends, Item.foldLogic.eq_def]
    simp only [hop]
    rfl

theorem single_eq (items : List (Item α)) : single items = ofExcept (Item.single items) := by
  match items with
  | [] => rfl
  | [item] => exact toExpr_eq item
  | _ :: _ :: _ => rfl

/-! ## A level -/

/-- A level that is folded in place stays in bounds, comes to an end and gives what
    it gives over lists. -/
theorem foldLevel_eq (aliases : AliasTable α) (items : List (Item α))
    (queries : Option (OrderedMap String)) :
    foldLevel aliases items queries =
      ofExcept ((Item.foldLevel aliases items).map fun folded =>
        (folded.1, record queries folded.2)) := by
  have hid : ∀ x : Except CompileFault (List (Item α)), x.map ([] ++ ·) = x :=
    fun x => by cases x <;> rfl
  have hcalls : ∀ items : List (Item α),
      Cursor.foldCalls ⟨items, 0⟩ = ofExcept (Item.foldCalls items) :=
    fun items => (foldCalls_eq [] items).trans (congrArg ofExcept (hid _))
  have hhoist : ∀ items : List (Item α),
      Cursor.hoistNots ⟨items, 0⟩ items.length = pure (Item.hoistNots [] items) := by
    intro items
    have h := hoistNots_eq [] items
    rwa [List.length_nil, Nat.zero_add] at h
  have hqueries := fun items : List (Item α) => foldQueries_eq [] items queries
  have hnots : ∀ items : List (Item α),
      Cursor.foldNots ⟨items, 0⟩ = ofExcept (Item.foldNots items) :=
    fun items => (foldNots_eq [] items).trans (congrArg ofExcept (hid _))
  have hlogic := fun items : List (Item α) => foldLogic_eq [] items
  simp only [List.reverse_nil, List.nil_append, List.length_nil] at hqueries hlogic
  rw [foldLevel, Item.foldLevel]
  simp only [hcalls, checkTurns_eq, hhoist, hqueries, hnots, hlogic, single_eq, ofExcept_map,
    ofExcept_bind, ofExcept_pure, bind_assoc, pure_bind]

end FuzzyInference.InPlace
