import FuzzyInference.Proofs.Rule.QueryOrder
import FuzzyInference.Proofs.Rule.Soundness

/-!
# The queries of compiled conditions

The passes over a level do not move its queries: `NOT` stays within its query,
calls and connectives take their operands from left to right. So a compiled
condition lists its queries in the order of the text. Beside it, compiling lists
the queries in the order in which they are folded, which for a level is after
all of its groups.

Results:

* `Folds.asked`: folding calls leaves the queries of a level.
* `queries_of_foldLevel`: the two lists of queries for one level.
* `queries_of_compileCondition`: the same for the words of a whole condition.
-/

namespace FuzzyInference

namespace Item

open Piece

variable {α : Type}

/-! ## Items and pieces -/

/-- The queries inside of an item. -/
def queries : Item α → List (String × String)
  | .word _ => []
  | .group es => Expr.queriesOf es
  | .done e => e.queries

/-- What an item shows, with the queries that are listed inside of it. -/
def view (inner : Item α → List (String × String)) : Item α → Piece
  | .word w => .word w
  | x => .inside (inner x)

/-- A list of queries inside of items: none in a word, and the same in a call as in
    the group of its arguments. -/
structure IsInner (inner : Item α → List (String × String)) : Prop where
  word : ∀ w, inner (.word w) = []
  call : ∀ f args, inner (.done (.call f args)) = inner (.group args)

theorem isInner_queries : IsInner (queries : Item α → List (String × String)) :=
  ⟨fun _ => rfl, fun _ _ => rfl⟩

theorem isInner_nil : IsInner (fun _ : Item α => []) := ⟨fun _ => rfl, fun _ _ => rfl⟩

theorem mute_view (inner : Item α → List (String × String)) (x : Item α) :
    (x.view inner).mute = x.view fun _ => [] := by
  cases x <;> rfl

theorem toLower_ne_of_isWord {w k : String} (h : (.word w : Item α).isWord k = false) :
    w.toLower ≠ k := by
  simpa [isWord] using h

theorem toLower_ne_of_not_mem {w k : String} (h : w.toLower ∉ reserved) (hk : k ∈ reserved) :
    w.toLower ≠ k :=
  fun heq => h (heq ▸ hk)

section

variable {inner : Item α → List (String × String)}

/-- The queries of a phrase. -/
def Phrase.asked (inner : Item α → List (String × String)) : Phrase α → List (String × String)
  | .item x _ => inner x
  | .query input _ membership .. => [(input, membership)]
  | .negated input _ _ membership .. => [(input, membership)]

theorem asked_phrase (hinner : IsInner inner) (o : Phrase α) (previous : String)
    (rest : List (Item α)) : ∃ last, asked previous ((o.turned ++ rest).map (view inner)) =
      o.asked inner ++ asked last (rest.map (view inner)) := by
  have hnotIs {w : String} (hw : w.toLower ∉ reserved) : w.toLower ≠ "is" :=
    toLower_ne_of_not_mem hw (by simp [reserved])
  have hnotNot {w : String} (hw : w.toLower ∉ reserved) : w.toLower ≠ "not" :=
    toLower_ne_of_not_mem hw (by simp [reserved])
  cases o with
  | item x hx =>
    cases x with
    | word w =>
      have his : w.toLower ≠ "is" :=
        toLower_ne_of_isWord (isWord_of_not_isReserved hx (by simp [reserved]))
      exact ⟨w, by simp [Phrase.turned, Phrase.asked, view, asked, his, hinner.word]⟩
    | group es => exact ⟨"", rfl⟩
    | done e => exact ⟨"", rfl⟩
  | query input is membership hinput his hmembership =>
    exact ⟨membership, by
      simp [Phrase.turned, Phrase.asked, view, asked, Piece.membership, his, hnotIs hinput,
        hnotIs hmembership, hnotNot hmembership]⟩
  | negated input is not membership hinput his hnot hmembership =>
    exact ⟨membership, by
      simp [Phrase.turned, Phrase.asked, view, asked, Piece.membership, his, hnot, hnotIs hinput,
        hnotIs hmembership, hnotNot hmembership]⟩

theorem asked_following (hinner : IsInner inner) (previous : String) (js : List (Joint α)) :
    asked previous ((following Phrase.turned js).map (view inner)) =
      js.flatMap fun j => j.phrase.asked inner := by
  induction js generalizing previous with
  | nil => rfl
  | cons j js ih =>
    have his : j.word.toLower ≠ "is" := toLower_ne_of_isWord (j.isWord (.inl rfl))
    obtain ⟨last, hphrase⟩ := asked_phrase hinner j.phrase j.word (following Phrase.turned js)
    rw [following_cons, List.map_cons, view, asked, if_neg his, hphrase, ih, List.flatMap_cons]

/-- The queries of a well-formed level are those of its phrases, from left to
    right. -/
theorem asked_spread (hinner : IsInner inner) (o : Phrase α) (js : List (Joint α)) :
    asked "" ((spread Phrase.turned o js).map (view inner)) =
      o.asked inner ++ js.flatMap fun j => j.phrase.asked inner := by
  obtain ⟨last, hphrase⟩ := asked_phrase hinner o "" (following Phrase.turned js)
  rw [spread, hphrase, asked_following hinner]

end

/-! ## Words that a query needs -/

/-- Behind `IS` and `NOT` stands a word. -/
def Named (s t : Item α) : Prop := s.isWord "is" = true ∨ s.isWord "not" = true → ∃ w, t = .word w

theorem named_of_isWord {s : Item α} (his : s.isWord "is" = false) (hnot : s.isWord "not" = false)
    (t : Item α) : Named s t := by
  rintro (h | h)
  · exact absurd h (his ▸ Bool.false_ne_true)
  · exact absurd h (hnot ▸ Bool.false_ne_true)

theorem named_of_not_isReserved {s : Item α} (hs : s.isReserved = false) (t : Item α) : Named s t :=
  named_of_isWord (isWord_of_not_isReserved hs (by simp [reserved]))
    (isWord_of_not_isReserved hs (by simp [reserved])) t

theorem isChain_cons_of_named {s : Item α} {rest : List (Item α)} (hs : ∀ t, Named s t)
    (h : rest.IsChain Named) : (s :: rest).IsChain Named :=
  List.isChain_cons.2 ⟨fun t _ => hs t, h⟩

theorem isChain_phrase (o : Phrase α) {rest : List (Item α)} (h : rest.IsChain Named) :
    (o.turned ++ rest).IsChain Named := by
  have hname {w : String} (hw : w.toLower ∉ reserved) : ∀ t : Item α, Named (.word w) t :=
    named_of_not_isReserved (isReserved_of_not_mem hw)
  cases o with
  | item x hx => exact isChain_cons_of_named (named_of_not_isReserved hx) h
  | query input is membership hinput his hmembership =>
    refine isChain_cons_of_named (hname hinput) ?_
    exact .cons_cons (fun _ => ⟨membership, rfl⟩) (isChain_cons_of_named (hname hmembership) h)
  | negated input is not membership hinput his hnot hmembership =>
    refine isChain_cons_of_named (hname hinput) ?_
    exact .cons_cons (fun _ => ⟨not, rfl⟩)
      (.cons_cons (fun _ => ⟨membership, rfl⟩) (isChain_cons_of_named (hname hmembership) h))

theorem isChain_spread (o : Phrase α) (js : List (Joint α)) :
    (spread Phrase.turned o js).IsChain Named := by
  refine isChain_phrase o ?_
  induction js with
  | nil => exact .nil
  | cons j js ih =>
    rw [following_cons]
    exact isChain_cons_of_named (named_of_isWord (j.isWord (.inl rfl)) (j.isWord (.inr rfl)))
      (isChain_phrase j.phrase ih)

/-! ## Calls -/

section

variable {inner : Item α → List (String × String)} {items items' : List (Item α)}

theorem Folds.membership (h : Folds items items') (hchain : items'.IsChain Named)
    (hword : ∀ t ∈ items'.head?, ∃ w, t = .word w) :
    Piece.membership (items.map (view inner)) = Piece.membership (items'.map (view inner)) := by
  induction h with
  | nil => rfl
  | @keep x rest rest' _ ih =>
    obtain ⟨w, rfl⟩ := hword x rfl
    obtain ⟨hnamed, hrest⟩ := List.isChain_cons.1 hchain
    rw [List.map_cons, List.map_cons, view, Piece.membership, Piece.membership]
    split
    · rename_i hnot
      exact ih hrest fun t ht => hnamed t ht (.inr (isWord_self hnot))
    · rfl
  | call _ _ _ =>
    obtain ⟨w, hw⟩ := hword _ rfl
    cases hw

/-- Folding calls leaves the queries of a level where every query has its words. -/
theorem Folds.asked (hinner : IsInner inner) (h : Folds items items')
    (hchain : items'.IsChain Named) (previous : String) :
    Piece.asked previous (items.map (view inner)) =
      Piece.asked previous (items'.map (view inner)) := by
  induction h generalizing previous with
  | nil => rfl
  | @keep x rest rest' hfolds ih =>
    obtain ⟨hnamed, hrest⟩ := List.isChain_cons.1 hchain
    cases x with
    | word w =>
      rw [List.map_cons, List.map_cons, view, Piece.asked, Piece.asked, ih hrest w]
      split
      · rename_i his
        rw [hfolds.membership hrest fun t ht => hnamed t ht (.inl (isWord_self his))]
      · rfl
    | group es => exact congrArg (inner (.group es) ++ ·) (ih hrest "")
    | done e => exact congrArg (inner (.done e) ++ ·) (ih hrest "")
  | @call w f args rest rest' hf _ ih =>
    -- A function is no `IS`, and a call stands where its arguments stood, so both sides go on
    -- alike.
    have his : w.toLower ≠ "is" := by
      intro his
      simp [RuleFunction.ofKeyword?, his] at hf
    have hrest := (List.isChain_cons.1 hchain).2
    simp only [List.map_cons, view, Piece.asked, if_neg his, hinner.call, ih hrest ""]

end

/-! ## Conditions -/

section

variable [Scalar α]

theorem queries_of_toExpr {o : Phrase α} {l : Expr α} (h : o.folded.toExpr = .ok l) :
    l.queries = o.asked queries := by
  cases o with
  | item x hx =>
    cases x with
    | word w =>
      simp only [Phrase.folded, toExpr] at h
      split at h
      · cases h
        rfl
      · cases h
    | group es =>
      cases es with
      | nil => cases h
      | cons e es =>
        cases es with
        | nil =>
          cases h
          exact (List.append_nil _).symm
        | cons _ _ => cases h
    | done e =>
      cases h
      rfl
  | query =>
    cases h
    rfl
  | negated =>
    cases h
    simp [Expr.queries, Phrase.asked]

theorem queries_of_joined? {l e : Expr α} {js : List (Joint α)} (h : joined? l js = .ok e) :
    e.queries = l.queries ++ js.flatMap fun j => j.phrase.asked queries := by
  induction js generalizing l with
  | nil =>
    cases h
    exact (List.append_nil _).symm
  | cons j js ih =>
    obtain ⟨r, hr, h⟩ := bind_eq_ok.1 h
    rw [ih h, Expr.queries_logic, queries_of_toExpr hr, List.flatMap_cons, List.append_assoc]

/-- A level has the queries that its text shows, and lists the ones that it makes
    itself. -/
theorem queries_of_foldLevel {aliases : AliasTable α} {items : List (Item α)} {e : Expr α}
    {listed : List (String × String)} (hplain : items.map (expand aliases) = items)
    (h : foldLevel aliases items = .ok (e, listed)) :
    e.queries = reading (items.map (view queries)) ∧
    listed = own "" (items.map (view queries)) := by
  obtain ⟨o, js, hcalls⟩ := spread_of_foldLevel h
  obtain ⟨rfl, l, hl, he⟩ := (foldLevel_spread hcalls e listed).1 h
  rw [hplain] at hcalls
  have hfolds := folds_of_foldCalls hcalls
  have hchain := isChain_spread o js
  constructor
  · rw [reading, hfolds.asked isInner_queries hchain, asked_spread isInner_queries,
      queries_of_joined? he, queries_of_toExpr hl]
  · have hmute : (items.map (view queries)).map mute = items.map (view fun _ => []) := by
      rw [List.map_map]
      exact List.map_congr_left fun x _ => mute_view queries x
    have hown : ∀ o : Phrase α, o.asked (fun _ => []) = o.own := fun o => by cases o <;> rfl
    rw [own, hmute, hfolds.asked isInner_nil hchain, asked_spread isInner_nil]
    simp only [hown, ownQueries]

end

end Item

namespace Bracketed

open Item Piece

variable {α : Type} [Scalar α] {aliases : AliasTable α}

/-! ## Nested words -/

/-- A word that is not the name of a condition. -/
def Unnamed (aliases : AliasTable α) (w : String) : Prop := aliases.get? w = none

mutual

theorem view_of_compileItem {b : Bracketed} {ws : List String} {x : Item α}
    {recorded : List (String × String)} (h : Spells (Unnamed aliases) b ws)
    (hx : compileItem aliases b = .ok (x, recorded)) :
    x.expand aliases = x ∧ x.view Item.queries = piece reading b ∧
      recorded = (piece recording b).queries :=
  match h with
  | @Spells.word _ w hw => by
    cases hx
    exact ⟨by simp [expand, show aliases.get? w = none from hw], rfl, rfl⟩
  | @Spells.group _ parts ws hparts => by
    by_cases hempty : parts = [[]]
    · subst hempty
      cases hx
      exact ⟨rfl, rfl, rfl⟩
    · rw [Condition.compileItem_group hempty] at hx
      cases hes : compileParts aliases parts with
      | error fault => simp [hes, Except.map] at hx
      | ok compiled =>
        obtain ⟨hqueries, hrecorded⟩ := listed_of_compileParts hparts hes
        rw [hes] at hx
        cases hx
        exact ⟨rfl, congrArg inside hqueries, hrecorded⟩

theorem views_of_compileItems {bs : List Bracketed} {ws : List String} {items : List (Item α)}
    {recorded : List (String × String)} (h : SpellsItems (Unnamed aliases) bs ws)
    (hitems : compileItems aliases bs = .ok (items, recorded)) :
    items.map (expand aliases) = items ∧ items.map (view Item.queries) = pieces reading bs ∧
      recorded = (pieces recording bs).flatMap Piece.queries :=
  match h with
  | .nil => by
    cases hitems
    exact ⟨rfl, rfl, rfl⟩
  | .cons hb hbs => by
    rw [compileItems.eq_def] at hitems
    obtain ⟨⟨x, q₁⟩, hx, hitems⟩ := bind_eq_ok.1 hitems
    obtain ⟨⟨xs, q₂⟩, hxs, hitems⟩ := bind_eq_ok.1 hitems
    cases hitems
    obtain ⟨hplain, hview, rfl⟩ := view_of_compileItem hb hx
    obtain ⟨hplains, hviews, rfl⟩ := views_of_compileItems hbs hxs
    exact ⟨congrArg₂ List.cons hplain hplains, congrArg₂ List.cons hview hviews, rfl⟩

theorem listed_of_compileParts {parts : List (List Bracketed)} {ws : List String}
    {es : List (Expr α)} {recorded : List (String × String)}
    (h : SpellsParts (Unnamed aliases) parts ws)
    (hes : compileParts aliases parts = .ok (es, recorded)) :
    Expr.queriesOf es = partsListed reading parts ∧ recorded = partsListed recording parts :=
  match h with
  | .last hbs => by
    obtain ⟨-, items, inner, e, own, es', rest, hitems, hfold, hparts, rfl, rfl⟩ :=
      Condition.compileParts_cons.1 hes
    cases hparts
    obtain ⟨hqueries, hrecorded⟩ := queries_of_level hbs hitems hfold
    exact ⟨congrArg (· ++ []) hqueries, congrArg (· ++ []) hrecorded⟩
  | .more hbs hmore => by
    obtain ⟨-, items, inner, e, own, es', rest, hitems, hfold, hparts, rfl, rfl⟩ :=
      Condition.compileParts_cons.1 hes
    obtain ⟨hqueries, hrecorded⟩ := queries_of_level hbs hitems hfold
    obtain ⟨hmore, rfl⟩ := listed_of_compileParts hmore hparts
    exact ⟨congrArg₂ (· ++ ·) hqueries hmore, congrArg (· ++ _) hrecorded⟩

/-- A level lists its queries in recording order, and its condition has them in
    reading order. -/
theorem queries_of_level {bs : List Bracketed} {ws : List String}
    {items : List (Item α)} {e : Expr α} {inner own : List (String × String)}
    (h : SpellsItems (Unnamed aliases) bs ws)
    (hitems : compileItems aliases bs = .ok (items, inner))
    (hfold : foldLevel aliases items = .ok (e, own)) :
    e.queries = listed reading bs ∧ inner ++ own = listed recording bs := by
  obtain ⟨hplain, hviews, rfl⟩ := views_of_compileItems h hitems
  obtain ⟨hqueries, rfl⟩ := queries_of_foldLevel hplain hfold
  rw [hviews] at hqueries ⊢
  exact ⟨hqueries, congrArg (_ ++ ·) (own_pieces reading recording bs)⟩

end

/-- A condition without aliases has its queries in reading order, and lists them in
    recording order. -/
theorem queries_of_compileCondition {ws : List String} {e : Expr α}
    {recorded : List (String × String)} (hnone : ∀ w ∈ ws, Unnamed aliases w)
    (h : compileCondition aliases ws = .ok (e, recorded)) :
    ∃ items, ofWords ws = .ok ⟨items, false⟩ ∧ e.queries = listed reading items ∧
      recorded = listed recording items := by
  obtain ⟨⟨bs, stray⟩, hwords, h⟩ := bind_eq_ok.1 h
  obtain ⟨⟨items, inner⟩, hitems, h⟩ := bind_eq_ok.1 h
  cases stray with
  | true => cases h
  | false =>
    obtain ⟨⟨e', own⟩, hfold, h⟩ := bind_eq_ok.1 h
    cases h
    have hspells := (spells_of_ofWords hwords).of_forall hnone
    obtain ⟨hqueries, hrecorded⟩ := queries_of_level hspells hitems hfold
    exact ⟨bs, hwords, hqueries, hrecorded⟩

end Bracketed

end FuzzyInference
