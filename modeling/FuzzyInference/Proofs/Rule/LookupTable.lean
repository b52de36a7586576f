import FuzzyInference.Proofs.OrderedMap
import FuzzyInference.Proofs.Rule.Asked
import FuzzyInference.Rule.Basic
import FuzzyInference.Scalar.Binary64

/-!
# The lookup table of a rule

A rule lists the inputs that its condition queries, each with the membership of
one query. The table is filled while the condition is compiled, where the
queries of groups come before the ones that the level around them makes itself.
So the inputs are listed by first use, and the membership is the one of the last
use, if no group with queries stands behind a query of its level; otherwise the
first and the last use are those of the recording order. Where no input is
queried twice, that makes a difference whenever there is such a group.

Results:

* `recorded_of_compile`: the lookup table of every rule without aliases.
* `not_tabulates_nestedRule`: it can differ from the order of the text.
-/

namespace FuzzyInference.Rule

open Bracketed Piece

variable {α : Type} [Scalar α]

/-- The words of a rule's condition, behind `IF` and before `THEN`. -/
def conditionWords (line : String) : List String :=
  (Text.statementWords line).tail.takeWhile fun w => !isKeyword "then" w

/-- The inputs of a rule are listed by the first one, and asked for the membership
    of the last one, of certain queries. -/
structure Tabulates (r : Rule α) (queries : List (String × String)) : Prop where
  foundInputs : r.foundInputs = (queries.map (·.1)).eraseDups
  membershipFor : ∀ input, r.membershipFor? input = lookup? input queries.reverse

/-- The lookup table of a rule, whose condition is spelled by nested words. -/
structure Recorded (r : Rule α) (items : List Bracketed) : Prop where
  spelled : ofWords (conditionWords r.source) = .ok ⟨items, false⟩
  queries : r.condition.queries = listed reading items
  table : r.Tabulates (listed recording items)
  once : r.foundInputs.Nodup
  exact : ∀ input, input ∈ r.foundInputs ↔ ∃ membership, (input, membership) ∈ r.condition.queries
  inOrder : LevelInOrder items → r.Tabulates r.condition.queries
  onlyInOrder : (r.condition.queries.map (·.1)).Nodup → r.Tabulates r.condition.queries →
    LevelInOrder items

theorem condition_of_compile {aliases : AliasTable α} {line : String} {r : Rule α}
    (h : Rule.compile aliases line = .ok r) : r.source = line ∧ ∃ queries,
      compileCondition aliases (conditionWords line) = .ok (r.condition, queries) ∧
        r.queries = .ofList queries := by
  unfold Rule.compile at h
  split at h
  · cases h
  · rename_i first ws hwords
    split at h
    · cases h
    · split at h
      · cases h
      · obtain ⟨names, -, h⟩ := bind_eq_ok.1 h
        obtain ⟨⟨e, queries⟩, hcompile, h⟩ := bind_eq_ok.1 h
        cases h
        exact ⟨rfl, queries, by rw [conditionWords, hwords]; exact hcompile, rfl⟩

omit [Scalar α] in
theorem tabulates_ofList {r : Rule α} {queries : List (String × String)}
    (h : r.queries = .ofList queries) : r.Tabulates queries where
  foundInputs := by rw [Rule.foundInputs, h, OrderedMap.keys_ofList]
  membershipFor := fun input => by rw [Rule.membershipFor?, h, OrderedMap.get?_ofList]

omit [Scalar α] in
/-- A table of queries of distinct inputs lists them in their order. -/
theorem Tabulates.foundInputs_of_nodup {r : Rule α} {queries : List (String × String)}
    (h : r.Tabulates queries) (hnodup : (queries.map (·.1)).Nodup) :
    r.foundInputs = queries.map (·.1) := by
  rw [h.foundInputs, ← OrderedMap.keys_ofList, OrderedMap.keys, OrderedMap.entries_ofList hnodup]

/-- A list of queries of distinct inputs is known by the order of its inputs. -/
theorem eq_of_perm_of_inputs {queries queries' : List (String × String)}
    (hperm : queries.Perm queries') (hinputs : queries.map (·.1) = queries'.map (·.1))
    (hnodup : (queries'.map (·.1)).Nodup) :
    queries = queries' := by
  refine List.ext_getElem hperm.length_eq fun i hi hi' => ?_
  have hmem : queries[i] ∈ queries' := hperm.mem_iff.1 (List.getElem_mem hi)
  refine List.inj_on_of_nodup_map hnodup hmem (List.getElem_mem hi') ?_
  have hinput := List.getElem_of_eq hinputs (by rwa [List.length_map])
  rwa [List.getElem_map, List.getElem_map] at hinput

/-- Every rule without aliases has a table of the queries of its text, in recording
    order. -/
theorem recorded_of_compile {aliases : AliasTable α} {line : String} {r : Rule α}
    (hnone : ∀ w ∈ conditionWords line, Unnamed aliases w) (h : Rule.compile aliases line = .ok r) :
    ∃ items, r.Recorded items := by
  obtain ⟨rfl, recorded, hcompile, htable⟩ := condition_of_compile h
  obtain ⟨items, hwords, hqueries, rfl⟩ := queries_of_compileCondition hnone hcompile
  have htabulates := tabulates_ofList htable
  have hperm := listed_perm items
  refine ⟨items, hwords, hqueries, htabulates, r.queries.nodup, fun input => ?_, fun horder => ?_,
    fun hnodup hreading => ?_⟩
  · have hmem : input ∈ (listed recording items).map (·.1) ↔
        input ∈ (listed reading items).map (·.1) :=
      (hperm.map (·.1)).mem_iff
    rw [htabulates.foundInputs, List.mem_eraseDups, hmem, hqueries]
    simp
  · rwa [hqueries, ← listed_of_inOrder horder]
  · rw [hqueries] at hnodup hreading
    have hrecorded := htabulates.foundInputs_of_nodup ((hperm.map (·.1)).nodup_iff.2 hnodup)
    have hinputs := hrecorded.symm.trans (hreading.foundInputs_of_nodup hnodup)
    exact inOrder_of_listed (.of_map _ hnodup) (eq_of_perm_of_inputs hperm hinputs hnodup)

/-- A rule in which a group stands in front of a query. -/
def groupedRule : Rule Float :=
  ⟨"IF (b IS y OR a IS z) AND a IS NOT x THEN r IS q",
    .logic .and (.logic .or (.query "b" "y") (.query "a" "z"))
      (.negation (.query "a" "x")), "r", "q",
    .ofList [("b", "y"), ("a", "z"), ("a", "x")]⟩

theorem compile_groupedRule : Rule.compile .empty groupedRule.source = .ok groupedRule := by cbv

theorem spelled_groupedRule :
    ofWords (conditionWords groupedRule.source) = .ok
      ⟨[.group
          [[.word "b", .word "IS", .word "y", .word "OR", .word "a", .word "IS", .word "z"]],
        .word "AND", .word "a", .word "IS", .word "NOT", .word "x"], false⟩ := by cbv

/-- Its table follows the text. -/
theorem tabulates_groupedRule :
    (∀ w ∈ conditionWords groupedRule.source, Unnamed (.empty : AliasTable Float) w) ∧
      Rule.compile .empty groupedRule.source = .ok groupedRule ∧
      groupedRule.Tabulates groupedRule.condition.queries := by
  have hnone : ∀ w ∈ conditionWords groupedRule.source, Unnamed (.empty : AliasTable Float) w :=
    fun _ _ => rfl
  obtain ⟨items, h⟩ := recorded_of_compile hnone compile_groupedRule
  have hitems := Except.ok.inj (h.spelled.symm.trans spelled_groupedRule)
  cases hitems
  refine ⟨hnone, compile_groupedRule, h.inOrder ?_⟩
  simp [LevelInOrder, ItemsInOrder, InOrder, PartsInOrder, GroupsFirst, pieces, piece,
    Piece.queries]

/-- A rule in which a group stands behind a query. -/
def nestedRule : Rule Float :=
  ⟨"IF a IS x AND (b IS y AND a IS z) THEN r IS q",
    .logic .and (.query "a" "x") (.logic .and (.query "b" "y") (.query "a" "z")), "r", "q",
    .ofList [("b", "y"), ("a", "z"), ("a", "x")]⟩

theorem compile_nestedRule : Rule.compile .empty nestedRule.source = .ok nestedRule := by cbv

/-- Its table is the one of the group, and then of the query in front of it. -/
theorem not_tabulates_nestedRule : Rule.compile .empty nestedRule.source = .ok nestedRule ∧
    nestedRule.condition.queries = [("a", "x"), ("b", "y"), ("a", "z")] ∧
    nestedRule.foundInputs = ["b", "a"] ∧ nestedRule.membershipFor? "a" = some "x" ∧
    ¬ nestedRule.Tabulates nestedRule.condition.queries := by
  have hqueries : nestedRule.condition.queries = [("a", "x"), ("b", "y"), ("a", "z")] := by
    simp [nestedRule, Expr.queries]
  have hfound : nestedRule.foundInputs = ["b", "a"] := by decide
  refine ⟨compile_nestedRule, hqueries, hfound, by decide, fun h => ?_⟩
  have hother := h.foundInputs
  rw [hqueries, hfound] at hother
  exact absurd hother (by decide)

end FuzzyInference.Rule
