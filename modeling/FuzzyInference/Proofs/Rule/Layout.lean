import FuzzyInference.Proofs.Rule.ImportLines
import FuzzyInference.Scalar.Binary64
import Mathlib.Logic.Relation

/-!
# The layout of rule text

Rule text that starts with a statement imports as its definitions and its rules,
each in their order. How the statements are laid out is of no account: skipped
lines and comments may come and go, a statement may be spread over lines at any
word that does not start a statement itself, and definitions and rules may be
mixed in any way.

Results:

* `statementsFrom_wrap`: a line and its two parts continue a statement alike.
* `statements_blocks`: the statements of a text that is cut into them.
* `IsHeaded.exists_blocks`: a text that starts with a statement can be cut.
* `Relayout.agrees`: one change of the layout keeps both sequences.
* `ofLines_relayout`: so do all changes together, and the import depends on
  nothing else.
-/

namespace FuzzyInference

open Text

/-! ## Steps -/

theorem statementsFrom_start {line : String} {kind : StatementKind}
    (h : startedBy? line = some kind) (current : Option (StatementKind × String))
    (rest : List String) :
    statementsFrom current (line :: rest) =
      ((statementsFrom (some (kind, line)) rest).1,
        current.toList ++ (statementsFrom (some (kind, line)) rest).2) := by
  cases current <;> simp only [statementsFrom, h]

theorem statementsFrom_continue {line : String} (h : startedBy? line = none) (kind : StatementKind)
    (text : String) (rest : List String) :
    statementsFrom (some (kind, text)) (line :: rest) =
      statementsFrom (some (kind, text ++ " " ++ line)) rest := by
  simp only [statementsFrom, h]

/-- Lines that start nothing are joined behind the statement. -/
theorem statementsFrom_continues {lines : List String} (h : ∀ line ∈ lines, startedBy? line = none)
    (kind : StatementKind) (text : String) (rest : List String) :
    statementsFrom (some (kind, text)) (lines ++ rest) =
      statementsFrom (some (kind, " ".intercalate (text :: lines))) rest := by
  induction lines generalizing text with
  | nil => rw [List.nil_append, String.intercalate_singleton]
  | cons line lines ih =>
    obtain ⟨hline, hlines⟩ := List.forall_mem_cons.1 h
    rw [List.cons_append, statementsFrom_continue hline, ih hlines, String.intercalate_cons_append,
      String.intercalate_cons_cons]

/-! ## Texts that start with a statement -/

/-- The kind of statement that a line of rule text starts. -/
def starts? (line : String) : Option StatementKind := (cleanLine? line).bind startedBy?

/-- The first line that is not skipped starts a statement. -/
def IsHeaded (lines : List String) : Prop :=
  ∀ line ∈ (lines.filterMap cleanLine?).head?, startedBy? line ≠ none

/-- Every line of a headed text belongs to a statement. -/
theorem statementsFrom_some (kind : StatementKind) (text : String) (lines : List String) :
    (statementsFrom (some (kind, text)) lines).1 = [] := by
  induction lines generalizing kind text with
  | nil => rfl
  | cons line lines ih =>
    rw [statementsFrom]
    split
    · exact ih _ _
    · exact ih _ _

theorem IsHeaded.unbound_eq_nil {lines : List String} (h : IsHeaded lines) :
    (statements lines).1 = [] := by
  unfold statements
  unfold IsHeaded at h
  cases hclean : lines.filterMap cleanLine? with
  | nil => rfl
  | cons line rest =>
    rw [hclean] at h
    rw [statementsFrom]
    split
    · exact statementsFrom_some _ _ _
    · rename_i hnone
      exact absurd hnone (h line rfl)

/-! ## Wrapped lines -/

/-- A word that can stand in a line: it is not empty and has no blank and no comment
    sign. -/
structure IsBare (w : String) : Prop where
  ne_empty : w ≠ ""
  no_blank : ∀ c ∈ w.toList, isBlank c = false
  no_sign : '#' ∉ w.toList

instance (w : String) : Decidable (IsBare w) :=
  decidable_of_iff (w ≠ "" ∧ (w.toList.all fun c => !isBlank c) = true ∧ '#' ∉ w.toList)
    ⟨fun ⟨hne, hblank, hsign⟩ => ⟨hne, by simpa using hblank, hsign⟩,
      fun h => ⟨h.ne_empty, by simpa using h.no_blank, h.no_sign⟩⟩

theorem sign_not_mem_intercalate {ws : List String} (h : ∀ w ∈ ws, IsBare w) :
    '#' ∉ (" ".intercalate ws).toList := by
  induction ws with
  | nil => exact List.not_mem_nil
  | cons w ws ih =>
    obtain ⟨hw, hws⟩ := List.forall_mem_cons.1 h
    by_cases hnil : ws = []
    · rw [hnil, String.intercalate_singleton]
      exact hw.no_sign
    · rw [toList_intercalate_cons hnil, List.mem_append, List.mem_cons, not_or, not_or]
      exact ⟨hw.no_sign, by decide, ih hws⟩

/-- Joined words are a clean line. -/
theorem cleanLine?_intercalate {ws : List String} (hne : ws ≠ []) (h : ∀ w ∈ ws, IsBare w) :
    cleanLine? (" ".intercalate ws) = some (" ".intercalate ws) := by
  have hwords : ∀ w ∈ ws, w ≠ "" ∧ ∀ c ∈ w.toList, isBlank c = false := fun w hw =>
    ⟨(h w hw).ne_empty, (h w hw).no_blank⟩
  rw [cleanLine?_eq, uncommented_of_not_mem (sign_not_mem_intercalate h),
    trimmed_intercalate hwords, if_neg (toList_intercalate_ne_nil hne hwords), String.ofList_toList]

theorem startedBy?_intercalate {w : String} {ws : List String} (h : ∀ v ∈ w :: ws, IsBare v) :
    startedBy? (" ".intercalate (w :: ws)) =
      if isKeyword "def" w then some .alias else if isKeyword "if" w then some .rule else none := by
  rw [startedBy?, words_intercalate fun v hv => ⟨(h v hv).ne_empty, (h v hv).no_blank⟩]

/-- A line and its two parts continue a statement alike, or start one alike. -/
theorem statementsFrom_wrap {whole front back : String} {current : Option (StatementKind × String)}
    (hwhole : whole = front ++ " " ++ back) (hfront : startedBy? front = startedBy? whole)
    (hback : startedBy? back = none) (hcurrent : current ≠ none ∨ startedBy? whole ≠ none)
    (rest : List String) :
    statementsFrom current (whole :: rest) = statementsFrom current (front :: back :: rest) := by
  cases hkind : startedBy? whole with
  | some kind =>
    rw [hkind] at hfront
    rw [statementsFrom_start hkind, statementsFrom_start hfront,
      statementsFrom_continue hback, ← hwhole]
  | none =>
    rw [hkind] at hfront
    cases current with
    | none => exact absurd hkind (hcurrent.resolve_left fun h => h rfl)
    | some statement =>
      rw [statementsFrom_continue hkind, statementsFrom_continue hfront,
        statementsFrom_continue hback, hwhole, ← String.append_assoc, ← String.append_assoc]

/-- What the lines behind others make does not depend on how they are laid out. -/
theorem statementsFrom_append_congr {lines lines' : List String}
    (h : ∀ statement, statementsFrom (some statement) lines =
      statementsFrom (some statement) lines')
    (statement : StatementKind × String) (front : List String) :
    statementsFrom (some statement) (front ++ lines) =
      statementsFrom (some statement) (front ++ lines') := by
  induction front generalizing statement with
  | nil => exact h statement
  | cons line front ih =>
    rw [List.cons_append, List.cons_append, statementsFrom, statementsFrom]
    split
    · rw [ih]
    · exact ih _

/-! ## Blocks -/

/-- The lines of one statement: the one that starts it, and lines that start
    none. -/
structure Block where
  kind : StatementKind
  first : String
  rest : List String
  starts : starts? first = some kind
  continues : ∀ line ∈ rest, starts? line = none

namespace Block

/-- The lines of a block. -/
def lines (b : Block) : List String := b.first :: b.rest

/-- The statement of a block, on one line. -/
def text (b : Block) : String := " ".intercalate (b.lines.filterMap cleanLine?)

end Block

theorem startedBy?_of_continues {lines : List String} (h : ∀ line ∈ lines, starts? line = none)
    {line : String} (hline : line ∈ lines.filterMap cleanLine?) : startedBy? line = none := by
  obtain ⟨source, hsource, hclean⟩ := List.mem_filterMap.1 hline
  have hnone := h source hsource
  rwa [starts?, hclean] at hnone

/-- The statements of blocks are theirs, in order. -/
theorem statementsFrom_blocks (current : Option (StatementKind × String)) (bs : List Block) :
    statementsFrom current ((bs.flatMap Block.lines).filterMap cleanLine?) =
      ([], current.toList ++ bs.map fun b => (b.kind, b.text)) := by
  induction bs generalizing current with
  | nil => rw [List.map_nil, List.append_nil]; rfl
  | cons b bs ih =>
    obtain ⟨first, hfirst, hkind⟩ := Option.bind_eq_some_iff.1 b.starts
    have hclean : b.lines.filterMap cleanLine? = first :: b.rest.filterMap cleanLine? :=
      List.filterMap_cons_some hfirst
    rw [List.flatMap_cons, List.filterMap_append, hclean, List.cons_append,
      statementsFrom_start hkind, statementsFrom_continues fun line =>
        startedBy?_of_continues b.continues, ← hclean, ih]
    rfl

theorem filterMap_cleanLine?_of_isSkipped {lead : List String} (h : ∀ line ∈ lead, IsSkipped line) :
    lead.filterMap cleanLine? = [] :=
  List.filterMap_eq_nil_iff.2 fun line hline => cleanLine?_eq_none_iff.2 (h line hline)

theorem statements_blocks {lead : List String} (hlead : ∀ line ∈ lead, IsSkipped line)
    (bs : List Block) :
    statements (lead ++ bs.flatMap Block.lines) = ([], bs.map fun b => (b.kind, b.text)) := by
  rw [statements, List.filterMap_append, filterMap_cleanLine?_of_isSkipped hlead, List.nil_append,
    statementsFrom_blocks]
  rfl

theorem ofKind_blocks (kind : StatementKind) (bs : List Block) :
    ofKind kind (bs.map fun b => (b.kind, b.text)) =
      (bs.filter fun b => b.kind = kind).map Block.text := by
  induction bs with
  | nil => rfl
  | cons b bs ih =>
    unfold ofKind at ih ⊢
    by_cases hkind : b.kind = kind <;> simp [hkind, ih]

theorem isHeaded_blocks {lead : List String} (hlead : ∀ line ∈ lead, IsSkipped line)
    (bs : List Block) : IsHeaded (lead ++ bs.flatMap Block.lines) := by
  rw [IsHeaded, List.filterMap_append, filterMap_cleanLine?_of_isSkipped hlead, List.nil_append]
  cases bs with
  | nil => nofun
  | cons b bs =>
    obtain ⟨first, hfirst, hkind⟩ := Option.bind_eq_some_iff.1 b.starts
    rw [List.flatMap_cons, Block.lines, List.cons_append, List.filterMap_cons_some hfirst]
    rintro line ⟨⟩
    rw [hkind]
    nofun

/-- Lines are lines that start nothing, and blocks. -/
theorem exists_blocks (lines : List String) :
    ∃ lead, ∃ bs : List Block, lines = lead ++ bs.flatMap Block.lines ∧
      ∀ line ∈ lead, starts? line = none := by
  induction lines with
  | nil => exact ⟨[], [], rfl, nofun⟩
  | cons line lines ih =>
    obtain ⟨lead, bs, rfl, hlead⟩ := ih
    cases hstarts : starts? line with
    | none => exact ⟨line :: lead, bs, rfl, List.forall_mem_cons.2 ⟨hstarts, hlead⟩⟩
    | some kind => exact ⟨[], ⟨kind, line, lead, hstarts, hlead⟩ :: bs, rfl, nofun⟩

/-- A text that starts with a statement is skipped lines and blocks. -/
theorem IsHeaded.exists_blocks {lines : List String} (h : IsHeaded lines) :
    ∃ lead, ∃ bs : List Block, lines = lead ++ bs.flatMap Block.lines ∧
      ∀ line ∈ lead, IsSkipped line := by
  obtain ⟨lead, bs, rfl, hlead⟩ := FuzzyInference.exists_blocks lines
  suffices hskipped : lead.filterMap cleanLine? = [] from
    ⟨lead, bs, rfl, fun line hline =>
      cleanLine?_eq_none_iff.1 (List.filterMap_eq_nil_iff.1 hskipped line hline)⟩
  cases hclean : lead.filterMap cleanLine? with
  | nil => rfl
  | cons line rest =>
    rw [IsHeaded, List.filterMap_append, hclean] at h
    have hnone : startedBy? line = none :=
      startedBy?_of_continues hlead (hclean ▸ List.mem_cons_self)
    exact absurd hnone (h line rfl)

/-! ## Changes of the layout -/

/-- One change of how statements are laid out. -/
inductive Relayout : List String → List String → Prop
  /-- A line that is blank or a comment comes in. -/
  | skip (front back : List String) {line : String} (h : IsSkipped line) :
    Relayout (front ++ back) (front ++ line :: back)
  /-- A comment is put behind a line. -/
  | comment (front back : List String) (line : String) {blank : String}
    (h : ∀ c ∈ blank.toList, isBlank c = true) (text : String) :
    Relayout (front ++ line :: back) (front ++ (line ++ blank ++ "#" ++ text) :: back)
  /-- A line of words is broken before a word that starts no statement. -/
  | wrap (front back : List String) {w v : String} {ws vs : List String}
    (hbare : ∀ u ∈ (w :: ws) ++ (v :: vs), IsBare u) (h : v.toLower ≠ "if" ∧ v.toLower ≠ "def") :
    Relayout (front ++ " ".intercalate ((w :: ws) ++ (v :: vs)) :: back)
      (front ++ " ".intercalate (w :: ws) :: " ".intercalate (v :: vs) :: back)
  /-- Statements change places, but not with others of their kind. -/
  | reorder {lead : List String} (hlead : ∀ line ∈ lead, IsSkipped line) {bs bs' : List Block}
    (h : ∀ kind, (bs.filter fun b => b.kind = kind) = bs'.filter fun b => b.kind = kind) :
    Relayout (lead ++ bs.flatMap Block.lines) (lead ++ bs'.flatMap Block.lines)

/-- Both texts start with a statement or neither does, and then they have the same
    definitions in order and the same rules in order. -/
structure AgreeInOrder (lines lines' : List String) : Prop where
  isHeaded_iff : IsHeaded lines ↔ IsHeaded lines'
  ofKind_eq : IsHeaded lines → ∀ kind,
    ofKind kind (statements lines).2 = ofKind kind (statements lines').2

theorem AgreeInOrder.of_clean {lines lines' : List String}
    (h : lines.filterMap cleanLine? = lines'.filterMap cleanLine?) : AgreeInOrder lines lines' where
  isHeaded_iff := by rw [IsHeaded, h, IsHeaded]
  ofKind_eq _ kind := by rw [statements, h, statements]

theorem AgreeInOrder.symm {lines lines' : List String} (h : AgreeInOrder lines lines') :
    AgreeInOrder lines' lines where
  isHeaded_iff := h.isHeaded_iff.symm
  ofKind_eq hheaded kind := (h.ofKind_eq (h.isHeaded_iff.2 hheaded) kind).symm

theorem AgreeInOrder.trans {lines lines' lines'' : List String} (h : AgreeInOrder lines lines')
    (h' : AgreeInOrder lines' lines'') : AgreeInOrder lines lines'' where
  isHeaded_iff := h.isHeaded_iff.trans h'.isHeaded_iff
  ofKind_eq hheaded kind :=
    (h.ofKind_eq hheaded kind).trans (h'.ofKind_eq (h.isHeaded_iff.1 hheaded) kind)

/-- A broken line is read like the whole one behind a statement, and if it starts
    one. -/
theorem statements_wrap {clean rest : List String} {whole front back : String}
    (hwhole : whole = front ++ " " ++ back) (hfront : startedBy? front = startedBy? whole)
    (hback : startedBy? back = none)
    (hheaded : ∀ line ∈ (clean ++ whole :: rest).head?, startedBy? line ≠ none) :
    statementsFrom none (clean ++ whole :: rest) =
      statementsFrom none (clean ++ front :: back :: rest) := by
  cases clean with
  | nil => exact statementsFrom_wrap hwhole hfront hback (.inr (hheaded whole rfl)) rest
  | cons line clean =>
    -- From the first line on there is a statement that the broken line can continue.
    obtain ⟨kind, hkind⟩ := Option.ne_none_iff_exists'.1 (hheaded line rfl)
    have hbehind := statementsFrom_append_congr
      (fun statement => statementsFrom_wrap hwhole hfront hback
        (.inl (Option.some_ne_none statement)) rest)
      (kind, line) clean
    rw [List.cons_append, List.cons_append, statementsFrom_start hkind,
      statementsFrom_start hkind, hbehind]

theorem AgreeInOrder.wrap (before after : List String) {w v : String} {ws vs : List String}
    (hbare : ∀ u ∈ (w :: ws) ++ (v :: vs), IsBare u) (h : v.toLower ≠ "if" ∧ v.toLower ≠ "def") :
    AgreeInOrder (before ++ " ".intercalate ((w :: ws) ++ (v :: vs)) :: after)
      (before ++ " ".intercalate (w :: ws) :: " ".intercalate (v :: vs) :: after) := by
  obtain ⟨hws, hvs⟩ := List.forall_mem_append.1 hbare
  have hwhole : " ".intercalate ((w :: ws) ++ (v :: vs)) =
      " ".intercalate (w :: ws) ++ " " ++ " ".intercalate (v :: vs) :=
    String.intercalate_append_of_ne_nil (List.cons_ne_nil _ _) (List.cons_ne_nil _ _)
  have hfront : startedBy? (" ".intercalate (w :: ws)) =
      startedBy? (" ".intercalate ((w :: ws) ++ (v :: vs))) := by
    rw [startedBy?_intercalate hws]
    exact (startedBy?_intercalate hbare).symm
  have hback : startedBy? (" ".intercalate (v :: vs)) = none := by
    rw [startedBy?_intercalate hvs]
    simp [isKeyword, h]
  have hclean : (before ++ " ".intercalate ((w :: ws) ++ (v :: vs)) :: after).filterMap cleanLine? =
      before.filterMap cleanLine? ++ " ".intercalate ((w :: ws) ++ (v :: vs)) ::
        after.filterMap cleanLine? := by
    have hline : cleanLine? (" ".intercalate ((w :: ws) ++ (v :: vs))) =
        some (" ".intercalate ((w :: ws) ++ (v :: vs))) :=
      cleanLine?_intercalate (List.cons_ne_nil _ _) hbare
    rw [List.filterMap_append, List.filterMap_cons_some hline]
  have hclean' :
      (before ++ " ".intercalate (w :: ws) :: " ".intercalate (v :: vs) ::
        after).filterMap cleanLine? =
      before.filterMap cleanLine? ++ " ".intercalate (w :: ws) :: " ".intercalate (v :: vs) ::
        after.filterMap cleanLine? := by
    rw [List.filterMap_append,
      List.filterMap_cons_some (cleanLine?_intercalate (List.cons_ne_nil _ _) hws),
      List.filterMap_cons_some (cleanLine?_intercalate (List.cons_ne_nil _ _) hvs)]
  constructor
  · -- Only the first of the cleaned lines counts, and both of its forms start with the same word.
    rw [IsHeaded, IsHeaded, hclean, hclean']
    cases before.filterMap cleanLine? with
    | nil => simp [hfront]
    | cons line rest => rfl
  · intro hheaded kind
    rw [IsHeaded, hclean] at hheaded
    rw [statements, statements, hclean, hclean', statements_wrap hwhole hfront hback hheaded]

theorem Relayout.agrees {lines lines' : List String} (h : Relayout lines lines') :
    AgreeInOrder lines lines' := by
  cases h with
  | skip front back hline =>
    refine .of_clean ?_
    rw [List.filterMap_append, List.filterMap_append,
      List.filterMap_cons_none (cleanLine?_eq_none_iff.2 hline)]
  | comment front back line hblank text =>
    refine .of_clean ?_
    rw [List.filterMap_append, List.filterMap_append, List.filterMap_cons, List.filterMap_cons,
      cleanLine?_comment hblank]
  | wrap front back hbare hword => exact .wrap front back hbare hword
  | reorder hlead hkinds =>
    refine ⟨iff_of_true (isHeaded_blocks hlead _) (isHeaded_blocks hlead _), fun _ kind => ?_⟩
    rw [statements_blocks hlead, statements_blocks hlead, ofKind_blocks, ofKind_blocks, hkinds]

theorem agreeInOrder_of_relayout {lines lines' : List String}
    (h : Relation.EqvGen Relayout lines lines') : AgreeInOrder lines lines' := by
  induction h with
  | rel _ _ hstep => exact hstep.agrees
  | refl _ => exact .of_clean rfl
  | symm _ _ _ ih => exact ih.symm
  | trans _ _ _ _ _ ih ih' => exact ih.trans ih'

variable {α : Type} [Scalar α]

/-- What an import makes of the lines without a statement, the definitions and the
    rules. -/
theorem RuleImport.ofLines_eq (lines : List String) :
    (RuleImport.ofLines lines : RuleImport α) =
      let aliases := importAliases .empty ((ofKind .alias (statements lines).2).zipIdx 1)
      let rules := importRules aliases.1 ((ofKind .rule (statements lines).2).zipIdx 1)
      ⟨rules.1, aliases.1, (statements lines).1.map unboundError ++ aliases.2 ++ rules.2⟩ := rfl

/-- Texts that start with a statement and have the same definitions and the same
    rules in order import into the same. -/
theorem RuleImport.ofLines_of_ofKind {lines lines' : List String} (h : IsHeaded lines)
    (h' : IsHeaded lines')
    (hkinds : ∀ kind, ofKind kind (statements lines).2 = ofKind kind (statements lines').2) :
    (RuleImport.ofLines lines : RuleImport α) = .ofLines lines' := by
  rw [ofLines_eq, ofLines_eq, hkinds, hkinds, h.unbound_eq_nil, h'.unbound_eq_nil]

/-- An import of a text that starts with a statement depends only on its definitions
    and its rules, each in order. It stays the same under any changes of the layout:
    lines that are skipped and comments that come and go, lines that are broken and
    joined, and statements that change places with others of the other kind. -/
theorem ofLines_relayout {lines : List String} (h : IsHeaded lines) :
    (∀ lines', IsHeaded lines' →
      (∀ kind, ofKind kind (statements lines).2 = ofKind kind (statements lines').2) →
      (RuleImport.ofLines lines : RuleImport α) = .ofLines lines') ∧
    ∀ lines', Relation.EqvGen Relayout lines lines' →
      IsHeaded lines' ∧ (RuleImport.ofLines lines : RuleImport α) = .ofLines lines' := by
  refine ⟨fun lines' => RuleImport.ofLines_of_ofKind h, fun lines' hlayout => ?_⟩
  have hagree := agreeInOrder_of_relayout hlayout
  have hheaded' : IsHeaded lines' := hagree.isHeaded_iff.1 h
  exact ⟨hheaded', RuleImport.ofLines_of_ofKind h hheaded' (hagree.ofKind_eq h)⟩

/-- A definition and two rules. -/
def fanLines : List String :=
  ["DEF cold IS t IS low", "IF cold THEN fan IS slow", "IF t IS high THEN fan IS fast"]

/-- The same with the first rule ahead of the definition, on two lines, and with
    comments. -/
def fanLinesApart : List String :=
  [" # fans", "IF cold # chilly", "THEN fan IS slow", "DEF cold IS t IS low",
    "IF t IS high THEN fan IS fast"]

theorem relayout_fanLines : Relation.EqvGen Relayout fanLines fanLinesApart := by
  let cold : Block := ⟨.alias, "DEF cold IS t IS low", [], by decide +kernel, by simp⟩
  let slow : Block := ⟨.rule, "IF cold THEN fan IS slow", [], by decide +kernel, by simp⟩
  let fast : Block := ⟨.rule, "IF t IS high THEN fan IS fast", [], by decide +kernel, by simp⟩
  have hreorder : Relayout fanLines
      ["IF cold THEN fan IS slow", "DEF cold IS t IS low", "IF t IS high THEN fan IS fast"] :=
    @Relayout.reorder [] (by simp) [cold, slow, fast] [slow, cold, fast] (by rintro (_ | _) <;> rfl)
  have hwrap : Relayout
      ["IF cold THEN fan IS slow", "DEF cold IS t IS low", "IF t IS high THEN fan IS fast"]
      ["IF cold", "THEN fan IS slow", "DEF cold IS t IS low", "IF t IS high THEN fan IS fast"] :=
    @Relayout.wrap [] _ "IF" "THEN" ["cold"] ["fan", "IS", "slow"] (by decide) (by decide +kernel)
  have hcomment : Relayout
      ["IF cold", "THEN fan IS slow", "DEF cold IS t IS low", "IF t IS high THEN fan IS fast"]
      ["IF cold # chilly", "THEN fan IS slow", "DEF cold IS t IS low",
        "IF t IS high THEN fan IS fast"] :=
    @Relayout.comment [] _ "IF cold" " " (List.forall_mem_singleton.2 (by decide)) " chilly"
  have hskip : Relayout
      ["IF cold # chilly", "THEN fan IS slow", "DEF cold IS t IS low",
        "IF t IS high THEN fan IS fast"]
      fanLinesApart :=
    @Relayout.skip [] _ " # fans" (by rintro c ⟨⟩; rfl)
  exact (((Relation.EqvGen.rel _ _ hreorder).trans _ _ _ (.rel _ _ hwrap)).trans _ _ _
    (.rel _ _ hcomment)).trans
    _ _ _ (.rel _ _ hskip)

theorem ofLines_fanLines :
    IsHeaded fanLines ∧ Relation.EqvGen Relayout fanLines fanLinesApart ∧
      (RuleImport.ofLines fanLines : RuleImport Float) = .ofLines fanLinesApart := by
  have hheaded : IsHeaded fanLines := by
    unfold IsHeaded
    decide +kernel
  exact ⟨hheaded, relayout_fanLines, ((ofLines_relayout hheaded).2 _ relayout_fanLines).2⟩

end FuzzyInference
