import FuzzyInference.Proofs.Rule.InPlace.Group
import FuzzyInference.Rule.Import

/-!
# Compiling statements in place

A statement is taken apart by the positions of its keywords, and a line is cut at
the byte where its comment starts. Together with the runs over its condition this
is all that compiling does by position, for a single statement and for a block of
rule text. None of it can go wrong: each run ends with the result or the fault
that compiling over lists gives.

Results:

* `sliceTo_findByte`: a comment starts at the first byte of a character.
* `compileRule_eq`, `compileAlias_eq` and `importRules_eq`: compiling in place gives
  what compiling over lists gives.
* `compile_safe`: compiling in place stays in bounds and ends.
-/

namespace FuzzyInference.InPlace

variable {α : Type} [Scalar α]

/-! ## Statements -/

/-- Compiles an `IF` statement. -/
def compileRule (aliases : AliasTable α) (line : String) : Run (Rule α) := do
  let words := Text.statementWords line
  if words.head?.any (isKeyword "if") then
    let (_, words) ← remove words 0
    match words.findIdx? (isKeyword "then") with
    | none => fail .thenMissing
    | some place =>
      let (words, conclusion) ← splitOff words (place + 1)
      let (result, membership) ← ofExcept (readConclusion conclusion)
      let (condition, queries) ← parseTokens aliases words.dropLast (some .empty)
      return ⟨line, condition, result, membership, queries.getD .empty⟩
  else fail .ifMissing

/-- Compiles a `DEF` statement. -/
def compileAlias (aliases : AliasTable α) (line : String) : Run (String × Expr α) := do
  let words := Text.statementWords line
  if words.head?.any (isKeyword "def") then
    if words.length < 4 then fail .defMalformed
    else if isKeyword "is" (← index words 2) then
      let (words, logic) ← splitOff words 3
      let (e, _) ← parseTokens aliases logic none
      let (name, _) ← swapRemove words 1
      return (name, e)
    else fail .defMalformed
  else fail .defMissing

/-- The first word that is a certain one stands behind the words that are not. -/
theorem findIdx?_eq_takeWhile (p : String → Bool) (ws : List String) :
    ws.findIdx? p = match ws.dropWhile fun w => !p w with
      | [] => none
      | _ :: _ => some (ws.takeWhile fun w => !p w).length := by
  induction ws with
  | nil => rfl
  | cons w ws ih =>
    rw [List.findIdx?_cons, List.dropWhile_cons, List.takeWhile_cons]
    cases hw : p w with
    | true => simp
    | false =>
      simp only [Bool.false_eq_true, if_false, Bool.not_false, if_true, ih]
      cases ws.dropWhile fun w => !p w <;> rfl

theorem compileRule_eq (aliases : AliasTable α) (line : String) :
    compileRule aliases line = ofExcept (Rule.compile aliases line) := by
  unfold compileRule Rule.compile
  cases Text.statementWords line with
  | nil => rfl
  | cons first ws =>
    by_cases hfirst : (first :: ws).head?.any (isKeyword "if") = true
    · have hif : ¬ (!isKeyword "if" first) = true := by simpa using hfirst
      have hremove : remove (first :: ws) 0 = pure (first, ws) := remove_append [] ws first
      rw [if_pos hfirst, hremove, pure_bind]
      dsimp only
      rw [if_neg hif, findIdx?_eq_takeWhile]
      cases hdrop : ws.dropWhile fun w => !isKeyword "then" w with
      | nil => rfl
      | cons keyword conclusion =>
        have hws : (ws.takeWhile fun w => !isKeyword "then" w) ++ [keyword] ++ conclusion = ws := by
          rw [List.append_assoc, List.singleton_append, ← hdrop, List.takeWhile_append_dropWhile]
        have hsplit :=
          splitOff_append ((ws.takeWhile fun w => !isKeyword "then" w) ++ [keyword]) conclusion
        rw [hws, length_middle] at hsplit
        simp only [hsplit, pure_bind, List.dropLast_concat, parseTokens_eq, ofExcept_bind,
          ofExcept_map, ofExcept_pure, bind_assoc]
        rfl
    · have hif : (!isKeyword "if" first) = true := by simpa using hfirst
      rw [if_neg hfirst]
      dsimp only
      rw [if_pos hif, ofExcept_error]

theorem compileAlias_eq (aliases : AliasTable α) (line : String) :
    compileAlias aliases line = ofExcept (FuzzyInference.compileAlias aliases line) := by
  unfold compileAlias FuzzyInference.compileAlias
  cases Text.statementWords line with
  | nil => rfl
  | cons first ws =>
    by_cases hfirst : (first :: ws).head?.any (isKeyword "def") = true
    · have hdef : ¬ (!isKeyword "def" first) = true := by simpa using hfirst
      rw [if_pos hfirst]
      dsimp only
      rw [if_neg hdef]
      match ws with
      | [] | [_] | [_, _] => rfl
      | name :: is :: w :: ws =>
        have hlength : ¬ (first :: name :: is :: w :: ws).length < 4 := by simp
        have hindex : index (first :: name :: is :: w :: ws) 2 = pure is := rfl
        have hsplit : splitOff (first :: name :: is :: w :: ws) 3 =
            pure ([first, name, is], w :: ws) :=
          splitOff_append [first, name, is] (w :: ws)
        have hname : swapRemove [first, name, is] 1 = pure (name, [first, is]) := rfl
        rw [if_neg hlength, hindex, pure_bind]
        by_cases his : isKeyword "is" is = true
        · simp only [his, if_true, hsplit, hname, pure_bind, parseTokens_eq, ofExcept_bind,
            ofExcept_map, ofExcept_pure, bind_assoc]
        · simp only [his]
          rfl
    · have hdef : (!isKeyword "def" first) = true := by simpa using hfirst
      rw [if_neg hfirst]
      dsimp only
      rw [if_pos hdef, ofExcept_error]

/-! ## Lines -/

/-- The byte that a character first starts at. -/
def findByte (c : Char) : List Char → Option Nat
  | [] => none
  | d :: ds => if d = c then some 0 else (findByte c ds).map (d.utf8Size + ·)

/-- The characters in front of a byte, which has to be the first one of a character
    or the end. -/
def sliceTo : List Char → Nat → Run (List Char)
  | _, 0 => pure []
  | [], _ + 1 => throw .outOfBounds
  | c :: cs, n + 1 =>
    if c.utf8Size ≤ n + 1 then do
      let taken ← sliceTo cs (n + 1 - c.utf8Size)
      return c :: taken
    else throw .outOfBounds

/-- A line without outer blanks and comment, unless nothing is left of it. -/
def cleanLine (line : String) : Run (Option String) := do
  let cs := Text.trimmed line.toList
  if cs.isEmpty || cs.head? == some '#' then return none
  match findByte '#' cs with
  | some comment =>
    let statement ← sliceTo cs comment
    return some (String.ofList (Text.dropBlankEnd statement))
  | none => return some (String.ofList cs)

/-- A comment starts at the first byte of a character, and only characters are in
    front of it. -/
theorem sliceTo_findByte (c : Char) (cs : List Char) :
    findByte c cs = none ∧ c ∉ cs ∨
      ∃ n, findByte c cs = some n ∧ c ∈ cs ∧ sliceTo cs n = pure (cs.takeWhile (· ≠ c)) := by
  induction cs with
  | nil => exact .inl ⟨rfl, List.not_mem_nil⟩
  | cons d ds ih =>
    rw [findByte, List.takeWhile_cons]
    by_cases hd : d = c
    · exact .inr ⟨0, by rw [if_pos hd], by simp [hd], by simp [hd, sliceTo]⟩
    · rw [if_neg hd]
      rcases ih with ⟨hnone, hmem⟩ | ⟨n, hn, hmem, hslice⟩
      · exact .inl ⟨by rw [hnone]; rfl, by simp [hmem, Ne.symm hd]⟩
      · refine .inr ⟨d.utf8Size + n, by rw [hn]; rfl, List.mem_cons_of_mem d hmem, ?_⟩
        obtain ⟨k, hk⟩ : ∃ k, d.utf8Size + n = k + 1 :=
          ⟨d.utf8Size + n - 1, by have := d.utf8Size_pos; omega⟩
        have hbehind : k + 1 - d.utf8Size = n := by omega
        rw [hk, sliceTo, if_pos (by omega), hbehind, hslice]
        simp [hd]

theorem cleanLine_eq (line : String) : cleanLine line = pure (cleanLine? line) := by
  unfold cleanLine cleanLine?
  cases hcs : Text.trimmed line.toList with
  | nil => rfl
  | cons c cs =>
    by_cases hc : c = '#'
    · rw [hc]
      rfl
    · rcases sliceTo_findByte '#' (c :: cs) with ⟨hnone, hmem⟩ | ⟨n, hn, hmem, hslice⟩
      · simp [hc, hnone, hmem]
      · simp [hc, hn, hmem, hslice]

/-! ## Blocks of rule text -/

/-- The statements of a block that were read so far, the kind of the last one, and
    the lines that belong to no statement. -/
structure Collected where
  defs : List String
  ifs : List String
  current : Option StatementKind
  errors : List CompileError

/-- The last of some statements continued by a line. -/
def continueLast (statements : List String) (line : String) : Option (List String) :=
  match statements.getLast? with
  | none => none
  | some last => some (statements.dropLast ++ [last ++ " " ++ line])

/-- Adds a line: to the last statement, unless it starts one. -/
def collect (block : Collected) (line : String) : Run Collected := do
  match ← cleanLine line with
  | none => return block
  | some line =>
    match startedBy? line with
    | some .alias => return { block with defs := block.defs ++ [line], current := some .alias }
    | some .rule => return { block with ifs := block.ifs ++ [line], current := some .rule }
    | none =>
      let unbound := { block with errors := block.errors ++ [unboundError line] }
      match block.current with
      | some .alias =>
        match continueLast block.defs line with
        | some defs => return { block with defs := defs }
        | none => return unbound
      | some .rule =>
        match continueLast block.ifs line with
        | some ifs => return { block with ifs := ifs }
        | none => return unbound
      | none => return unbound

/-- The result or the fault of a run. -/
def attempt {β : Type} (x : Run β) : Run (Except CompileFault β) :=
  tryCatch (do return .ok (← x)) fun
    | .fault f => return .error f
    | .outOfBounds => throw .outOfBounds

/-- Compiles aliases in order, each with the ones before it. -/
def compileAliases (table : AliasTable α) (errors : List CompileError) :
    List (String × Nat) → Run (AliasTable α × List CompileError)
  | [] => return (table, errors)
  | (line, n) :: rest => do
    match ← attempt (compileAlias table line) with
    | .ok (name, e) => compileAliases (table.insert name e) errors rest
    | .error fault => compileAliases table (errors ++ [.located fault .alias n line]) rest

/-- Compiles rules in order. -/
def compileRules (table : AliasTable α) (rules : List (Rule α)) (errors : List CompileError) :
    List (String × Nat) → Run (List (Rule α) × List CompileError)
  | [] => return (rules, errors)
  | (line, n) :: rest => do
    match ← attempt (compileRule table line) with
    | .ok rule => compileRules table (rules ++ [rule]) errors rest
    | .error fault => compileRules table rules (errors ++ [.located fault .rule n line]) rest

/-- Compiles a block of rule text. -/
def importRules (lines : List String) : Run (RuleImport α) := do
  let block ← lines.foldlM collect ⟨[], [], none, []⟩
  let (table, errors) ← compileAliases .empty block.errors (block.defs.zipIdx 1)
  let (rules, errors) ← compileRules table [] errors (block.ifs.zipIdx 1)
  return ⟨rules, table, errors⟩

theorem attempt_ofExcept {β : Type} (x : Except CompileFault β) :
    attempt (ofExcept x) = pure x := by
  cases x <;> rfl

theorem compileAliases_eq (table : AliasTable α) (errors : List CompileError)
    (ss : List (String × Nat)) :
    compileAliases table errors ss =
      pure ((importAliases table ss).1, errors ++ (importAliases table ss).2) := by
  induction ss generalizing table errors with
  | nil => simp [compileAliases, importAliases]
  | cons s rest ih =>
    obtain ⟨line, n⟩ := s
    rw [compileAliases, compileAlias_eq, attempt_ofExcept, pure_bind, importAliases]
    cases FuzzyInference.compileAlias table line with
    | ok named => exact ih _ errors
    | error fault => simp [ih]

theorem compileRules_eq (table : AliasTable α) (rules : List (Rule α)) (errors : List CompileError)
    (ss : List (String × Nat)) :
    compileRules table rules errors ss =
      pure (rules ++ (FuzzyInference.importRules table ss).1,
        errors ++ (FuzzyInference.importRules table ss).2) := by
  induction ss generalizing rules errors with
  | nil => simp [compileRules, FuzzyInference.importRules]
  | cons s rest ih =>
    obtain ⟨line, n⟩ := s
    rw [compileRules, compileRule_eq, attempt_ofExcept, pure_bind, FuzzyInference.importRules]
    cases Rule.compile table line with
    | ok rule => simp [ih]
    | error fault => simp [ih]

/-- The block that holds some statements and lines without one. -/
def blockOf (ss : List (StatementKind × String)) (current : Option StatementKind)
    (unbound : List String) : Collected :=
  ⟨ofKind .alias ss, ofKind .rule ss, current, unbound.map unboundError⟩

theorem ofKind_concat (kind kind' : StatementKind) (ss : List (StatementKind × String))
    (text : String) :
    ofKind kind (ss ++ [(kind', text)]) =
      if kind' = kind then ofKind kind ss ++ [text] else ofKind kind ss := by
  rw [ofKind, List.filterMap_append]
  by_cases h : kind' = kind <;> simp [h, ofKind]

theorem collect_blank {line : String} (h : cleanLine? line = none) (block : Collected) :
    collect block line = pure block := by
  rw [collect, cleanLine_eq, h]
  rfl

theorem collect_started {line clean : String} (h : cleanLine? line = some clean)
    {kind : StatementKind} (hkind : startedBy? clean = some kind)
    (ss : List (StatementKind × String)) (current : Option StatementKind)
    (unbound : List String) :
    collect (blockOf ss current unbound) line =
      pure (blockOf (ss ++ [(kind, clean)]) (some kind) unbound) := by
  rw [collect, cleanLine_eq, h, pure_bind]
  dsimp only
  rw [hkind]
  cases kind <;> simp [blockOf, ofKind_concat]

theorem collect_continued {line clean : String} (h : cleanLine? line = some clean)
    (hkind : startedBy? clean = none) (kind : StatementKind) (text : String)
    (ss : List (StatementKind × String)) (unbound : List String) :
    collect (blockOf (ss ++ [(kind, text)]) (some kind) unbound) line =
      pure (blockOf (ss ++ [(kind, text ++ " " ++ clean)]) (some kind) unbound) := by
  rw [collect, cleanLine_eq, h, pure_bind]
  dsimp only
  rw [hkind]
  cases kind <;> simp [blockOf, ofKind_concat, continueLast]

theorem collect_unbound {line clean : String} (h : cleanLine? line = some clean)
    (hkind : startedBy? clean = none) (ss : List (StatementKind × String)) (unbound : List String) :
    collect (blockOf ss none unbound) line = pure (blockOf ss none (unbound ++ [clean])) := by
  rw [collect, cleanLine_eq, h, pure_bind]
  dsimp only
  rw [hkind]
  simp [blockOf]

/-- The statement that is still open is the last one of its kind. -/
theorem foldlM_collect (lines : List String) (closed : List (StatementKind × String))
    (current : Option (StatementKind × String)) (unbound : List String) :
    ∃ last,
      lines.foldlM collect (blockOf (closed ++ current.toList) (current.map Prod.fst) unbound) =
      pure (blockOf (closed ++ (statementsFrom current (lines.filterMap cleanLine?)).2) last
        (unbound ++ (statementsFrom current (lines.filterMap cleanLine?)).1)) := by
  induction lines generalizing closed current unbound with
  | nil => exact ⟨current.map Prod.fst, by simp [statementsFrom]⟩
  | cons line lines ih =>
    rw [List.foldlM_cons]
    cases hclean : cleanLine? line with
    | none =>
      rw [collect_blank hclean, pure_bind, List.filterMap_cons_none hclean]
      exact ih closed current unbound
    | some clean =>
      rw [List.filterMap_cons_some hclean, statementsFrom.eq_def]
      dsimp only
      cases hkind : startedBy? clean with
      | some kind =>
        obtain ⟨last, hrest⟩ := ih (closed ++ current.toList) (some (kind, clean)) unbound
        refine ⟨last, ?_⟩
        rw [collect_started hclean hkind, pure_bind]
        simpa using hrest
      | none =>
        cases current with
        | some opened =>
          obtain ⟨kind, text⟩ := opened
          obtain ⟨last, hrest⟩ := ih closed (some (kind, text ++ " " ++ clean)) unbound
          refine ⟨last, ?_⟩
          have hstep := collect_continued hclean hkind kind text closed unbound
          simp only [Option.toList_some, Option.map_some] at hstep hrest ⊢
          rw [hstep, pure_bind, hrest]
        | none =>
          obtain ⟨last, hrest⟩ := ih closed none (unbound ++ [clean])
          refine ⟨last, ?_⟩
          rw [Option.map_none, collect_unbound hclean hkind, pure_bind]
          simpa using hrest

theorem importRules_eq (lines : List String) :
    importRules lines = pure (RuleImport.ofLines lines : RuleImport α) := by
  obtain ⟨last, hblock⟩ := foldlM_collect lines [] none []
  have hread : lines.foldlM collect ⟨[], [], none, []⟩ = _ := hblock
  rw [importRules, hread]
  simp [compileAliases_eq, compileRules_eq, blockOf, RuleImport.ofLines, statements, numbered]

/-! ## Safety -/

/-- Compiling in place never uses a position that is out of bounds, and always ends,
    for a rule, for an alias and for a block of rule text. It ends with the result
    or the fault that compiling over lists gives. -/
theorem compile_safe :
    (∀ (aliases : AliasTable α) (line : String),
      Safe (compileRule aliases line) ∧
      compileRule aliases line = ofExcept (Rule.compile aliases line)) ∧
    (∀ (aliases : AliasTable α) (line : String),
      Safe (compileAlias aliases line) ∧
        compileAlias aliases line = ofExcept (FuzzyInference.compileAlias aliases line)) ∧
    ∀ lines : List String,
      Safe (importRules lines : Run (RuleImport α)) ∧
        importRules lines = pure (RuleImport.ofLines lines : RuleImport α) := by
  refine ⟨fun aliases line => ?_, fun aliases line => ?_, fun lines => ?_⟩
  · rw [compileRule_eq]
    exact ⟨safe_ofExcept _, rfl⟩
  · rw [compileAlias_eq]
    exact ⟨safe_ofExcept _, rfl⟩
  · rw [importRules_eq]
    exact ⟨.inl ⟨_, rfl⟩, rfl⟩

end FuzzyInference.InPlace
