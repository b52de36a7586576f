import FuzzyInference.Proofs.Rule.InPlace.Level
import FuzzyInference.Proofs.Rule.Nesting
import FuzzyInference.Rule.Basic
import Mathlib.Data.List.Forall2

/-!
# Folding groups in place

The words of a condition are read by position. At an opening parenthesis a scan
looks for the closing one that belongs to it, another cuts the words between the
two at their outer commas, and each piece is folded by a run of its own. The
positions that the scans give are those of the groups that the words are nested
into, so every slice is in bounds and every run gets fewer words than the one
around it.

Results:

* `matchingParen_eq` and `splitCommas_eq`: where a group ends, and its pieces.
* `foldParts_eq` and `foldGroups_eq`: what the runs make of pieces and of words.
* `parseTokens_eq`: what is made of the words of a condition.
-/

namespace FuzzyInference.InPlace

open Bracketed

variable {α : Type} [Scalar α]

/-! ## Scans and runs in place -/

/-- The position of the closing parenthesis that ends a group, from inside of the
    group. -/
def Cursor.matchingParen : Cursor String → Nat → Run Nat
  | ⟨words, i⟩, depth =>
    match words[i]? with
    | none => fail .unmatchedOpening
    | some w =>
      if w = "(" then Cursor.mk words (i + 1) |>.matchingParen (depth + 1)
      else if w = ")" then
        if depth = 1 then pure i else Cursor.mk words (i + 1) |>.matchingParen (depth - 1)
      else Cursor.mk words (i + 1) |>.matchingParen depth
partial_fixpoint

/-- Cuts words at the commas that are in no parentheses. The piece that is being
    read starts at `start`. -/
def Cursor.splitCommas : Cursor String → List (List String) → Nat → Nat → Run (List (List String))
  | ⟨words, i⟩, pieces, start, depth =>
    match words[i]? with
    | none => do
      let piece ← slice words start words.length
      return pieces ++ [piece]
    | some w =>
      if w = "(" then Cursor.mk words (i + 1) |>.splitCommas pieces start (depth + 1)
      else if w = ")" then Cursor.mk words (i + 1) |>.splitCommas pieces start (depth - 1)
      else if w = "," ∧ depth = 0 then do
        let piece ← slice words start i
        Cursor.mk words (i + 1) |>.splitCommas (pieces ++ [piece]) (i + 1) depth
      else Cursor.mk words (i + 1) |>.splitCommas pieces start depth
partial_fixpoint

mutual

/-- Reads the items of a level from a position on. -/
def Cursor.foldWords (aliases : AliasTable α) :
    Cursor String → List (Item α) → Option (OrderedMap String) →
    Run (List (Item α) × Option (OrderedMap String))
  | ⟨words, i⟩, items, queries => do
    if i < words.length then
      let w ← index words i
      if w = "(" then
        let close ← Cursor.matchingParen ⟨words, i + 1⟩ 1
        let inner ← slice words (i + 1) close
        let pieces ← Cursor.splitCommas ⟨inner, 0⟩ [] 0 0
        let (es, queries) ← Cursor.mk pieces 0 |>.foldParts aliases (close = i + 1) [] queries
        Cursor.mk words (close + 1) |>.foldWords aliases (items ++ [.group es]) queries
      else if w = ")" then fail .unmatchedClosing
      else Cursor.mk words (i + 1) |>.foldWords aliases (items ++ [.word w]) queries
    else return (items, queries)
partial_fixpoint

/-- Folds the pieces of a group from a position on, none of which may be empty
    unless the whole group is. -/
def Cursor.foldParts (aliases : AliasTable α) : Cursor (List String) → Bool → List (Expr α) →
    Option (OrderedMap String) → Run (List (Expr α) × Option (OrderedMap String))
  | ⟨pieces, i⟩, empty, es, queries =>
    match pieces[i]? with
    | none => pure (es, queries)
    | some piece =>
      if piece.isEmpty then
        if empty then Cursor.mk pieces (i + 1) |>.foldParts aliases empty es queries
          else fail .emptyArgument
      else do
        let (items, queries) ← Cursor.mk piece 0 |>.foldWords aliases [] queries
        let (e, queries) ← foldLevel aliases items queries
        Cursor.mk pieces (i + 1) |>.foldParts aliases empty (es ++ [e]) queries
partial_fixpoint

end

/-- Folds words into a condition: groups first, and then the level that they stand
    in. -/
def foldGroups (aliases : AliasTable α) (words : List String)
    (queries : Option (OrderedMap String)) :
    Run (Expr α × Option (OrderedMap String)) := do
  let (items, queries) ← Cursor.foldWords aliases ⟨words, 0⟩ [] queries
  foldLevel aliases items queries

/-- Folds the words of a condition, of which as many have to be opening as closing
    parentheses. -/
def parseTokens (aliases : AliasTable α) (words : List String)
    (queries : Option (OrderedMap String)) : Run (Expr α × Option (OrderedMap String)) :=
  let opening := words.countP (· == "(")
  let closing := words.countP (· == ")")
  if closing < opening then fail .moreOpening
  else if opening < closing then fail .moreClosing
  else foldGroups aliases words queries

/-! ## Scans over what items spell -/

section

variable {β : Type}

/-- A scan moves over words from one depth to another, wherever they stand. -/
def Moves (scan : List String → Nat → Nat → Run β) (us : List String) (depth depth' : Nat) : Prop :=
  ∀ before rest : List String,
    scan (before ++ us ++ rest) before.length depth =
      scan (before ++ us ++ rest) (before ++ us).length depth'

/-- A scan that counts parentheses and looks at commas only outside of them. At a
    depth of `least` or more it passes closing parentheses. -/
structure Scans (least : Nat) (scan : List String → Nat → Nat → Run β) : Prop where
  word : ∀ w depth, Ordinary w → Moves scan [w] depth depth
  opening : ∀ depth, Moves scan ["("] depth (depth + 1)
  closing : ∀ depth, least ≤ depth → Moves scan [")"] (depth + 1) depth
  comma : ∀ depth, Moves scan [","] (depth + 1) (depth + 1)

variable {least : Nat} {scan : List String → Nat → Nat → Run β}

theorem moves_nil (depth : Nat) : Moves scan [] depth depth := by
  intro before rest
  rw [List.append_nil]

theorem Moves.append {us ws : List String} {depth depth' depth'' : Nat}
    (hus : Moves scan us depth depth') (hws : Moves scan ws depth' depth'') :
    Moves scan (us ++ ws) depth depth'' := by
  intro before rest
  have hfirst := hus before (ws ++ rest)
  have hsecond := hws (before ++ us) rest
  rw [← List.append_assoc] at hfirst
  rw [← List.append_assoc, hfirst, hsecond]

mutual

/-- A scan passes what an item spells, and is as deep behind it as in front of
    it. -/
theorem Scans.spells (hscan : Scans least scan) {b : Bracketed} {us : List String}
    (h : Spells Ordinary b us) {depth : Nat} (hdepth : least ≤ depth) : Moves scan us depth depth :=
  match h with
  | .word hw => hscan.word _ depth hw
  | .group hparts =>
    have hinner := hscan.spellsParts hparts (Nat.le_succ_of_le hdepth)
    (hscan.opening depth).append (hinner.append (hscan.closing depth hdepth))

theorem Scans.spellsItems (hscan : Scans least scan) {bs : List Bracketed} {us : List String}
    (h : SpellsItems Ordinary bs us) {depth : Nat} (hdepth : least ≤ depth) :
    Moves scan us depth depth :=
  match h with
  | .nil => moves_nil depth
  | .cons hb hbs => (hscan.spells hb hdepth).append (hscan.spellsItems hbs hdepth)

theorem Scans.spellsParts (hscan : Scans least scan) {parts : List (List Bracketed)}
    {us : List String} (h : SpellsParts Ordinary parts us) {depth : Nat}
    (hdepth : least ≤ depth + 1) :
    Moves scan us (depth + 1) (depth + 1) :=
  match h with
  | .last hbs => hscan.spellsItems hbs hdepth
  | .more hbs hparts =>
    (hscan.spellsItems hbs hdepth).append
      ((hscan.comma depth).append (hscan.spellsParts hparts hdepth))

end

end

/-! ## The end of a group and its pieces -/

theorem getElem?_middle {β : Type} (before rest : List β) (w : β) :
    (before ++ [w] ++ rest)[before.length]? = some w := by
  simp

theorem length_middle {β : Type} (before : List β) (w : β) :
    (before ++ [w]).length = before.length + 1 := by simp

/-- A scan that passes each word with the parentheses counted, where no parenthesis
    closes too much and no comma is outside of all of them. -/
theorem Scans.of_round {β : Type} {least : Nat} {scan : List String → Nat → Nat → Run β}
    (hround : ∀ (before rest : List String) w depth, (w = ")" → least < depth) →
      (w = "," → 0 < depth) → scan (before ++ [w] ++ rest) before.length depth =
        scan (before ++ [w] ++ rest) (before ++ [w]).length
          (if w = "(" then depth + 1 else if w = ")" then depth - 1 else depth)) :
    Scans least scan where
  word w depth hw before rest := by
    rw [hround before rest w depth (fun h => absurd h hw.2.1) (fun h => absurd h hw.2.2),
      if_neg hw.1, if_neg hw.2.1]
  opening depth before rest := by
    rw [hround before rest "(" depth (fun h => absurd h (by decide))
      (fun h => absurd h (by decide)), if_pos rfl]
  closing depth hdepth before rest := by
    rw [hround before rest ")" (depth + 1) (fun _ => Nat.lt_succ_of_le hdepth)
      (fun h => absurd h (by decide)), if_neg (by decide), if_pos rfl, Nat.add_sub_cancel]
  comma depth before rest := by
    rw [hround before rest "," (depth + 1) (fun h => absurd h (by decide))
      (fun _ => Nat.succ_pos depth), if_neg (by decide), if_neg (by decide)]

theorem scans_matchingParen :
    Scans 1 fun words i depth => Cursor.matchingParen ⟨words, i⟩ depth := by
  refine .of_round fun before rest w depth hdeep _ => ?_
  rw [Cursor.matchingParen, getElem?_middle, length_middle]
  by_cases hopen : w = "("
  · simp only [hopen, if_true]
  · by_cases hclose : w = ")"
    · have hne : depth ≠ 1 := Nat.ne_of_gt (hdeep hclose)
      simp only [hclose, hne, if_true, if_false, if_neg (show ")" ≠ "(" by decide)]
    · simp only [hopen, hclose, if_false]

theorem scans_splitCommas (pieces : List (List String)) (start : Nat) :
    Scans 0 fun words i depth => Cursor.splitCommas ⟨words, i⟩ pieces start depth := by
  refine .of_round fun before rest w depth _ hdeep => ?_
  rw [Cursor.splitCommas, getElem?_middle, length_middle]
  by_cases hopen : w = "("
  · simp only [hopen, if_true]
  · by_cases hclose : w = ")"
    · simp only [hclose, if_true, if_neg (show ")" ≠ "(" by decide)]
    · have hinside : ¬ (w = "," ∧ depth = 0) := fun h => Nat.ne_of_gt (hdeep h.1) h.2
      simp only [hopen, hclose, hinside, if_false]

theorem matchingParen_eq {parts : List (List Bracketed)} {us : List String}
    (h : SpellsParts Ordinary parts us) (before rest : List String) :
    Cursor.matchingParen ⟨before ++ (us ++ ")" :: rest), before.length⟩ 1 =
      pure (before.length + us.length) := by
  have hmoves := scans_matchingParen.spellsParts h (Nat.le_refl 1) before (")" :: rest)
  have hparen : ")" ≠ "(" := by decide
  rw [List.append_assoc] at hmoves
  rw [hmoves, ← List.append_assoc, Cursor.matchingParen]
  simp [hparen]

/-- Parts and the pieces of words that spell them. -/
abbrev SpellsPieces (parts : List (List Bracketed)) (pieces : List (List String)) : Prop :=
  List.Forall₂ (SpellsItems Ordinary) parts pieces

theorem splitCommas_last (before us : List String) (done : List (List String)) :
    Cursor.splitCommas ⟨before ++ us, (before ++ us).length⟩ done before.length 0 =
      pure (done ++ [us]) := by
  have hslice := slice_append before us []
  rw [List.append_nil, ← List.length_append] at hslice
  rw [Cursor.splitCommas, List.getElem?_eq_none (Nat.le_refl _)]
  simp only [hslice, pure_bind]

theorem splitCommas_comma (before us ws : List String) (done : List (List String)) :
    Cursor.splitCommas ⟨before ++ us ++ "," :: ws, (before ++ us).length⟩ done before.length 0 =
      Cursor.splitCommas ⟨before ++ us ++ [","] ++ ws, (before ++ us ++ [","]).length⟩
        (done ++ [us])
        (before ++ us ++ [","]).length 0 := by
  have hslice := slice_append before us ("," :: ws)
  have hopen : "," ≠ "(" := by decide
  have hclose : "," ≠ ")" := by decide
  rw [← List.append_assoc, ← List.length_append] at hslice
  rw [List.append_cons, Cursor.splitCommas, getElem?_middle, length_middle]
  rw [List.append_cons] at hslice
  simp only [hopen, hclose, if_false, and_self, if_true, hslice, pure_bind]

/-- The words of a group are cut into pieces that its parts spell. -/
theorem splitCommas_eq {parts : List (List Bracketed)} {us : List String}
    (h : SpellsParts Ordinary parts us) :
    ∃ pieces, SpellsPieces parts pieces ∧ ∀ before done,
      Cursor.splitCommas ⟨before ++ us, before.length⟩ done before.length 0 =
        pure (done ++ pieces) := by
  induction parts generalizing us with
  | nil => cases h
  | cons bs parts ih =>
    have hpasses : ∀ {us : List String} (before rest : List String) done,
        SpellsItems Ordinary bs us →
        Cursor.splitCommas ⟨before ++ us ++ rest, before.length⟩ done before.length 0 =
          Cursor.splitCommas ⟨before ++ us ++ rest, (before ++ us).length⟩ done before.length 0 :=
      fun before rest done hbs =>
        (scans_splitCommas done before.length).spellsItems hbs (Nat.le_refl 0) before rest
    cases h with
    | last hbs =>
      refine ⟨[us], .cons hbs .nil, ?_⟩
      intro before done
      have hfirst := hpasses before [] done hbs
      rw [List.append_nil] at hfirst
      rw [hfirst, splitCommas_last]
    | @more _ us _ ws hbs hparts =>
      obtain ⟨pieces, hpieces, hsplit⟩ := ih hparts
      refine ⟨us :: pieces, .cons hbs hpieces, ?_⟩
      intro before done
      rw [← List.append_assoc, hpasses before _ done hbs, splitCommas_comma, hsplit,
        List.append_assoc, List.singleton_append]

/-! ## Runs over what items spell -/

/-- Reading words adds the items that they spell. -/
def ReadsWords (aliases : AliasTable α) (bs : List Bracketed) (us : List String) : Prop :=
  ∀ (before rest : List String) (items : List (Item α)) (queries : Option (OrderedMap String)),
    Cursor.foldWords aliases ⟨before ++ us ++ rest, before.length⟩ items queries =
      ofExcept (compileItems aliases bs) >>= fun new =>
        Cursor.foldWords aliases ⟨before ++ us ++ rest, (before ++ us).length⟩ (items ++ new.1)
          (record queries new.2)

/-- Folding pieces adds the conditions of parts. -/
def ReadsPieces (aliases : AliasTable α) (parts : List (List Bracketed))
    (pieces : List (List String)) : Prop :=
  ∀ (before : List (List String)) (es : List (Expr α)) (queries : Option (OrderedMap String)),
    Cursor.foldParts aliases ⟨before ++ pieces, before.length⟩ false es queries =
      ofExcept (compileParts aliases parts) >>= fun new => pure (es ++ new.1, record queries new.2)

omit [Scalar α] in
theorem record_append (queries : Option (OrderedMap String))
    (first second : List (String × String)) :
    record queries (first ++ second) = record (record queries first) second := by
  cases queries with
  | none => rfl
  | some m => simp [record]

omit [Scalar α] in
theorem record_nil (queries : Option (OrderedMap String)) : record queries [] = queries := by
  cases queries <;> rfl

theorem readsWords_nil (aliases : AliasTable α) : ReadsWords aliases [] [] := by
  intro before rest items queries
  simp [compileItems, record_nil]

theorem readsWords_word (aliases : AliasTable α) {w : String} (hw : Condition.NotParenthesis w)
    {bs : List Bracketed} {us : List String} (h : ReadsWords aliases bs us) :
    ReadsWords aliases (.word w :: bs) (w :: us) := by
  intro before rest items queries
  have hround : Cursor.foldWords aliases ⟨before ++ w :: us ++ rest, before.length⟩ items queries =
      Cursor.foldWords aliases ⟨before ++ [w] ++ us ++ rest, (before ++ [w]).length⟩
        (items ++ [.word w]) queries := by
    rw [Cursor.foldWords]
    simp [hw.1, hw.2]
  have hwords : before ++ [w] ++ us = before ++ w :: us := by simp
  rw [hround, h (before ++ [w]) rest, hwords, compileItems, compileItem]
  simp only [ofExcept_bind, bind_assoc, ofExcept_ok, ofExcept_pure, pure_bind, List.append_assoc,
    List.singleton_append, List.nil_append]

/-- The conditions between the parentheses of a group. -/
def groupConditions (aliases : AliasTable α) : List (List Bracketed) →
    Except CompileFault (List (Expr α) × List (String × String))
  | [[]] => .ok ([], [])
  | parts => compileParts aliases parts

theorem compileItem_group (aliases : AliasTable α) (parts : List (List Bracketed)) :
    compileItem aliases (.group parts) =
      (groupConditions aliases parts).map fun folded => (.group folded.1, folded.2) := by
  match parts with
  | [[]] => rfl
  | [] | (_ :: _) :: _ | [] :: _ :: _ =>
    simp only [compileItem, groupConditions]
    cases compileParts aliases _ <;> rfl

theorem foldGroups_eq {aliases : AliasTable α} {bs : List Bracketed} {us : List String}
    (h : ReadsWords aliases bs us) (queries : Option (OrderedMap String)) :
    foldGroups aliases us queries = ofExcept (compileItems aliases bs) >>= fun new =>
      ofExcept (Item.foldLevel aliases new.1) >>= fun folded =>
        pure (folded.1, record queries (new.2 ++ folded.2)) := by
  have hread := h [] [] [] queries
  have hend : ∀ (items : List (Item α)) queries,
      Cursor.foldWords aliases ⟨us, us.length⟩ items queries = pure (items, queries) := by
    intro items queries
    rw [Cursor.foldWords, if_neg (Nat.lt_irrefl _)]
  simp only [List.nil_append, List.append_nil, List.length_nil, hend] at hread
  rw [foldGroups, hread]
  simp only [bind_assoc, pure_bind, foldLevel_eq, ofExcept_map, record_append]

theorem readsPieces_nil (aliases : AliasTable α) : ReadsPieces aliases [] [] := by
  intro before es queries
  rw [Cursor.foldParts, compileParts, List.append_nil, List.getElem?_eq_none (Nat.le_refl _)]
  simp [record_nil]

theorem foldParts_piece (aliases : AliasTable α) (before pieces : List (List String))
    (piece : List String) (empty : Bool) (es : List (Expr α))
    (queries : Option (OrderedMap String)) :
    Cursor.foldParts aliases ⟨before ++ [piece] ++ pieces, before.length⟩ empty es queries =
      if piece.isEmpty then
        if empty then
          Cursor.foldParts aliases ⟨before ++ [piece] ++ pieces, (before ++ [piece]).length⟩
            empty es queries
        else fail .emptyArgument
      else
        foldGroups aliases piece queries >>= fun folded =>
          Cursor.foldParts aliases ⟨before ++ [piece] ++ pieces, (before ++ [piece]).length⟩ empty
            (es ++ [folded.1])
            folded.2 := by
  rw [Cursor.foldParts, getElem?_middle, length_middle]
  simp only [foldGroups, bind_assoc]

theorem readsPieces_cons {aliases : AliasTable α} {bs : List Bracketed} {us : List String}
    (hempty : bs = [] ↔ us = []) (h : ReadsWords aliases bs us) {parts : List (List Bracketed)}
    {pieces : List (List String)} (hparts : ReadsPieces aliases parts pieces) :
    ReadsPieces aliases (bs :: parts) (us :: pieces) := by
  intro before es queries
  have hrest : ∀ es queries,
      Cursor.foldParts aliases ⟨before ++ us :: pieces, (before ++ [us]).length⟩ false es queries =
        ofExcept (compileParts aliases parts) >>= fun new =>
          pure (es ++ new.1, record queries new.2) := by
    rw [List.append_cons]
    exact hparts (before ++ [us])
  rw [List.append_cons, foldParts_piece, compileParts]
  by_cases hus : us = []
  · rw [hus, hempty.2 hus]
    rfl
  · have hbs : bs ≠ [] := fun hbs => hus (hempty.1 hbs)
    simp only [List.isEmpty_iff, hus, hbs, if_false, foldGroups_eq h, bind_assoc, pure_bind,
      hrest _ _, ofExcept_bind, ofExcept_pure, record_append, List.append_assoc,
      List.singleton_append]

theorem eq_nil_iff_of_spells {bs : List Bracketed} {us : List String}
    (h : SpellsItems Ordinary bs us) : bs = [] ↔ us = [] := by
  cases h with
  | nil => exact ⟨fun _ => rfl, fun _ => rfl⟩
  | cons hb _ => cases hb <;> simp

/-- A group without words has one part, which is empty. -/
theorem eq_empty_iff_of_spells {parts : List (List Bracketed)} {us : List String}
    (h : SpellsParts Ordinary parts us) : parts = [[]] ↔ us = [] := by
  cases h with
  | last hbs => simp [eq_nil_iff_of_spells hbs]
  | more _ hparts => cases hparts <;> simp

theorem groupConditions_of_ne {aliases : AliasTable α} {parts : List (List Bracketed)}
    (h : parts ≠ [[]]) : groupConditions aliases parts = compileParts aliases parts := by
  match parts with
  | [[]] => exact absurd rfl h
  | [] | (_ :: _) :: _ | [] :: _ :: _ => rfl

/-- The pieces of a group give its conditions, also if the group is empty and so is
    its only piece. -/
theorem foldParts_eq {aliases : AliasTable α} {parts : List (List Bracketed)} {us : List String}
    (h : SpellsParts Ordinary parts us) {pieces : List (List String)}
    (hpieces : SpellsPieces parts pieces) (hreads : ReadsPieces aliases parts pieces)
    (queries : Option (OrderedMap String)) :
    Cursor.foldParts aliases ⟨pieces, 0⟩ (decide (us = [])) [] queries =
      ofExcept (groupConditions aliases parts) >>= fun new =>
        pure (new.1, record queries new.2) := by
  by_cases hus : us = []
  · obtain rfl := (eq_empty_iff_of_spells h).2 hus
    obtain ⟨piece, _, hpiece, hnil, rfl⟩ := List.forall₂_cons_left_iff.1 hpieces
    obtain rfl := List.forall₂_nil_left_iff.1 hnil
    obtain rfl := (eq_nil_iff_of_spells hpiece).1 rfl
    rw [Cursor.foldParts, Cursor.foldParts]
    simp [hus, groupConditions, record_nil]
  · have hparts : parts ≠ [[]] := fun hparts => hus ((eq_empty_iff_of_spells h).1 hparts)
    have hread := hreads [] [] queries
    rw [List.nil_append, List.length_nil] at hread
    rw [decide_eq_false hus, hread, groupConditions_of_ne hparts]
    simp only [List.nil_append]

theorem readsWords_group (aliases : AliasTable α) {parts : List (List Bracketed)} {us : List String}
    (hparts : SpellsParts Ordinary parts us)
    (hreads : ∀ pieces, SpellsPieces parts pieces → ReadsPieces aliases parts pieces)
    {bs : List Bracketed} {ws : List String} (h : ReadsWords aliases bs ws) :
    ReadsWords aliases (.group parts :: bs) ("(" :: (us ++ ")" :: ws)) := by
  intro before rest items queries
  obtain ⟨pieces, hpieces, hsplit⟩ := splitCommas_eq hparts
  have hpiecesOf : Cursor.splitCommas ⟨us, 0⟩ [] 0 0 = pure pieces := hsplit [] []
  have hindex : index (before ++ ["("] ++ (us ++ ")" :: (ws ++ rest))) before.length =
      pure "(" := by simp
  have hclose := matchingParen_eq hparts (before ++ ["("]) (ws ++ rest)
  have hinner := slice_append (before ++ ["("]) us (")" :: (ws ++ rest))
  have hempty : ((before ++ ["("]).length + us.length = (before ++ ["("]).length) ↔ us = [] := by
    simp
  have hlength : before.length < (before ++ ["("] ++ (us ++ ")" :: (ws ++ rest))).length := by simp
  have hwords : before ++ "(" :: (us ++ ")" :: ws) ++ rest =
      before ++ ["("] ++ (us ++ ")" :: (ws ++ rest)) := by simp
  have hbehind : before ++ "(" :: us ++ [")"] ++ ws = before ++ "(" :: (us ++ ")" :: ws) := by simp
  have hend : (before ++ ["("]).length + us.length + 1 = (before ++ "(" :: us ++ [")"]).length := by
    simp
    omega
  have hround : Cursor.foldWords aliases
      ⟨before ++ "(" :: (us ++ ")" :: ws) ++ rest, before.length⟩ items queries =
      ofExcept (groupConditions aliases parts) >>= fun new =>
        Cursor.foldWords aliases ⟨before ++ "(" :: (us ++ ")" :: ws) ++ rest,
          (before ++ "(" :: us ++ [")"]).length⟩
          (items ++ [.group new.1]) (record queries new.2) := by
    rw [hwords, Cursor.foldWords, if_pos hlength, hindex, pure_bind, if_pos rfl,
      ← length_middle before "("]
    simp only [hclose, hinner, hpiecesOf, pure_bind, hempty,
      foldParts_eq hparts hpieces (hreads pieces hpieces), bind_assoc, hend]
  have hrest := h (before ++ "(" :: us ++ [")"]) rest
  rw [hbehind] at hrest
  rw [hround, compileItems, compileItem_group]
  have hitems : ∀ (x : Item α) new, items ++ [x] ++ new = items ++ x :: new := by simp
  simp only [hrest, hitems, ofExcept_bind, ofExcept_map, ofExcept_pure, bind_assoc, pure_bind,
    record_append]

mutual

/-- Words are read as the items that they spell. -/
theorem reads_item (aliases : AliasTable α) :
    ∀ (b : Bracketed) {us : List String}, Spells Ordinary b us →
    ∀ {bs : List Bracketed} {ws : List String}, ReadsWords aliases bs ws →
      ReadsWords aliases (b :: bs) (us ++ ws)
  | .word w, _, .word hw, bs, ws, h => readsWords_word aliases ⟨hw.1, hw.2.1⟩ h
  | .group parts, _, .group hparts, bs, ws, h => by
    have hgroup :=
      readsWords_group aliases hparts (fun pieces hpieces => reads_pieces aliases parts hpieces) h
    simpa using hgroup

theorem reads_items (aliases : AliasTable α) : ∀ (bs : List Bracketed) {us : List String},
    SpellsItems Ordinary bs us → ReadsWords aliases bs us
  | [], _, .nil => readsWords_nil aliases
  | b :: bs, _, .cons hb hbs => reads_item aliases b hb (reads_items aliases bs hbs)

theorem reads_pieces (aliases : AliasTable α) :
    ∀ (parts : List (List Bracketed)) {pieces : List (List String)},
    SpellsPieces parts pieces → ReadsPieces aliases parts pieces
  | [], _, .nil => readsPieces_nil aliases
  | bs :: parts, _, .cons hbs hparts =>
    readsPieces_cons (eq_nil_iff_of_spells hbs) (reads_items aliases bs hbs)
      (reads_pieces aliases parts hparts)

end

theorem reads_outer (aliases : AliasTable α) {bs : List Bracketed} {us : List String}
    (h : SpellsOuter bs us) : ReadsWords aliases bs us := by
  induction h with
  | nil => exact readsWords_nil aliases
  | word hw _ ih => exact readsWords_word aliases hw ih
  | group hparts _ ih =>
    exact readsWords_group aliases hparts (fun _ hpieces => reads_pieces aliases _ hpieces) ih

/-! ## A condition -/

/-- A closing parenthesis without an opening one is found when everything in front
    of it is folded. -/
theorem foldGroups_stray {aliases : AliasTable α} {bs : List Bracketed} {us vs : List String}
    (h : ReadsWords aliases bs us) (queries : Option (OrderedMap String)) :
    foldGroups aliases (us ++ ")" :: vs) queries =
      ofExcept (compileItems aliases bs) >>= fun _ => fail .unmatchedClosing := by
  have hread := h [] (")" :: vs) [] queries
  have hparen : ")" ≠ "(" := by decide
  have hend : ∀ (items : List (Item α)) queries,
      Cursor.foldWords aliases ⟨us ++ ")" :: vs, us.length⟩ items queries =
        fail .unmatchedClosing := by
    intro items queries
    have hlength : us.length < (us ++ ")" :: vs).length := by simp
    rw [Cursor.foldWords, if_pos hlength, index_append, pure_bind, if_neg hparen, if_pos rfl]
  simp only [List.nil_append, List.length_nil, hend] at hread
  rw [foldGroups, hread]
  simp only [bind_assoc, fail_bind]

theorem foldGroups_level {aliases : AliasTable α} {words : List String} {level : Level}
    (h : build [] [] [] words = .ok level) (queries : Option (OrderedMap String)) :
    foldGroups aliases words queries =
      ofExcept ((level.compile aliases).map fun folded => (folded.1, record queries folded.2)) := by
  obtain ⟨items, stray⟩ := level
  obtain ⟨bs, us, hitems, houter, hend⟩ := build_outer h
  obtain rfl : items = bs := hitems
  have hreads := reads_outer aliases houter
  rcases hend with ⟨hstray, rfl⟩ | ⟨hstray, vs, rfl⟩
  · obtain rfl : stray = false := hstray
    rw [foldGroups_eq hreads, Level.compile]
    simp only [Bool.false_eq_true, if_false, ofExcept_map, ofExcept_bind, ofExcept_pure,
      bind_assoc, pure_bind]
  · obtain rfl : stray = true := hstray
    rw [foldGroups_stray hreads, Level.compile]
    cases compileItems aliases items <;> rfl

/-- The words of a condition are folded in place to what they are compiled to from
    their groups outwards. -/
theorem parseTokens_eq (aliases : AliasTable α) (words : List String)
    (queries : Option (OrderedMap String)) :
    parseTokens aliases words queries =
      ofExcept ((compileCondition aliases words).map fun folded =>
        (folded.1, record queries folded.2)) := by
  unfold parseTokens compileCondition ofWords
  dsimp only
  split
  · rfl
  · split
    · rfl
    · cases hbuild : build [] [] [] words with
      | error fault =>
        have hlt := countP_of_build_error hbuild
        rw [List.length_nil] at hlt
        omega
      | ok level => exact foldGroups_level hbuild queries

end FuzzyInference.InPlace
