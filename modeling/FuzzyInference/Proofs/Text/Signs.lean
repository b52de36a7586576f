import FuzzyInference.Proofs.Text.Words

/-!
# Signs within words

In a statement `=`, parentheses and commas stand for words of their own, with or
without blanks around them. So a text is cut into words from left to right: a
blank is passed over, a sign is the word that it spells, and any other run of
characters is a word up to the next blank or sign.

Results:

* `splitWord_spelled`: the first word that a word spells, and the sign behind it.
* `spelled_blank`, `spelled_sign` and `IsWord.spelled`: the words of a text by
  what it starts with.
* `CutInto.blank` and `CutInto.sign`: the words of two texts with a blank or a
  sign between them.
-/

namespace FuzzyInference.Text

/-! ## Signs within words -/

/-- The word that a sign spells. -/
def signWord? (c : Char) : Option (List Char) :=
  if c = '=' then some ['i', 's']
  else if c = '(' ∨ c = ')' ∨ c = ',' then some [c]
  else none

/-- A sign ends the word before it and is a word of its own. -/
theorem splitWord_sign {c : Char} {w : List Char} (h : signWord? c = some w) (cs : List Char) :
    splitWord (spaced c ++ cs) = ([], w :: wordsOf cs) := by
  have hspace : isBlank ' ' = true := by decide
  have hword : w ≠ [] ∧ (∀ d ∈ w, isBlank d = false) ∧ spaced c = ' ' :: (w ++ [' ']) := by
    unfold signWord? at h
    split at h
    · rename_i hc
      cases h
      refine ⟨List.cons_ne_nil _ _, ?_, by rw [hc]; rfl⟩
      rw [List.forall_mem_cons, List.forall_mem_singleton]
      decide
    · split at h
      · rename_i hc
        cases h
        rw [List.forall_mem_singleton]
        rcases hc with rfl | rfl | rfl <;> exact ⟨List.cons_ne_nil _ _, by decide, rfl⟩
      · cases h
  obtain ⟨hne, hblank, hspaced⟩ := hword
  rw [hspaced, List.cons_append, List.append_assoc, List.singleton_append, splitWord_blank hspace,
    wordsOf_append hspace, wordsOf_word hne hblank, List.singleton_append]

theorem splitWord_plain {c : Char} (h : signWord? c = none) (hc : isBlank c = false)
    (cs : List Char) : splitWord (spaced c ++ cs) = (c :: (splitWord cs).1, (splitWord cs).2) := by
  have hspaced : spaced c = [c] := by
    unfold signWord? at h
    unfold spaced
    split at h
    · cases h
    · rename_i heq
      rw [if_neg heq]
      split at h
      · cases h
      · rename_i hsign
        rw [if_neg hsign]
  rw [hspaced, List.singleton_append, splitWord_letter hc]

/-- Where the first word that a word spells ends, and the sign that ends it. -/
theorem splitWord_spelled {w : List Char} (hw : ∀ c ∈ w, isBlank c = false) :
    ∃ back, w = (splitWord (w.flatMap spaced)).1 ++ back ∧
      (back = [] ∨ ∃ c cs v, back = c :: cs ∧ signWord? c = some v ∧
        (splitWord (w.flatMap spaced)).2 = v :: wordsOf (cs.flatMap spaced)) := by
  induction w with
  | nil => exact ⟨[], rfl, .inl rfl⟩
  | cons c w ih =>
    obtain ⟨hc, hw⟩ := List.forall_mem_cons.1 hw
    rw [List.flatMap_cons]
    cases hsign : signWord? c with
    | some v =>
      rw [splitWord_sign hsign]
      exact ⟨c :: w, rfl, .inr ⟨c, w, v, rfl, hsign, rfl⟩⟩
    | none =>
      rw [splitWord_plain hsign hc]
      obtain ⟨back, hsplit, hback⟩ := ih hw
      exact ⟨back, by rw [List.cons_append, ← hsplit], hback⟩

/-! ## Texts by what they start with -/

/-- The words of a text with its signs spelled out. -/
def spelled (cs : List Char) : List (List Char) := wordsOf (cs.flatMap spaced)

theorem spelled_blank {c : Char} (hc : isBlank c = true) (cs : List Char) :
    spelled (c :: cs) = spelled cs := by
  rw [spelled, List.flatMap_cons, spaced_of_isBlank hc, List.singleton_append,
    wordsOf_blank hc, ← spelled]

theorem spelled_sign {c : Char} {w : List Char} (h : signWord? c = some w) (cs : List Char) :
    spelled (c :: cs) = w :: spelled cs := by
  rw [spelled, List.flatMap_cons, wordsOf_eq, splitWord_sign h, if_pos rfl, ← spelled]

/-- Characters that stay together in a statement: none of them is a blank or a
    sign. -/
def IsRun (cs : List Char) : Prop := ∀ c ∈ cs, isBlank c = false ∧ c ∉ ['=', '(', ')', ',']

instance (cs : List Char) : Decidable (IsRun cs) :=
  decidable_of_iff ((cs.all fun c => !isBlank c && !(['=', '(', ')', ','].contains c)) = true)
    (by simp [IsRun, List.all_eq_true])

/-- One word of a statement. -/
def IsWord (w : String) : Prop := w ≠ "" ∧ IsRun w.toList

instance (w : String) : Decidable (IsWord w) :=
  inferInstanceAs (Decidable (w ≠ "" ∧ IsRun w.toList))

theorem IsWord.append {s w : String} (hs : IsRun s.toList) (hw : IsWord w) : IsWord (s ++ w) := by
  constructor
  · intro hnil
    exact hw.1 (String.append_eq_empty_iff.1 hnil).2
  · intro c hc
    rw [String.toList_append] at hc
    exact (List.mem_append.1 hc).elim (hs c) (hw.2 c)

theorem signWord?_eq_none {c : Char} (h : c ∉ ['=', '(', ')', ',']) : signWord? c = none := by
  simp only [List.mem_cons, List.not_mem_nil, or_false, not_or] at h
  obtain ⟨hequals, hopening, hclosing, hcomma⟩ := h
  rw [signWord?, if_neg hequals, if_neg]
  rintro (rfl | rfl | rfl) <;> contradiction

/-- Nothing follows, or something that ends a word. -/
def EndsWord (cs : List Char) : Prop :=
  ∀ c ∈ cs.head?, isBlank c = true ∨ (signWord? c).isSome = true

theorem endsWord_nil : EndsWord [] := nofun

theorem endsWord_blank {c : Char} (hc : isBlank c = true) (cs : List Char) :
    EndsWord (c :: cs) := by
  rintro _ ⟨⟩
  exact .inl hc

theorem endsWord_sign {c : Char} {w : List Char} (h : signWord? c = some w) (cs : List Char) :
    EndsWord (c :: cs) := by
  rintro _ ⟨⟩
  exact .inr (by rw [h]; rfl)

theorem EndsWord.splitWord {rest : List Char} (h : EndsWord rest) :
    splitWord (rest.flatMap spaced) = ([], spelled rest) := by
  cases rest with
  | nil => rfl
  | cons c cs =>
    rcases h c rfl with hc | hc
    · rw [spelled_blank hc, List.flatMap_cons, spaced_of_isBlank hc, List.singleton_append,
        splitWord_blank hc, ← spelled]
    · obtain ⟨w, hw⟩ := Option.isSome_iff_exists.1 hc
      rw [spelled_sign hw, List.flatMap_cons, splitWord_sign hw, ← spelled]

/-- A run without blanks and signs is one word up to what ends it. -/
theorem splitWord_run {run rest : List Char} (h : IsRun run) (hrest : EndsWord rest) :
    splitWord ((run ++ rest).flatMap spaced) = (run, spelled rest) := by
  induction run with
  | nil => exact hrest.splitWord
  | cons c run ih =>
    obtain ⟨⟨hblank, hsign⟩, hrun⟩ : _ ∧ IsRun run := List.forall_mem_cons.1 h
    rw [List.cons_append, List.flatMap_cons,
      splitWord_plain (signWord?_eq_none hsign) hblank, ih hrun]

theorem IsWord.spelled {w : String} (h : IsWord w) {rest : List Char} (hrest : EndsWord rest) :
    spelled (w.toList ++ rest) = w.toList :: spelled rest := by
  have hne : w.toList ≠ [] := fun hnil => h.1 (String.toList_eq_nil_iff.1 hnil)
  rw [Text.spelled, wordsOf_eq, splitWord_run h.2 hrest, if_neg hne]

/-! ## Texts by their words -/

/-- A text is cut into words, whatever ends the last one of them. -/
def CutInto (cs : List Char) (ws : List String) : Prop :=
  ∀ rest, EndsWord rest → spelled (cs ++ rest) = ws.map String.toList ++ spelled rest

theorem CutInto.nil : CutInto [] [] := fun _ _ => rfl

theorem IsWord.cutInto {w : String} (h : IsWord w) : CutInto w.toList [w] :=
  fun _ hrest => h.spelled hrest

theorem CutInto.blank {cs ds : List Char} {us ws : List String} (h : CutInto cs us)
    (h' : CutInto ds ws) {c : Char} (hc : isBlank c = true) :
    CutInto (cs ++ c :: ds) (us ++ ws) := by
  intro rest hrest
  rw [List.append_assoc, List.cons_append, h _ (endsWord_blank hc _), spelled_blank hc,
    h' rest hrest, List.map_append, List.append_assoc]

theorem CutInto.sign {cs ds : List Char} {us ws : List String} (h : CutInto cs us)
    (h' : CutInto ds ws) {c : Char} {w : String} (hc : signWord? c = some w.toList) :
    CutInto (cs ++ c :: ds) (us ++ w :: ws) := by
  intro rest hrest
  rw [List.append_assoc, List.cons_append, h _ (endsWord_sign hc _), spelled_sign hc, h' rest hrest,
    List.map_append, List.map_cons, List.append_assoc, List.cons_append]

theorem CutInto.statementWords {s : String} {ws : List String} (h : CutInto s.toList ws) :
    statementWords s = ws := by
  have hwords := h [] endsWord_nil
  have hnone : Text.spelled [] = [] := rfl
  rw [List.append_nil, hnone, List.append_nil] at hwords
  have hofList : String.ofList ∘ String.toList = id := funext fun _ => String.ofList_toList
  rw [Text.statementWords, ← Text.spelled, hwords, List.map_map, hofList, List.map_id]

end FuzzyInference.Text
