import FuzzyInference.Proofs.Toml.Value

/-!
# Lines of a text read back

A text is read line by line. A line that sets a name to a value makes one
statement, whatever stands before and behind it, and so does the header of a
table; a blank line makes none. So the statements of a text are those of its
lines, in order.

Results:

* `lines_entry`, `lines_header` and `lines_blank`: what single lines make.
* `Lines.append`: what several lines make.
* `read?_of_lines`: the tables of a text that is made of lines.
-/

namespace FuzzyInference.Toml

/-! ## Written lines -/

theorem dropSpace_cons {c : Char} (hc : isSpace c = false) (cs : List Char) :
    dropSpace (c :: cs) = c :: cs :=
  List.dropWhile_cons_of_neg (by simp [hc])

/-- A value does not start with a blank. -/
theorem isSpace_of_value {levels : ℕ} {c : Char} {cs : List Char} {r : Rest (Toml Float)}
    (h : value levels (c :: cs) = some r) : isSpace c = false := by
  by_contra hspace
  rw [Bool.not_eq_false, isSpace, Bool.or_eq_true, beq_iff_eq, beq_iff_eq] at hspace
  have hnone : value levels (c :: cs) = none := by
    rcases hspace with rfl | rfl
    · exact value_start (by decide) rfl levels cs
    · exact value_start (by decide) rfl levels cs
  rw [hnone] at h
  cases h

/-- Characters that may all stand in a name without quotes, of which there is at
    least one. -/
structure IsName (name : String) : Prop where
  all : name.toList.all isBare = true
  nonempty : name.toList ≠ []

theorem IsName.bare {name : String} (hname : IsName name) : ∀ c ∈ name.toList, isBare c = true :=
  List.all_eq_true.1 hname.all

theorem isSpace_of_isBare {c : Char} (hc : isBare c = true) : isSpace c = false := by
  by_contra hspace
  rw [Bool.not_eq_false, isSpace, Bool.or_eq_true, beq_iff_eq, beq_iff_eq] at hspace
  rcases hspace with rfl | rfl <;> exact absurd hc (by decide)

theorem keyName_name {name : String} (hname : IsName name) {rest : List Char}
    (hrest : ∀ c ∈ rest.head?, isBare c = false) :
    keyName (name.toList ++ rest) = some (name, rest) := by
  have htake : (name.toList ++ rest).takeWhile isBare = name.toList := by
    rw [List.takeWhile_append_of_pos hname.bare]
    cases rest with
    | nil => simp
    | cons c rest => simp [hrest c rfl]
  have hdrop : (name.toList ++ rest).dropWhile isBare = rest := by
    rw [List.dropWhile_append_of_pos hname.bare]
    cases rest with
    | nil => simp
    | cons c rest => simp [hrest c rfl]
  have hempty : name.toList.isEmpty = false := List.isEmpty_eq_false_iff.2 hname.nonempty
  unfold keyName
  split
  · rename_i heq
    obtain ⟨c, cs, hchars⟩ := List.exists_cons_of_ne_nil hname.nonempty
    have hbare := hname.bare c (by simp [hchars])
    rw [hchars] at heq
    rw [(List.cons.inj heq).1] at hbare
    exact absurd hbare (by decide)
  · rename_i heq
    obtain ⟨c, cs, hchars⟩ := List.exists_cons_of_ne_nil hname.nonempty
    have hbare := hname.bare c (by simp [hchars])
    rw [hchars] at heq
    rw [(List.cons.inj heq).1] at hbare
    exact absurd hbare (by decide)
  · simp [htake, hdrop, hempty]

/-- A single name as a key. -/
theorem key_name {name : String} (hname : IsName name) {rest : List Char}
    (hrest : ∀ c ∈ rest.head?, isBare c = false) (hpoint : ∀ c ∈ (dropSpace rest).head?, c ≠ '.') :
    key (name.toList ++ rest) = some (⟨[], name⟩, dropSpace rest) := by
  obtain ⟨c, cs, hchars⟩ := List.exists_cons_of_ne_nil hname.nonempty
  have hspace : dropSpace (name.toList ++ rest) = name.toList ++ rest := by
    rw [hchars]
    exact dropSpace_cons (isSpace_of_isBare (hname.bare c (by simp [hchars]))) _
  have hnames : keyNames [] (name.toList ++ rest) = some ([name], dropSpace rest) := by
    rw [keyNames, hspace, keyName_name hname hrest]
    dsimp only
    split
    · rename_i heq
      rw [heq] at hpoint
      exact absurd rfl (hpoint '.' rfl)
    · rfl
  unfold key
  rw [hnames]
  rfl

/-! ## Whole texts -/

/-- Lines that make statements, wherever in a text they stand. -/
def Lines (cs : List Char) (ss : List (Statement Float)) : Prop :=
  ∀ done rest, statements done (cs ++ rest) = statements (ss.reverse ++ done) rest

theorem statements_nil (done : List (Statement Float)) :
    statements done [] = some done.reverse := by
  rw [statements]
  rfl

theorem Lines.append {cs ds : List Char} {ss ts : List (Statement Float)} (hcs : Lines cs ss)
    (hds : Lines ds ts) : Lines (cs ++ ds) (ss ++ ts) := by
  intro done rest
  rw [List.append_assoc, hcs, hds, List.reverse_append, List.append_assoc]

theorem lines_blank : Lines ['\n'] [] := by
  intro done rest
  have hline : afterLine? ('\n' :: rest) = some rest := rfl
  rw [List.cons_append, List.nil_append, statements, hline]
  cases rest with
  | nil => exact (statements_nil done).symm
  | cons c rest => exact if_pos (by simp)

/-- A line that starts with neither a blank nor a comment holds a statement. -/
theorem lines_statement {cs : List Char} {s : Statement Float}
    (hstart : ∀ c ∈ cs.head?, isSpace c = false ∧ c ≠ '#' ∧ c ≠ '\n' ∧ c ≠ '\r') (hne : cs ≠ [])
    (hs : ∀ rest, statement (cs ++ rest) = some (s, rest)) : Lines cs [s] := by
  obtain ⟨c, cs, rfl⟩ := List.exists_cons_of_ne_nil hne
  obtain ⟨hspace, hcomment, hnewline, hreturn⟩ := hstart c rfl
  intro done rest
  have hdrop : dropSpace (c :: cs ++ rest) = c :: cs ++ rest := dropSpace_cons hspace _
  have hline : afterLine? (c :: cs ++ rest) = none := by
    unfold afterLine?
    rw [hdrop]
    simp only [List.cons_append]
    split
    · rename_i heq
      exact absurd (List.cons.inj heq).1 hcomment
    · rw [List.isEmpty_cons, if_neg Bool.false_ne_true]
      unfold afterNewline?
      split
      · rename_i heq
        exact absurd (List.cons.inj heq).1 hnewline
      · rename_i heq
        exact absurd (List.cons.inj heq).1 hreturn
      · rfl
  rw [statements, hline]
  simp only [hdrop, hs]
  cases rest with
  | nil => exact (statements_nil _).symm
  | cons d rest => exact if_pos (by simp)

/-- A line that sets a name to a value. -/
theorem lines_entry {name : String} (hname : IsName name) {cs : List Char} {v : Toml Float}
    (hv : ∀ levels rest, value levels (cs ++ '\n' :: rest) = some (v, '\n' :: rest)) :
    Lines (name.toList ++ ' ' :: '=' :: ' ' :: (cs ++ ['\n'])) [.entry ⟨[], name⟩ v] := by
  obtain ⟨c, ds, hchars⟩ := List.exists_cons_of_ne_nil hname.nonempty
  have hbare := hname.bare c (by simp [hchars])
  have hother : ∀ d, isBare d = false → c ≠ d := by
    rintro d hd rfl
    rw [hbare] at hd
    cases hd
  refine lines_statement ?_ (by simp) fun rest => ?_
  · rw [hchars]
    rintro d ⟨⟩
    exact ⟨isSpace_of_isBare hbare, hother _ (by decide), hother _ (by decide),
      hother _ (by decide)⟩
  · have hkey : key (name.toList ++ (' ' :: '=' :: ' ' :: (cs ++ '\n' :: rest))) =
        some (⟨[], name⟩, '=' :: ' ' :: (cs ++ '\n' :: rest)) :=
      key_name hname (by rintro d ⟨⟩; decide) (by rintro d ⟨⟩; decide)
    have hspace : dropSpace (' ' :: (cs ++ '\n' :: rest)) = cs ++ '\n' :: rest := by
      cases cs with
      | nil => rfl
      | cons d cs => exact dropSpace_cons (isSpace_of_value (hv 0 rest)) _
    have htext : name.toList ++ ' ' :: '=' :: ' ' :: (cs ++ ['\n']) ++ rest =
        name.toList ++ (' ' :: '=' :: ' ' :: (cs ++ '\n' :: rest)) := by simp
    have hentry : keyValue (value (depthLimit - 1))
        (name.toList ++ (' ' :: '=' :: ' ' :: (cs ++ '\n' :: rest))) =
        some ((⟨[], name⟩, v), '\n' :: rest) := by
      simp [keyValue, hkey, after?, hspace, hv]
    rw [htext]
    unfold statement
    split
    · rename_i heq
      rw [hchars] at heq
      exact absurd (List.cons.inj heq).1 (hother _ (by decide))
    · rename_i heq
      rw [hchars] at heq
      exact absurd (List.cons.inj heq).1 (hother _ (by decide))
    · rw [hentry]
      rfl

/-- A line that opens a table. -/
theorem lines_header {name : String} (hname : IsName name) :
    Lines ('[' :: (name.toList ++ [']', '\n'])) [.header ⟨[], name⟩] := by
  obtain ⟨c, ds, hchars⟩ := List.exists_cons_of_ne_nil hname.nonempty
  have hbare := hname.bare c (by simp [hchars])
  refine lines_statement ?_ (by simp) fun rest => ?_
  · rintro d ⟨⟩
    decide
  · have hkey : key (name.toList ++ (']' :: '\n' :: rest)) =
        some (⟨[], name⟩, ']' :: '\n' :: rest) :=
      key_name hname (by rintro d ⟨⟩; decide) (by rintro d ⟨⟩; decide)
    have htext : '[' :: (name.toList ++ [']', '\n']) ++ rest = '[' ::
        (name.toList ++ (']' :: '\n' :: rest)) := by
      simp
    rw [htext]
    unfold statement
    split
    · rename_i heq
      rw [hchars] at heq
      rw [(List.cons.inj (List.cons.inj heq).2).1] at hbare
      exact absurd hbare (by decide)
    · rename_i heq
      rw [← (List.cons.inj heq).2, hkey]
      rfl
    · rename_i hheader
      exact absurd rfl (hheader _)

/-- A text that is made of lines builds the tables of their statements. -/
theorem read?_of_lines {s : String} {ss : List (Statement Float)} (hs : Lines s.toList ss)
    (hmark : s.toList.head? ≠ some '\ufeff') : read? s = ofStatements? ss := by
  have hread : statements [] s.toList = some ss := by
    have hlines := hs [] []
    rw [List.append_nil, List.append_nil, statements_nil, List.reverse_reverse] at hlines
    exact hlines
  unfold read?
  simp only
  split
  · rename_i heq
    rw [heq] at hmark
    exact absurd rfl hmark
  · rw [hread]
    rfl

end FuzzyInference.Toml
