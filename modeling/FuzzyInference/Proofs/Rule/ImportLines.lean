import FuzzyInference.Proofs.Text.Lines
import FuzzyInference.Proofs.Text.Words
import FuzzyInference.Rule.Import

/-!
# What an import reads of its lines

Only what cleaning leaves of a line counts for an import: blanks around it are
dropped, a carriage return among them, and an empty line leaves nothing. So
lines without a line feed may be joined and split again before an import.

Results:

* `cleanLine?_eq`: cleaning takes away the comment and the blanks around the rest.
* `ofLines_lines`: joined lines compile into what the lines compile into.
-/

namespace FuzzyInference

namespace Text

theorem dropBlankEnd_append {c : Char} (h : isBlank c = true) (cs : List Char) :
    dropBlankEnd (cs ++ [c]) = dropBlankEnd cs := by
  rw [dropBlankEnd, List.reverse_append, List.reverse_singleton, List.singleton_append,
    List.dropWhile_cons, if_pos h, dropBlankEnd]

theorem trimmed_append {c : Char} (h : isBlank c = true) (cs : List Char) :
    trimmed (cs ++ [c]) = trimmed cs := by
  rw [trimmed, List.dropWhile_append]
  split
  · rename_i hempty
    rw [trimmed, List.isEmpty_iff.1 hempty, List.dropWhile_cons, if_pos h]
    rfl
  · exact dropBlankEnd_append h _

theorem trimmed_append_blanks {blank : List Char} (h : ∀ c ∈ blank, isBlank c = true)
    (cs : List Char) : trimmed (cs ++ blank) = trimmed cs := by
  induction blank generalizing cs with
  | nil => rw [List.append_nil]
  | cons c blank ih =>
    obtain ⟨hc, hblank⟩ := List.forall_mem_cons.1 h
    rw [List.append_cons, ih hblank, trimmed_append hc]

theorem trimmed_dropReturn (cs : List Char) : trimmed (dropReturn cs) = trimmed cs := by
  unfold dropReturn
  split
  · rename_i hlast
    obtain ⟨front, rfl⟩ := List.getLast?_eq_some_iff.1 hlast
    have hblank : isBlank '\r' = true := by decide
    rw [List.dropLast_concat, trimmed_append hblank]
  · rfl

end Text

theorem cleanLine?_dropReturn (line : String) :
    cleanLine? (String.ofList (Text.dropReturn line.toList)) = cleanLine? line := by
  rw [cleanLine?, String.toList_ofList, Text.trimmed_dropReturn, cleanLine?]

/-! ## Comments and blanks -/

namespace Text

/-- A text up to its first comment sign. -/
def uncommented (cs : List Char) : List Char := cs.takeWhile (· ≠ '#')

theorem uncommented_cons {c : Char} (hc : c ≠ '#') (cs : List Char) :
    uncommented (c :: cs) = c :: uncommented cs :=
  List.takeWhile_cons_of_pos (decide_eq_true hc)

theorem uncommented_sign (cs : List Char) : uncommented ('#' :: cs) = [] := rfl

theorem uncommented_append_of_not_mem {cs : List Char} (h : '#' ∉ cs) (more : List Char) :
    uncommented (cs ++ more) = cs ++ uncommented more :=
  List.takeWhile_append_of_pos fun _ hc => decide_eq_true (ne_of_mem_of_not_mem hc h)

theorem uncommented_of_not_mem {cs : List Char} (h : '#' ∉ cs) : uncommented cs = cs := by
  simpa [uncommented] using uncommented_append_of_not_mem h []

theorem uncommented_append {cs : List Char} (h : '#' ∈ cs) (more : List Char) :
    uncommented (cs ++ more) = uncommented cs := by
  induction cs with
  | nil => cases h
  | cons c cs ih =>
    rw [List.cons_append]
    by_cases hc : c = '#'
    · rw [hc, uncommented_sign, uncommented_sign]
    · rw [uncommented_cons hc, uncommented_cons hc,
        ih ((List.mem_cons.1 h).resolve_left fun e => hc e.symm)]

theorem uncommented_append_sign {cs : List Char} (h : '#' ∉ cs) (comment : List Char) :
    uncommented (cs ++ '#' :: comment) = cs := by
  rw [uncommented_append_of_not_mem h, uncommented_sign, List.append_nil]

theorem ne_sign_of_isBlank {c : Char} (h : isBlank c = true) : c ≠ '#' := by
  rintro rfl
  exact absurd h (by decide)

theorem dropWhile_uncommented (cs : List Char) :
    (uncommented cs).dropWhile isBlank = uncommented (cs.dropWhile isBlank) := by
  induction cs with
  | nil => rfl
  | cons c cs ih =>
    cases hc : isBlank c with
    | true =>
      rw [uncommented_cons (ne_sign_of_isBlank hc), List.dropWhile_cons_of_pos hc,
        List.dropWhile_cons_of_pos hc, ih]
    | false =>
      have hstay : ¬ isBlank c = true := by rw [hc]; exact Bool.false_ne_true
      rw [List.dropWhile_cons_of_neg hstay]
      by_cases hsign : c = '#'
      · rw [hsign]
        rfl
      · rw [uncommented_cons hsign, List.dropWhile_cons_of_neg hstay]

theorem dropBlankEnd_ne_nil {c : Char} (hc : isBlank c = false) (cs : List Char) :
    dropBlankEnd (c :: cs) ≠ [] := by
  intro h
  have hcs := dropBlankEnd_append_end (c :: cs)
  rw [h, List.nil_append] at hcs
  have hmem : c ∈ ((c :: cs).reverse.takeWhile isBlank).reverse := by
    rw [hcs]; exact List.mem_cons_self
  rw [blank_of_mem_takeWhile (List.mem_reverse.1 hmem)] at hc
  cases hc

theorem isBlank_of_trimmed {cs ds : List Char} {c : Char} (h : trimmed cs = c :: ds) :
    isBlank c = false := by
  have hhead := List.head?_dropWhile_not isBlank cs
  rw [← dropBlankEnd_append_end (cs.dropWhile isBlank), ← trimmed, h] at hhead
  simpa using hhead

/-- What is left of a text without comment and outer blanks, by what is left with
    the comment. -/
theorem trimmed_uncommented (cs : List Char) :
    trimmed (uncommented cs) =
      if '#' ∈ trimmed cs then dropBlankEnd (uncommented (trimmed cs)) else trimmed cs := by
  have hback : ∀ c ∈ ((cs.dropWhile isBlank).reverse.takeWhile isBlank).reverse,
      c ≠ '#' := fun c hc =>
    ne_sign_of_isBlank (blank_of_mem_takeWhile (List.mem_reverse.1 hc))
  have hsplit := dropBlankEnd_append_end (cs.dropWhile isBlank)
  rw [trimmed, dropWhile_uncommented]
  split
  · rename_i hsign
    rw [← hsplit, ← trimmed, uncommented_append hsign]
  · rename_i hsign
    rw [uncommented_of_not_mem, trimmed]
    rw [← hsplit, ← trimmed, List.mem_append]
    rintro (hmem | hmem)
    · exact hsign hmem
    · exact hback _ hmem rfl

end Text

/-- Cleaning takes away the comment and then the blanks around what is left. -/
theorem cleanLine?_eq (line : String) :
    cleanLine? line =
      if Text.trimmed (Text.uncommented line.toList) = [] then none
      else some (String.ofList (Text.trimmed (Text.uncommented line.toList))) := by
  rw [cleanLine?, Text.trimmed_uncommented]
  split
  · rename_i hnil
    rw [hnil]
    rfl
  · rename_i rest hsign
    rw [hsign]
    rfl
  · rename_i hnil hsign
    obtain ⟨c, cs, hcs⟩ := List.exists_cons_of_ne_nil hnil
    by_cases hmem : '#' ∈ Text.trimmed line.toList
    · have hkept : Text.dropBlankEnd (Text.uncommented (Text.trimmed line.toList)) ≠ [] := by
        have hc : c ≠ '#' := by
          rintro rfl
          exact hsign cs hcs
        rw [hcs, Text.uncommented_cons hc]
        exact Text.dropBlankEnd_ne_nil (Text.isBlank_of_trimmed hcs) _
      rw [if_pos hmem, if_neg hkept, if_pos (List.contains_iff_mem.2 hmem)]
      rfl
    · rw [if_neg hmem, if_neg hnil, if_neg]
      rwa [List.contains_iff_mem]

/-- A comment behind a line changes nothing that cleaning leaves. -/
theorem cleanLine?_comment {line blank comment : String}
    (h : ∀ c ∈ blank.toList, Text.isBlank c = true) :
    cleanLine? (line ++ blank ++ "#" ++ comment) = cleanLine? line := by
  have happend : (line ++ blank ++ "#" ++ comment).toList =
      line.toList ++ blank.toList ++ '#' :: comment.toList := by
    rw [String.toList_append, String.toList_append, String.toList_append,
      List.append_assoc _ "#".toList]
    rfl
  have hbody : Text.trimmed (Text.uncommented (line ++ blank ++ "#" ++ comment).toList) =
      Text.trimmed (Text.uncommented line.toList) := by
    rw [happend]
    by_cases hsign : '#' ∈ line.toList
    · rw [List.append_assoc, Text.uncommented_append hsign]
    · have hnone : '#' ∉ line.toList ++ blank.toList := by
        rw [List.mem_append, not_or]
        exact ⟨hsign, fun hmem => Text.ne_sign_of_isBlank (h _ hmem) rfl⟩
      rw [Text.uncommented_append_sign hnone, Text.trimmed_append_blanks h,
        Text.uncommented_of_not_mem hsign]
  rw [cleanLine?_eq, hbody, cleanLine?_eq]

/-- A line that is blank, or whose first character that is no blank is a comment
    sign. -/
def IsSkipped (line : String) : Prop := ∀ c ∈ (line.toList.dropWhile Text.isBlank).head?, c = '#'

theorem cleanLine?_eq_none_iff {line : String} : cleanLine? line = none ↔ IsSkipped line := by
  unfold IsSkipped
  have hbody : cleanLine? line = none ↔ Text.trimmed (Text.uncommented line.toList) = [] := by
    rw [cleanLine?_eq]
    split <;> simp [*]
  rw [hbody, Text.trimmed, Text.dropWhile_uncommented]
  have hfirst := List.head?_dropWhile_not Text.isBlank line.toList
  cases hrest : line.toList.dropWhile Text.isBlank with
  | nil => exact iff_of_true rfl (by simp)
  | cons c cs =>
    rw [hrest] at hfirst
    by_cases hc : c = '#'
    · rw [hc]
      exact iff_of_true rfl (by simp)
    · rw [Text.uncommented_cons hc]
      constructor
      · intro hnil
        exact absurd hnil (Text.dropBlankEnd_ne_nil (by simpa using hfirst) _)
      · intro hall
        exact absurd (hall c rfl) hc

/-! ## Joined lines -/

/-- Splitting joined lines again changes nothing that cleaning leaves. -/
theorem filterMap_cleanLine?_lines {lines : List String} (h : ∀ line ∈ lines, '\n' ∉ line.toList) :
    (Text.lines ("\n".intercalate lines)).filterMap cleanLine? = lines.filterMap cleanLine? := by
  induction lines with
  | nil => rfl
  | cons line rest ih =>
    obtain ⟨hline, hrest⟩ := List.forall_mem_cons.1 h
    by_cases hnil : rest = []
    · rw [hnil]
      by_cases hempty : line = ""
      · rw [hempty]
        rfl
      · rw [Text.lines_intercalate_singleton hline hempty]
    · rw [Text.lines_intercalate_cons hline hnil, List.filterMap_cons, List.filterMap_cons,
        cleanLine?_dropReturn, ih hrest]

variable {α : Type} [Scalar α]

theorem RuleImport.ofLines_congr {lines lines' : List String}
    (h : lines.filterMap cleanLine? = lines'.filterMap cleanLine?) :
    (RuleImport.ofLines lines : RuleImport α) = .ofLines lines' := by
  rw [ofLines, statements, h, ofLines, statements]

/-- Joined lines compile into what the lines compile into. -/
theorem RuleImport.ofLines_lines {lines : List String} (h : ∀ line ∈ lines, '\n' ∉ line.toList) :
    (RuleImport.ofLines (Text.lines ("\n".intercalate lines)) : RuleImport α) = .ofLines lines :=
  ofLines_congr (filterMap_cleanLine?_lines h)

end FuzzyInference
