import FuzzyInference.Text.Basic
import Mathlib.Data.List.Infix

/-!
# Splitting text into lines and joining them

Lines are joined with a line feed between them. Splitting takes away more than
was put in: a line feed at the end of a text, and a carriage return before a
line feed. Joining the lines of a text gives it back exactly if it has neither.

Results:

* `linesOf_append`: a line, a line feed and more text.
* `intercalate_lines_iff`: the texts that their lines give back.
-/

namespace FuzzyInference.Text

/-- A line without the carriage return at its end. -/
def dropReturn (cs : List Char) : List Char := if cs.getLast? = some '\r' then cs.dropLast else cs

theorem dropReturn_cons (c : Char) {cs : List Char} (h : cs ≠ []) :
    dropReturn (c :: cs) = c :: dropReturn cs := by
  obtain ⟨d, ds, rfl⟩ := List.exists_cons_of_ne_nil h
  unfold dropReturn
  rw [List.getLast?_cons_cons, List.dropLast_cons_cons]
  split <;> rfl

/-- The lines of a text that starts with a character other than a line ending. -/
theorem linesOf_cons {c : Char} {cs : List Char} (hfeed : c ≠ '\n')
    (hreturn : c = '\r' → ∀ rest, cs ≠ '\n' :: rest) :
    linesOf (c :: cs) =
      match linesOf cs with
      | [] => [[c]]
      | line :: rest => (c :: line) :: rest :=
  linesOf.eq_4 c cs hfeed fun rest hc hcs => hreturn hc rest hcs

theorem linesOf_eq_nil_iff {cs : List Char} : linesOf cs = [] ↔ cs = [] := by
  constructor
  · intro h
    unfold linesOf at h
    split at h
    · rfl
    · cases h
    · cases h
    · split at h <;> cases h
  · rintro rfl
    rfl

theorem not_mem_of_mem_linesOf {cs line : List Char} (h : line ∈ linesOf cs) : '\n' ∉ line := by
  fun_induction linesOf cs generalizing line with
  | case1 => cases h
  | case2 cs ih =>
    rcases List.mem_cons.1 h with rfl | h
    · exact List.not_mem_nil
    · exact ih h
  | case3 cs ih =>
    rcases List.mem_cons.1 h with rfl | h
    · exact List.not_mem_nil
    · exact ih h
  | case4 c cs hfeed _ _ _ =>
    rw [List.mem_singleton.1 h, List.mem_singleton]
    exact fun e => hfeed e.symm
  | case5 c cs hfeed _ first rest hlines ih =>
    rcases List.mem_cons.1 h with rfl | h
    · rw [List.mem_cons, not_or]
      exact ⟨fun e => hfeed e.symm, ih (hlines ▸ List.mem_cons_self)⟩
    · exact ih (hlines ▸ List.mem_cons_of_mem _ h)

theorem linesOf_of_not_mem {cs : List Char} (h : '\n' ∉ cs) (hne : cs ≠ []) :
    linesOf cs = [cs] := by
  induction cs with
  | nil => exact absurd rfl hne
  | cons c cs ih =>
    rw [List.mem_cons, not_or] at h
    rw [linesOf_cons (fun e => h.1 e.symm) fun _ rest e =>
      h.2 (by rw [e]; exact List.mem_cons_self)]
    by_cases hcs : cs = []
    · rw [hcs]
      rfl
    · rw [ih h.2 hcs]

/-- A line, a line feed and more text. -/
theorem linesOf_append {cs : List Char} (h : '\n' ∉ cs) (rest : List Char) :
    linesOf (cs ++ '\n' :: rest) = dropReturn cs :: linesOf rest := by
  induction cs with
  | nil => rfl
  | cons c cs ih =>
    rw [List.mem_cons, not_or] at h
    have hfeed : c ≠ '\n' := fun e => h.1 e.symm
    rw [List.cons_append]
    by_cases hcs : cs = []
    · -- The line has one character: the reader takes a carriage return for a part of
      -- the line ending.
      by_cases hc : c = '\r'
      · rw [hcs, hc]
        rfl
      · rw [linesOf_cons hfeed fun e => absurd e hc, ih h.2, hcs]
        have : dropReturn [c] = [c] := if_neg fun e => hc (Option.some.inj e)
        rw [this]
        rfl
    · have hnot : ∀ rest', cs ++ '\n' :: rest ≠ '\n' :: rest' := by
        intro rest' e
        obtain ⟨d, ds, rfl⟩ := List.exists_cons_of_ne_nil hcs
        exact h.2 ((List.cons.inj e).1 ▸ List.mem_cons_self)
      rw [linesOf_cons hfeed fun _ => hnot, ih h.2, dropReturn_cons c hcs]

/-! ## Texts that their lines give back -/

theorem intercalate_cons {line : List Char} {lines : List (List Char)} (h : lines ≠ []) :
    ['\n'].intercalate (line :: lines) = line ++ '\n' :: ['\n'].intercalate lines := by
  obtain ⟨first, rest, rfl⟩ := List.exists_cons_of_ne_nil h
  rw [List.intercalate_cons_cons, List.append_assoc]
  rfl

/-- A character before a text adds no line ending of its own, unless it is one. -/
theorem clean_cons {c : Char} {cs : List Char} (hfeed : c ≠ '\n')
    (hreturn : c = '\r' → ∀ rest, cs ≠ '\n' :: rest) :
    (¬ ['\n'] <:+ c :: cs ∧ ¬ ['\r', '\n'] <:+: c :: cs) ↔
    ¬ ['\n'] <:+ cs ∧ ¬ ['\r', '\n'] <:+: cs := by
  have hend : ['\n'] <:+ c :: cs ↔ ['\n'] <:+ cs := by
    rw [List.suffix_cons_iff, List.cons.injEq]
    exact or_iff_right fun e => hfeed e.1.symm
  have hinside : ['\r', '\n'] <:+: c :: cs ↔ ['\r', '\n'] <:+: cs := by
    rw [List.infix_cons_iff]
    refine or_iff_right ?_
    rintro ⟨rest, e⟩
    rw [List.cons_append, List.cons.injEq] at e
    exact hreturn e.1.symm rest e.2.symm
  rw [hend, hinside]

/-- Joining the lines of a text gives it back exactly if it does not end in a line
    feed and has no carriage return before one. -/
theorem intercalate_linesOf_iff (cs : List Char) :
    ['\n'].intercalate (linesOf cs) = cs ↔ ¬ ['\n'] <:+ cs ∧ ¬ ['\r', '\n'] <:+: cs := by
  fun_induction linesOf cs with
  | case1 => simp
  | case2 cs ih =>
    by_cases hcs : cs = []
    · simp [hcs, linesOf]
    · have hlines : linesOf cs ≠ [] := fun e => hcs (linesOf_eq_nil_iff.1 e)
      rw [intercalate_cons hlines, List.nil_append, List.cons.injEq, ih, List.suffix_cons_iff,
        List.infix_cons_iff]
      simp [hcs]
  | case3 cs _ =>
    -- The carriage return is lost, so the joined lines cannot start with it.
    constructor
    · intro h
      by_cases hlines : linesOf cs = []
      · rw [hlines] at h
        cases h
      · rw [intercalate_cons hlines] at h
        exact absurd (List.cons.inj h).1 (by decide)
    · rintro ⟨-, h⟩
      exact absurd ⟨[], cs, rfl⟩ h
  | case4 c cs hfeed hreturn hlines ih =>
    rw [clean_cons hfeed fun hc rest => hreturn rest hc, linesOf_eq_nil_iff.1 hlines]
    simp
  | case5 c cs hfeed hreturn first rest hlines ih =>
    rw [clean_cons hfeed fun hc rest => hreturn rest hc, ← ih, hlines]
    cases rest with
    | nil => simp
    | cons second rest => simp [List.intercalate_cons_cons]

theorem toList_intercalate_lines (s : String) :
    ("\n".intercalate (lines s)).toList = ['\n'].intercalate (linesOf s.toList) := by
  rw [String.toList_intercalate, lines, List.map_map]
  have hid : String.toList ∘ String.ofList = id := by
    funext cs
    exact String.toList_ofList
  rw [hid, List.map_id]
  rfl

theorem intercalate_lines_iff (s : String) :
    "\n".intercalate (lines s) = s ↔ ¬ ['\n'] <:+ s.toList ∧ ¬ ['\r', '\n'] <:+: s.toList := by
  rw [← intercalate_linesOf_iff, ← String.toList_inj, toList_intercalate_lines]

theorem not_mem_of_mem_lines {s line : String} (h : line ∈ lines s) : '\n' ∉ line.toList := by
  obtain ⟨cs, hcs, rfl⟩ := List.mem_map.1 h
  rw [String.toList_ofList]
  exact not_mem_of_mem_linesOf hcs

/-! ## The lines of joined lines -/

theorem lines_intercalate_singleton {line : String} (h : '\n' ∉ line.toList) (hne : line ≠ "") :
    lines ("\n".intercalate [line]) = [line] := by
  have hcs : line.toList ≠ [] := fun e => hne (String.toList_eq_nil_iff.1 e)
  rw [String.intercalate_singleton, lines, linesOf_of_not_mem h hcs, List.map_singleton,
    String.ofList_toList]

theorem lines_intercalate_cons {line : String} {rest : List String} (h : '\n' ∉ line.toList)
    (hne : rest ≠ []) :
    lines ("\n".intercalate (line :: rest)) =
      String.ofList (dropReturn line.toList) :: lines ("\n".intercalate rest) := by
  have happend : ("\n".intercalate (line :: rest)).toList =
      line.toList ++ '\n' :: ("\n".intercalate rest).toList := by
    rw [String.intercalate_cons_of_ne_nil hne, String.toList_append, String.toList_append,
      List.append_assoc]
    rfl
  rw [lines, happend, linesOf_append h, List.map_cons, lines]

end FuzzyInference.Text
