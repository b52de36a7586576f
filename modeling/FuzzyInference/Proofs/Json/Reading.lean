import FuzzyInference.Proofs.Json.Number

/-!
# Steps of the reader

When each step of the JSON reader succeeds: the pieces it reads, one after the
other, and what it makes of them. Every character of a string has an escape, which
is read as the character, so a string is read back from its text, up to the closing
quote.

Results:

* `readString_escape` and `quotedString_escapes`: the escapes of a character and of a string.
* `value_null`, `value_true`, `value_false`, `value_number`, `value_string`: values without parts.
* `value_array`, `items_last`, `items_more`: arrays, item by item.
* `value_object`, `members_last`, `members_more`: objects, member by member.
-/

namespace FuzzyInference.Json

/-! ## Strings -/

/-- A control character has two digits behind two zeros. -/
theorem digits_control : ∀ n < 32,
    List.replicate (4 - (Nat.toDigits 16 n).length) '0' ++ Nat.toDigits 16 n =
      ['0', '0', Nat.digitChar (n / 16), Nat.digitChar (n % 16)] := by decide

theorem hexCode?_control : ∀ n < 32,
    hexCode? '0' '0' (Nat.digitChar (n / 16)) (Nat.digitChar (n % 16)) = some n := by decide

/-- A character that stands for itself. -/
theorem readString_plain {c : Char} (hquote : c ≠ '"') (hslash : c ≠ '\\') (hcode : ¬ c.toNat < 32)
    (done : List Char) (whole : Bool) (cs : List Char) :
    readString none done whole (c :: cs) = readString none (c :: done) whole cs := by
  have hplain : ¬ (c.toNat < 32 ∨ c = '\\') := not_or.2 ⟨hcode, hslash⟩
  rw [readString.eq_def]
  split
  · contradiction
  · rename_i heq
    exact absurd (List.cons.inj heq).1 hquote
  · rename_i heq
    exact absurd (List.cons.inj heq).1 hslash
  · rename_i heq
    exact absurd (List.cons.inj heq).1 hslash
  · rename_i heq
    cases heq
    rw [if_neg hplain, Option.isNone_none, Bool.and_true]

/-- The escape of one character. -/
theorem readString_escape (c : Char) (done : List Char) (whole : Bool) (cs : List Char) :
    readString none done whole (escape c ++ cs) = readString none (c :: done) whole cs := by
  unfold escape
  split
  case h_8 hquote hslash _ _ _ _ _ =>
    split
    · -- A code below 32 is no half of a surrogate pair.
      rename_i hcontrol
      have hsurrogate : ¬ (0xd800 ≤ c.toNat ∧ c.toNat < 0xdc00) := by omega
      have hsurrogate' : ¬ (0xdc00 ≤ c.toNat ∧ c.toNat < 0xe000) := by omega
      dsimp only
      rw [List.cons_append, List.cons_append, List.cons_append, digits_control _ hcontrol]
      simp only [List.cons_append, List.nil_append, readString, hexCode?_control _ hcontrol]
      rw [if_neg hsurrogate, if_neg hsurrogate', Char.ofNat_toNat, Option.isNone_none,
        Bool.and_true]
    · rename_i hcode
      exact readString_plain hquote hslash hcode done whole cs
  all_goals simp [readString, shortEscape?]

theorem readString_escapes (cs done : List Char) (whole : Bool) (rest : List Char) :
    readString none done whole (cs.flatMap escape ++ '"' :: rest) =
      some (⟨done.reverse ++ cs, whole⟩, rest) := by
  induction cs generalizing done with
  | nil => simp [readString]
  | cons c cs ih => rw [List.flatMap_cons, List.append_assoc, readString_escape, ih]; simp

/-- The escapes of a string behind its opening quote. -/
theorem quotedString_escapes (s : String) (rest : List Char) :
    ∃ h, quotedString (s.toList.flatMap escape ++ '"' :: rest) =
      some (⟨s.toList, true⟩, ⟨rest, h⟩) := by
  have hread := readString_escapes s.toList [] true rest
  unfold quotedString
  split
  · rename_i hnone
    rw [hread] at hnone
    cases hnone
  · rename_i hsome
    have hlength := length_readString hread
    rw [hread] at hsome
    cases hsome
    exact ⟨hlength, rfl⟩

variable {depth : Nat} {cs after more rest : List Char} {j : Json Float}

/-! ## Gaps -/

theorem dropGap_cons {c : Char} (h : isGap c = false) (cs : List Char) :
    dropGap (c :: cs) = c :: cs := by
  rw [dropGap, List.dropWhile_cons, h]
  rfl

theorem dropGap_append {gap : List Char} (h : ∀ c ∈ gap, isGap c = true) (cs : List Char) :
    dropGap (gap ++ cs) = dropGap cs :=
  List.dropWhile_append_of_pos h

/-! ## Values without parts -/

theorem value_string (depth : Nat) (s : String) (rest : List Char) :
    Reads (value depth ('"' :: (s.toList.flatMap escape ++ '"' :: rest))) (.string s) rest := by
  obtain ⟨h, hread⟩ := quotedString_escapes s rest
  rw [Reads, value.eq_2, hread]
  simp

/-- A character that starts no string, array or object starts a number or a word. -/
theorem value_cons {c : Char} (hc : c ≠ '"' ∧ c ≠ '[' ∧ c ≠ '\x7b') (depth : Nat) (cs : List Char) :
    value depth (c :: cs) = if c.isDigit || c == '-' then number (c :: cs) else keyword (c :: cs) :=
  value.eq_5 depth c cs hc.1 hc.2.1 hc.2.2

theorem value_number {t : NumberText} (h : numberText cs = some (t, [])) (hrest : Stops rest)
    (depth : Nat) : Reads (value depth (cs ++ rest)) (numberValue t) rest := by
  have hread := number_append h hrest
  obtain ⟨c, after, rfl, hc⟩ := start_of_numberText h
  have hstart : c ≠ '"' ∧ c ≠ '[' ∧ c ≠ '\x7b' := by
    refine ⟨?_, ?_, ?_⟩ <;> rintro rfl <;> exact absurd hc (by decide)
  rw [List.cons_append, value_cons hstart, if_pos hc]
  exact hread

theorem value_null (depth : Nat) (rest : List Char) :
    Reads (value depth ("null".toList ++ rest)) .null rest := by
  rw [show "null".toList ++ rest = 'n' :: 'u' :: 'l' :: 'l' :: rest from rfl,
    value_cons (by decide)]
  rfl

theorem value_true (depth : Nat) (rest : List Char) :
    Reads (value depth ("true".toList ++ rest)) (.bool true) rest := by
  rw [show "true".toList ++ rest = 't' :: 'r' :: 'u' :: 'e' :: rest from rfl,
    value_cons (by decide)]
  rfl

theorem value_false (depth : Nat) (rest : List Char) :
    Reads (value depth ("false".toList ++ rest)) (.bool false) rest := by
  rw [show "false".toList ++ rest = 'f' :: 'a' :: 'l' :: 's' :: 'e' :: rest from rfl,
    value_cons (by decide)]
  rfl

/-- No value starts with a gap or with a closing bracket. -/
theorem value_eq_none {c : Char} (hc : isGap c = true ∨ c = ']') (depth : Nat) (cs : List Char) :
    value depth (c :: cs) = none := by
  have hcases : c = ' ' ∨ c = '\n' ∨ c = '\t' ∨ c = '\r' ∨ c = ']' := by
    simpa [isGap, or_assoc] using hc
  rcases hcases with rfl | rfl | rfl | rfl | rfl <;>
  · rw [value_cons (by decide)]
    rfl

theorem value_start (h : Reads (value depth cs) j rest) :
    ∃ c after, cs = c :: after ∧ isGap c = false ∧ c ≠ ']' := by
  obtain ⟨hlength, h⟩ := h.eq_some
  cases cs with
  | nil => cases hlength
  | cons c after =>
    refine ⟨c, after, rfl, ?_⟩
    by_contra hc
    rw [not_and_or, Bool.not_eq_false, not_not] at hc
    rw [value_eq_none hc] at h
    cases h

theorem dropGap_of_value (h : Reads (value depth cs) j rest) : dropGap cs = cs := by
  obtain ⟨c, after, rfl, hc, -⟩ := value_start h
  exact dropGap_cons hc after

/-! ## Arrays

The reader matches on the skipped text together with a proof of its length. So the text is not
rewritten under the match: the match is split, and the equation leaves one of its cases.
-/

theorem limited_of_lt (h : depth < depthLimit) (j : Json Float) : limited (depth + 1) j = j :=
  if_neg (by omega)

theorem value_emptyArray (hdepth : depth < depthLimit) (rest : List Char) :
    Reads (value depth ('[' :: ']' :: rest)) (.array []) rest := by
  have hgap : dropGap (']' :: rest) = ']' :: rest := dropGap_cons (by decide) rest
  rw [Reads, value.eq_3]
  split <;> rename_i heq <;> rw [hgap] at heq <;> cases heq
  simp only [if_pos, Option.map_some, limited_of_lt hdepth]

theorem value_array {js : List (Json Float)} {c : Char} (hgap : dropGap cs = c :: more)
    (hc : c ≠ ']') (h : Reads (items (depth + 1) [] (c :: more)) js rest)
    (hdepth : depth < depthLimit) :
    Reads (value depth ('[' :: cs)) (.array js) rest := by
  obtain ⟨hlength, h⟩ := h.eq_some
  rw [Reads, value.eq_3]
  split <;> rename_i heq <;> rw [hgap] at heq <;> cases heq
  simp only [if_neg hc, h, Option.map_some, limited_of_lt hdepth]

theorem items_last {done : List (Json Float)} (hj : Reads (value depth cs) j after)
    (hgap : dropGap after = ']' :: rest) :
    Reads (items depth done cs) (done.reverse ++ [j]) rest := by
  obtain ⟨hlength, hj⟩ := hj.eq_some
  rw [Reads, items, hj]
  dsimp only
  split <;> rename_i heq <;> rw [hgap] at heq <;> cases heq
  simp

theorem items_more {done js : List (Json Float)} (hj : Reads (value depth cs) j after)
    (hgap : dropGap after = ',' :: more)
    (h : Reads (items depth (j :: done) (dropGap more)) js rest) :
    Reads (items depth done cs) js rest := by
  obtain ⟨hlength, hj⟩ := hj.eq_some
  obtain ⟨hlength', h⟩ := h.eq_some
  rw [Reads, items, hj]
  dsimp only
  split <;> rename_i heq <;> rw [hgap] at heq <;> cases heq
  simp only [if_pos, h, Option.map_some]

/-! ## Objects -/

theorem value_emptyObject (hdepth : depth < depthLimit) (rest : List Char) :
    Reads (value depth ('\x7b' :: '\x7d' :: rest)) (.object []) rest := by
  have hgap : dropGap ('\x7d' :: rest) = '\x7d' :: rest := dropGap_cons (by decide) rest
  rw [Reads, value.eq_4]
  split <;> rename_i heq <;> rw [hgap] at heq <;> cases heq
  simp only [if_pos, Option.map_some, limited_of_lt hdepth]

theorem value_object (hgap : dropGap cs = '"' :: more)
    (h : Reads (members (depth + 1) [] true ('"' :: more)) j rest) (hdepth : depth < depthLimit) :
    Reads (value depth ('\x7b' :: cs)) j rest := by
  obtain ⟨hlength, h⟩ := h.eq_some
  rw [Reads, value.eq_4]
  split <;> rename_i heq <;> rw [hgap] at heq <;> cases heq
  have hc : '"' ≠ '\x7d' := by decide
  simp only [if_neg hc, h, Option.map_some, limited_of_lt hdepth]

/-- The text of a member, whose value starts with the given text. -/
def memberText (name : String) (cs : List Char) : List Char :=
  '"' :: (name.toList.flatMap escape ++ '"' :: ':' :: ' ' :: cs)

theorem value_behindBlank (h : Reads (value depth cs) j after) :
    Reads (value depth (dropGap (' ' :: cs))) j after := by
  have hblank : dropGap (' ' :: cs) = dropGap cs := List.dropWhile_cons_of_pos rfl
  rw [hblank, dropGap_of_value h]
  exact h

theorem members_last {name : String} {done : List (String × Json Float)}
    (hj : Reads (value depth cs) j after) (hgap : dropGap after = '\x7d' :: rest) :
    Reads (members depth done true (memberText name cs))
      (.object (done.reverse ++ [(name, j)])) rest := by
  obtain ⟨hquoted, hname⟩ := quotedString_escapes name (':' :: ' ' :: cs)
  obtain ⟨hlength, hj⟩ := (value_behindBlank hj).eq_some
  have hcolon : dropGap (':' :: ' ' :: cs) = ':' :: ' ' :: cs := dropGap_cons (by decide) _
  rw [Reads, memberText, members.eq_1, hname]
  dsimp only
  split <;> rename_i heq <;> rw [hcolon] at heq <;> cases heq
  rw [if_pos rfl, hj]
  dsimp only
  split <;> rename_i heq <;> rw [hgap] at heq <;> cases heq
  simp

theorem members_more {name : String} {done : List (String × Json Float)} {o : Json Float}
    (hj : Reads (value depth cs) j after) (hgap : dropGap after = ',' :: more)
    (h : Reads (members depth ((name, j) :: done) true (dropGap more)) o rest) :
    Reads (members depth done true (memberText name cs)) o rest := by
  obtain ⟨hquoted, hname⟩ := quotedString_escapes name (':' :: ' ' :: cs)
  obtain ⟨hlength, hj⟩ := (value_behindBlank hj).eq_some
  obtain ⟨hlength', h⟩ := h.eq_some
  have hcolon : dropGap (':' :: ' ' :: cs) = ':' :: ' ' :: cs := dropGap_cons (by decide) _
  rw [Reads, memberText, members.eq_1, hname]
  dsimp only
  split <;> rename_i heq <;> rw [hcolon] at heq <;> cases heq
  rw [if_pos rfl, hj]
  dsimp only
  split <;> rename_i heq <;> rw [hgap] at heq <;> cases heq
  simp only [if_pos, String.ofList_toList, Bool.and_self, h, Option.map_some]

end FuzzyInference.Json
