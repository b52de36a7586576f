import FuzzyInference.Proofs.Json.Reading

/-!
# Documents read back

A document is read back from its text if its scalars read back, its whole
numbers have 64 bits and it is not nested too deep. The indentation between the
pieces is skipped by the reader, and no piece runs into the one behind it.

Results:

* `value_writeAt`: a value is read back before more text.
* `read?_write`: a document is read back.
-/

namespace FuzzyInference.Json

/-- The documents that their texts give back, nested at most so many levels deep. -/
inductive Legible : Nat → Json Float → Prop
  | null {n : Nat} : Legible n .null
  | bool {n : Nat} (b : Bool) : Legible n (.bool b)
  | int {n k : Nat} (h : k < Nat.pow 2 64) : Legible n (.int k)
  | float {n : Nat} {x : Float} (h : ReadsBack x) : Legible n (.float x)
  | string {n : Nat} (s : String) : Legible n (.string s)
  | array {n : Nat} {items : List (Json Float)} (h : ∀ j ∈ items, Legible n j) :
      Legible (n + 1) (.array items)
  | object {n : Nat} {members : List (String × Json Float)} (h : ∀ e ∈ members, Legible n e.2) :
    Legible (n + 1) (.object members)

/-! ## Texts between brackets -/

/-- A line feed and the blanks of a level. -/
def newLine (level : Nat) : List Char := '\n' :: (indent level).toList

theorem isGap_of_mem_newLine {level : Nat} : ∀ c ∈ newLine level, isGap c = true := by
  intro c hc
  rcases List.mem_cons.1 hc with rfl | hc
  · rfl
  · rw [indent, String.toList_ofList] at hc
    rw [List.eq_of_mem_replicate hc]
    rfl

theorem stops_newLine (level : Nat) (rest : List Char) : Stops (newLine level ++ rest) := by
  rintro c ⟨⟩
  decide

theorem stops_comma (rest : List Char) : Stops (',' :: rest) := by
  rintro c ⟨⟩
  decide

theorem toList_intercalate_cons (separator first : String) (others : List String) :
    (separator.intercalate (first :: others)).toList =
      first.toList ++ others.flatMap fun text => separator.toList ++ text.toList := by
  induction others generalizing first with
  | nil => simp
  | cons second others ih =>
    rw [String.intercalate_cons_cons, String.toList_append, String.toList_append, ih]
    simp

/-- The texts behind the first one, each on a line of its own, and what closes
    them. -/
def others (level : Nat) (texts : List (List Char)) (after : List Char) : List Char :=
  (texts.flatMap fun text => ',' :: newLine level ++ text) ++ after

theorem others_cons (level : Nat) (text : List Char) (texts : List (List Char))
    (after : List Char) :
    others level (text :: texts) after = ',' ::
      (newLine level ++ (text ++ others level texts after)) := by
  simp [others]

theorem stops_others {after : List Char} (h : Stops after) (level : Nat)
    (texts : List (List Char)) : Stops (others level texts after) := by
  cases texts with
  | nil => exact h
  | cons text texts =>
    rw [others_cons]
    exact stops_comma _

/-- Texts between brackets, one behind the other. -/
theorem toList_bracketed (level : Nat) (opening closing first : String) (texts : List String)
    (rest : List Char) :
    (bracketed level opening closing (first :: texts)).toList ++ rest =
      opening.toList ++ (newLine (level + 1) ++ (first.toList ++
        others (level + 1) (texts.map String.toList)
          (newLine level ++ (closing.toList ++ rest)))) := by
  have hseparator : (",\n" ++ indent (level + 1)).toList = ',' :: newLine (level + 1) := by
    rw [String.toList_append]
    rfl
  unfold bracketed
  simp only [String.toList_append, toList_intercalate_cons, hseparator]
  simp [newLine, others, List.flatMap_map]

theorem writeItems_eq_map (level : Nat) (js : List (Json Float)) :
    writeItems level js = js.map (writeAt level) := by
  induction js with
  | nil => rfl
  | cons j js ih => rw [writeItems, ih, List.map_cons]

theorem writeMembers_eq_map (level : Nat) (es : List (String × Json Float)) :
    writeMembers level es = es.map fun e => quote e.1 ++ ": " ++ writeAt level e.2 := by
  induction es with
  | nil => rfl
  | cons e es ih => rw [writeMembers, ih, List.map_cons]

theorem toList_quote (s : String) :
    (quote s).toList = '"' :: (s.toList.flatMap escape ++ ['"']) := by
  simp [quote]

theorem toList_member (name text : String) :
    (quote name ++ ": " ++ text).toList = memberText name text.toList := by
  simp [toList_quote, memberText]

theorem memberText_append (name : String) (cs rest : List Char) :
    memberText name cs ++ rest = memberText name (cs ++ rest) := by
  simp [memberText]

theorem dropGap_memberText (name : String) (cs : List Char) :
    dropGap (memberText name cs) = memberText name cs :=
  dropGap_cons (by decide) _

/-! ## Items and members -/

/-- A value at a depth is read back before every text that does not go on with
    it. -/
def ReadsAt (depth level : Nat) (j : Json Float) : Prop :=
  ∀ rest, Stops rest → Reads (value depth ((writeAt level j).toList ++ rest)) j rest

variable {depth level : Nat} {after rest : List Char}

/-- Items one after the other, and what closes them. -/
theorem items_reads {j : Json Float} {js : List (Json Float)}
    (h : ∀ k ∈ j :: js, ReadsAt depth level k) (hgap : dropGap after = ']' :: rest)
    (hafter : Stops after) (done : List (Json Float)) :
    Reads (items depth done ((writeAt level j).toList ++
      others level (js.map fun k => (writeAt level k).toList) after))
        (done.reverse ++ j :: js) rest := by
  induction js generalizing j done with
  | nil => exact items_last (h j List.mem_cons_self after hafter) hgap
  | cons k js ih =>
    -- Behind the item stands a comma, and behind the comma the next item as soon as the gap is
    -- skipped.
    obtain ⟨hj, hjs⟩ := List.forall_mem_cons.1 h
    have hlater := ih hjs (j :: done)
    have hk :=
      hjs k List.mem_cons_self _
        (stops_others hafter level (js.map fun k => (writeAt level k).toList))
    rw [List.map_cons, others_cons]
    refine items_more (hj _ (stops_comma _)) (dropGap_cons (by decide) _) ?_
    rw [dropGap_append isGap_of_mem_newLine, dropGap_of_value hk]
    rw [List.reverse_cons, List.append_assoc] at hlater
    exact hlater

/-- Members one after the other, and what closes them. -/
theorem members_reads {e : String × Json Float} {es : List (String × Json Float)}
    (h : ∀ f ∈ e :: es, ReadsAt depth level f.2) (hgap : dropGap after = '\x7d' :: rest)
    (hafter : Stops after) (done : List (String × Json Float)) :
    Reads (members depth done true (memberText e.1 ((writeAt level e.2).toList ++
      others level (es.map fun f => memberText f.1 (writeAt level f.2).toList) after)))
      (.object (done.reverse ++ e :: es)) rest := by
  induction es generalizing e done with
  | nil => exact members_last (h e List.mem_cons_self after hafter) hgap
  | cons f es ih =>
    obtain ⟨he, hes⟩ := List.forall_mem_cons.1 h
    have hlater := ih hes (e :: done)
    rw [List.map_cons, others_cons]
    refine members_more (he _ (stops_comma _)) (dropGap_cons (by decide) _) ?_
    rw [dropGap_append isGap_of_mem_newLine, memberText_append, dropGap_memberText]
    rw [List.reverse_cons, List.append_assoc] at hlater
    exact hlater

theorem dropGap_close {c : Char} (hc : isGap c = false) (level : Nat) (rest : List Char) :
    dropGap (newLine level ++ (c :: rest)) = c :: rest := by
  rw [dropGap_append isGap_of_mem_newLine, dropGap_cons hc]

theorem readsAt_array {js : List (Json Float)} (h : ∀ j ∈ js, ReadsAt (depth + 1) (level + 1) j)
    (hdepth : depth < depthLimit) : ReadsAt depth level (.array js) := by
  intro rest _
  cases js with
  | nil =>
    have htext : (writeAt level (.array [])).toList = ['[', ']'] := by
      simp [writeAt, writeItems, bracketed]
    rw [htext]
    exact value_emptyArray hdepth rest
  | cons j js =>
    have hstops := stops_newLine level (']' :: rest)
    have hitems := items_reads h (dropGap_close (by decide) level rest) hstops []
    have hfirst := h j List.mem_cons_self _ (stops_others hstops (level + 1)
      (js.map fun k => (writeAt (level + 1) k).toList))
    obtain ⟨c, more, hstart, -, hc⟩ := value_start hfirst
    rw [hstart] at hitems
    have hopening : "[".toList = ['['] := rfl
    rw [writeAt, writeItems_eq_map, List.map_cons, toList_bracketed, List.map_map, hopening,
      List.singleton_append]
    refine value_array ?_ hc hitems hdepth
    rw [dropGap_append isGap_of_mem_newLine, ← hstart]
    exact dropGap_of_value hfirst

theorem readsAt_object {es : List (String × Json Float)}
    (h : ∀ e ∈ es, ReadsAt (depth + 1) (level + 1) e.2) (hdepth : depth < depthLimit) :
    ReadsAt depth level (.object es) := by
  intro rest _
  cases es with
  | nil =>
    have htext : (writeAt level (.object [])).toList = ['\x7b', '\x7d'] := by
      simp [writeAt, writeMembers, bracketed]
    rw [htext]
    exact value_emptyObject hdepth rest
  | cons e es =>
    have hmembers := members_reads h (dropGap_close (by decide) level rest)
      (stops_newLine level ('\x7d' :: rest)) []
    have htexts : (es.map fun f => quote f.1 ++ ": " ++ writeAt (level + 1) f.2).map String.toList =
        es.map fun f => memberText f.1 (writeAt (level + 1) f.2).toList := by
      rw [List.map_map]
      exact List.map_congr_left fun f _ => toList_member f.1 _
    have hopening : "\x7b".toList = ['\x7b'] := rfl
    rw [writeAt, writeMembers_eq_map, List.map_cons, toList_bracketed, htexts, toList_member,
      memberText_append, hopening, List.singleton_append]
    refine value_object ?_ hmembers hdepth
    rw [dropGap_append isGap_of_mem_newLine, dropGap_memberText]
    rfl

/-! ## Documents -/

/-- A value is read back before more text. -/
theorem value_writeAt {n : Nat} {j : Json Float} (hj : Legible n j)
    (hdepth : depth + n ≤ depthLimit) : ReadsAt depth level j := by
  -- Every container takes one of the levels that are left, so the bound goes down with the value.
  induction hj generalizing depth level with
  | null => exact fun rest _ => value_null depth rest
  | bool b =>
    cases b with
    | true => exact fun rest _ => value_true depth rest
    | false => exact fun rest _ => value_false depth rest
  | @int _ k h =>
    intro rest hrest
    have htext : (writeAt level (.int k)).toList = Nat.toDigits 10 k := by
      rw [writeAt]
      show (Nat.repr k).toList = _
      exact Nat.toList_repr
    rw [htext, ← numberValue_toDigits h]
    exact value_number (numberText_toDigits k) hrest depth
  | @float _ x h =>
    intro rest hrest
    obtain ⟨t, htext, hvalue⟩ := h
    have hread := value_number htext hrest depth
    rw [hvalue] at hread
    rwa [writeAt]
  | string s =>
    intro rest _
    rw [writeAt, toList_quote, List.cons_append, List.append_assoc]
    exact value_string depth s rest
  | array _ ih => exact readsAt_array (fun j hj => ih j hj (by omega)) (by omega)
  | object _ ih => exact readsAt_object (fun e he => ih e he (by omega)) (by omega)

/-- A document is read back from its text. -/
theorem read?_write {n : Nat} {j : Json Float} (hj : Legible n j) (hdepth : n ≤ depthLimit) :
    read? (write j) = some j := by
  have hread : ReadsAt 0 0 j := value_writeAt hj (by omega)
  have hvalue := hread [] (fun c hc => nomatch hc)
  rw [List.append_nil] at hvalue
  have hgap : dropGap (write j).toList = (write j).toList := dropGap_of_value hvalue
  have hread' : Reads (value 0 (dropGap (write j).toList)) j [] := by
    rw [hgap]
    exact hvalue
  obtain ⟨hlength, hsome⟩ := hread'.eq_some
  rw [read?, hsome]
  rfl

end FuzzyInference.Json
