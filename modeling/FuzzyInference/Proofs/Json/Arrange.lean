import FuzzyInference.Document.Form
import FuzzyInference.Json.Sorted
import FuzzyInference.Proofs.OrderedMap

/-!
# Values with their members in another order

Fields are looked up by name, and the tag of a union is. So a structure and a
union are read from a value in whatever order its members stand. Only a map
shows the order: it lists its entries as they stand in the value.

Results:

* `arrange_always`: members that do not differ in their order stay in place.
* `fields?_arrange` and `tagged?_arrange`: the fields of structures and unions.
* `toList?_arrange` and `toMap?_arrange`: lists keep their order, and maps take
  on the order of the members.
-/

namespace FuzzyInference

variable {β γ : Type} {before : String → String → Bool}

/-! ## Entries -/

theorem arrangeEntries_perm (before : String → String → Bool) (entries : List (String × β)) :
    (arrangeEntries before entries).Perm entries :=
  List.mergeSort_perm _ _

theorem arrangeEntries_always (entries : List (String × β)) :
    arrangeEntries (fun _ _ => true) entries = entries := by
  refine List.mergeSort_of_pairwise (List.pairwise_iff_getElem.2 ?_)
  exact fun _ _ _ _ _ => rfl

/-- The order hangs on the names only. -/
theorem map_arrangeEntries (f : β → γ) (entries : List (String × β)) :
    (arrangeEntries before entries).map (fun e => (e.1, f e.2)) =
      arrangeEntries before (entries.map fun e => (e.1, f e.2)) :=
  List.map_mergeSort fun _ _ _ _ => rfl

namespace OrderedMap

/-- The entries with other values. -/
def map (f : β → γ) (m : OrderedMap β) : OrderedMap γ where
  entries := m.entries.map fun e => (e.1, f e.2)
  nodup := by
    rw [List.map_map]
    exact m.nodup

/-- The entries in an order of their names. -/
def arrange (before : String → String → Bool) (m : OrderedMap β) : OrderedMap β where
  entries := arrangeEntries before m.entries
  nodup := ((arrangeEntries_perm before m.entries).map _).nodup_iff.2 m.nodup

variable {m : OrderedMap β}

theorem map_id (m : OrderedMap β) : m.map id = m := by
  cases m
  simp [map]

theorem arrange_always (m : OrderedMap β) : m.arrange (fun _ _ => true) = m := by
  cases m
  simp [arrange, arrangeEntries_always]

theorem arrange_of_isEmpty (h : m.isEmpty = true) : m.arrange before = .empty := by
  obtain ⟨entries, hnodup⟩ := m
  cases List.isEmpty_iff.1 h
  simp [arrange, arrangeEntries, empty]

theorem keys_map (f : β → γ) (m : OrderedMap β) : (m.map f).keys = m.keys := by
  rw [keys, map, List.map_map]
  rfl

theorem get?_map (f : β → γ) (m : OrderedMap β) (name : String) :
    (m.map f).get? name = (m.get? name).map f := by
  show lookup? name (m.entries.map fun e => (e.1, f e.2)) = (lookup? name m.entries).map f
  induction m.entries with
  | nil => rfl
  | cons e rest ih =>
    rw [List.map_cons, lookup?, lookup?, ih]
    split <;> rfl

theorem entries_arrange_perm (m : OrderedMap β) : (m.arrange before).entries.Perm m.entries :=
  arrangeEntries_perm before m.entries

theorem isEmpty_map (f : β → γ) (m : OrderedMap β) : (m.map f).isEmpty = m.isEmpty :=
  List.isEmpty_map

theorem isEmpty_arrange (m : OrderedMap β) : (m.arrange before).isEmpty = m.isEmpty :=
  m.entries_arrange_perm.isEmpty_eq

/-- The names are put into the order, whatever they stand for. -/
theorem keys_arrange (m : OrderedMap β) : (m.arrange before).keys = m.keys.mergeSort before :=
  List.map_mergeSort fun _ _ _ _ => rfl

/-- A map is the same in every order, as long as names are looked up. -/
theorem get?_arrange (m : OrderedMap β) (name : String) :
    (m.arrange before).get? name = m.get? name := by
  refine Option.ext fun value => ?_
  rw [get?_eq_some_iff, get?_eq_some_iff]
  exact m.entries_arrange_perm.mem_iff

end OrderedMap

namespace Json

variable {α : Type}

/-- What holds of every value if its parts have it, holds of every value. -/
@[elab_as_elim]
theorem induct {motive : Json α → Prop} (null : motive .null) (bool : ∀ b, motive (.bool b))
    (int : ∀ n, motive (.int n)) (float : ∀ x, motive (.float x)) (string : ∀ s, motive (.string s))
    (unreadable : motive .unreadable) (array : ∀ js, (∀ j ∈ js, motive j) → motive (.array js))
    (object : ∀ members, (∀ e ∈ members, motive e.2) → motive (.object members)) : ∀ j, motive j
  | .null => null
  | .bool b => bool b
  | .int n => int n
  | .float x => float x
  | .string s => string s
  | .unreadable => unreadable
  | .array js => array js fun j _ => induct null bool int float string unreadable array object j
  | .object members =>
    object members fun e _ => induct null bool int float string unreadable array object e.2
decreasing_by
  · rename_i hj
    have := List.sizeOf_lt_of_mem hj
    simp only [Json.array.sizeOf_spec]
    omega
  · rename_i he
    have := List.sizeOf_lt_of_mem he
    obtain ⟨name, j⟩ := e
    simp only [Json.object.sizeOf_spec, Prod.mk.sizeOf_spec] at this ⊢
    omega

/-! ## Values -/

@[simp] theorem arrange_null : (null : Json α).arrange before = .null := rfl

@[simp] theorem arrange_bool (b : Bool) : (bool b : Json α).arrange before = .bool b := rfl

@[simp] theorem arrange_int (n : Int) : (int n : Json α).arrange before = .int n := rfl

@[simp] theorem arrange_float (x : α) : (float x).arrange before = .float x := rfl

@[simp] theorem arrange_string (s : String) : (string s : Json α).arrange before = .string s := rfl

@[simp] theorem arrange_ofScalar [Scalar α] (x : α) : (ofScalar x).arrange before = ofScalar x := by
  unfold ofScalar
  split <;> rfl

theorem arrange_always (j : Json α) : j.arrange (fun _ _ => true) = j := by
  induction j using induct with
  | array js ih =>
    rw [arrange_array, List.map_congr_left (g := id) ih, List.map_id]
  | object members ih =>
    rw [arrange_object, arrangeEntries_always, List.map_congr_left (g := id), List.map_id]
    exact fun e he => Prod.ext rfl (ih e he)
  | _ => rfl

/-! ## Depth and readability -/

theorem depthOfMembers_perm {es fs : List (String × Json α)} (h : es.Perm fs) :
    depthOfMembers es = depthOfMembers fs := by
  induction h with
  | nil => rfl
  | cons e _ ih => rw [depthOfMembers, depthOfMembers, ih]
  | swap e f es =>
    simp only [depthOfMembers]
    omega
  | trans _ _ ih₁ ih₂ => rw [ih₁, ih₂]

theorem depth_le_of_mem {j : Json α} {js : List (Json α)} (h : j ∈ js) :
    j.depth ≤ depthOfItems js := by
  induction js with
  | nil => cases h
  | cons k js ih =>
    rw [depthOfItems]
    rcases List.mem_cons.1 h with rfl | h
    · exact Nat.le_max_left _ _
    · exact Nat.le_trans (ih h) (Nat.le_max_right _ _)

theorem readableMembers_eq_all (members : List (String × Json α)) :
    readableMembers members = members.all fun e => e.2.readable := by
  induction members with
  | nil => rfl
  | cons e rest ih => rw [readableMembers, ih, List.all_cons]

theorem readableItems_eq_all (items : List (Json α)) :
    readableItems items = items.all readable := by
  induction items with
  | nil => rfl
  | cons j js ih => rw [readableItems, ih, List.all_cons]

theorem depth_arrange (j : Json α) : (j.arrange before).depth = j.depth := by
  induction j using induct with
  | array js ih =>
    have hitems : depthOfItems (js.map (arrange before)) = depthOfItems js := by
      induction js with
      | nil => rfl
      | cons j js ihs =>
        rw [List.forall_mem_cons] at ih
        rw [List.map_cons, depthOfItems, depthOfItems, ih.1, ihs ih.2]
    rw [arrange_array, depth, depth, hitems]
  | object members ih =>
    have hmembers : depthOfMembers (members.map fun e => (e.1, e.2.arrange before)) =
        depthOfMembers members := by
      induction members with
      | nil => rfl
      | cons e rest ihs =>
        rw [List.forall_mem_cons] at ih
        rw [List.map_cons, depthOfMembers, depthOfMembers, ih.1, ihs ih.2]
    rw [arrange_object, depth, depth, depthOfMembers_perm (arrangeEntries_perm before _), hmembers]
  | _ => rfl

theorem readable_arrange (before : String → String → Bool) (j : Json α) :
    (j.arrange before).readable = j.readable := by
  induction j using induct with
  | array js ih =>
    rw [arrange_array, readable, readable, readableItems_eq_all, readableItems_eq_all, List.all_map,
      Bool.eq_iff_iff, List.all_eq_true, List.all_eq_true]
    exact forall₂_congr fun j hj => by rw [Function.comp, ih j hj]
  | object members ih =>
    rw [arrange_object, readable, readable, readableMembers_eq_all, readableMembers_eq_all,
      (arrangeEntries_perm before _).all_eq, List.all_map, Bool.eq_iff_iff, List.all_eq_true,
      List.all_eq_true]
    exact forall₂_congr fun e he => by rw [Function.comp, ih e he]
  | _ => rfl

/-! ## Structures -/

theorem countOf_perm {es fs : List (String × Json α)} (h : es.Perm fs) (name : String) :
    countOf name es = countOf name fs :=
  h.countP_eq _

/-- A name that stands once is found wherever it stands. -/
theorem member?_perm {name : String} {es fs : List (String × Json α)} (h : es.Perm fs)
    (hcount : countOf name es ≤ 1) : member? name es = member? name fs := by
  -- A swap is where the count is needed: of two members of one name the first would change.
  induction h with
  | nil => rfl
  | cons e _ ih =>
    rw [member?, member?]
    split
    · rfl
    · refine ih (Nat.le_trans ?_ hcount)
      rw [countOf, countOf, List.countP_cons]
      exact Nat.le_add_right _ _
  | swap e f es =>
    simp only [member?]
    split
    · split
      · rename_i hf he
        simp [countOf, he, hf] at hcount
      · rfl
    · rfl
  | trans h₁ _ ih₁ ih₂ => rw [ih₁ hcount, ih₂ (countOf_perm h₁ name ▸ hcount)]

theorem fields?_perm {names : List String} {es fs : List (String × Json α)} (h : es.Perm fs) :
    (object es).fields? names = (object fs).fields? names := by
  simp only [fields?, countOf_perm h]
  split
  · rename_i hall
    refine congrArg some (List.map_congr_left fun n hn => member?_perm h ?_)
    rw [countOf_perm h]
    exact of_decide_eq_true (List.all_eq_true.1 hall n hn)
  · rfl

theorem countOf_map (f : Json α → Json α) (name : String) (members : List (String × Json α)) :
    countOf name (members.map fun e => (e.1, f e.2)) = countOf name members := by
  rw [countOf, countOf, List.countP_map]
  rfl

theorem member?_map (f : Json α → Json α) (name : String) (members : List (String × Json α)) :
    member? name (members.map fun e => (e.1, f e.2)) = (member? name members).map f := by
  induction members with
  | nil => rfl
  | cons e rest ih =>
    rw [List.map_cons, member?, member?, ih]
    split <;> rfl

/-- The fields of a structure are the same in every order, as far as their own
    members are. -/
theorem fields?_arrange (names : List String) (j : Json α) :
    (j.arrange before).fields? names =
      (j.fields? names).map (List.map (Option.map (arrange before))) := by
  cases j with
  | object members =>
    rw [arrange_object, fields?_perm (arrangeEntries_perm before _), fields?, fields?]
    simp only [countOf_map, member?_map]
    split
    · rw [Option.map_some, List.map_map]
      rfl
    · rfl
  | array items =>
    rw [arrange_array, fields?, fields?, List.length_map]
    split
    · simp [Function.comp_def]
    · rfl
  | _ => rfl

/-! ## Unions -/

/-- A written union is of its case in every order, with the fields it was written
    with. -/
theorem tagged?_arrange (before : String → String → Bool) (place : Place) (cases : List String)
    {tag c : String} {members : List (String × Json α)} (hc : c ∈ cases)
    (ht : ∀ e ∈ members, e.1 ≠ tag) (hr : (tagged tag c members).readable = true) :
    ∃ k, tagged? place tag cases ((tagged tag c members).arrange before) = some (c, k) ∧
      ∀ names, k.fields? names =
        ((object members).fields? names).map (List.map (Option.map (arrange before))) := by
  have hreadable := hr
  rw [← readable_arrange before] at hreadable
  -- The tag is found wherever it has come to stand, and what is left without it are the other
  -- members.
  rw [tagged, arrange_object, List.map_cons, arrange_string] at hreadable ⊢
  generalize hes : arrangeEntries before
    ((tag, Json.string c) :: members.map fun e => (e.1, e.2.arrange before)) =
    es at hreadable ⊢
  have hperm := arrangeEntries_perm before
    ((tag, Json.string c) :: members.map fun e => (e.1, e.2.arrange before))
  rw [hes] at hperm
  have hothers : ∀ e ∈ members.map (fun e => (e.1, e.2.arrange before)), e.1 ≠ tag := by
    intro e he
    obtain ⟨f, hf, rfl⟩ := List.mem_map.1 he
    exact ht f hf
  have hcount : countOf tag es = 1 := by
    rw [countOf_perm hperm, countOf, List.countP_cons_of_pos (by simp), List.countP_eq_zero.2]
    intro e he
    simpa using hothers e he
  have hmember : member? tag es = some (.string c) := by
    rw [member?_perm hperm (Nat.le_of_eq hcount), member?, if_pos rfl]
  have hfilter : (es.filter fun e => !(e.1 == tag)).Perm
      (members.map fun e => (e.1, e.2.arrange before)) := by
    refine (hperm.filter _).trans (List.Perm.of_eq ?_)
    rw [List.filter_cons_of_neg (by simp), List.filter_eq_self]
    intro e he
    simpa using hothers e he
  refine ⟨.object (es.filter fun e => !(e.1 == tag)), ?_, ?_⟩
  · simp [tagged?, hreadable, hcount, hmember, case?, hc]
  · intro names
    rw [fields?_perm hfilter, ← fields?_perm (arrangeEntries_perm before _), ← arrange_object,
      fields?_arrange]

/-! ## Lists and maps -/

theorem mapM_eq_some {β γ : Type} {read? : β → Option γ} {f : β → γ} {xs : List β}
    (h : ∀ x ∈ xs, read? x = some (f x)) : xs.mapM read? = some (xs.map f) := by
  induction xs with
  | nil => rfl
  | cons x xs ih =>
    obtain ⟨hx, hxs⟩ := List.forall_mem_cons.1 h
    rw [List.mapM_cons, hx, ih hxs]
    rfl

variable {read? : Json α → Option γ} {write : β → Json α} {f : β → γ}

theorem toList?_arrange {xs : List β}
    (h : ∀ x ∈ xs, read? ((write x).arrange before) = some (f x)) :
    toList? read? ((array (xs.map write)).arrange before) = some (xs.map f) := by
  rw [arrange_array, List.map_map]
  show (xs.map _).mapM read? = _
  rw [List.mapM_map]
  exact mapM_eq_some h

/-- A map takes on the order in which the members of its document stand. -/
theorem toMap?_arrange {m : OrderedMap β}
    (h : ∀ e ∈ m.entries, read? ((write e.2).arrange before) = some (f e.2)) :
    toMap? read? ((ofMap write m).arrange before) = some ((m.map f).arrange before) := by
  have hread : ((arrangeEntries before m.entries).map fun e : String × β =>
      (e.1, (write e.2).arrange before)).mapM
        (fun e : String × Json α => do return (e.1, ← read? e.2)) =
      some ((arrangeEntries before m.entries).map fun e => (e.1, f e.2)) := by
    rw [List.mapM_map]
    refine mapM_eq_some fun e he => ?_
    rw [Function.comp, h e ((arrangeEntries_perm before m.entries).mem_iff.1 he)]
    rfl
  rw [ofMap, arrange_object, List.map_map]
  show toMap? read? (.object (arrangeEntries before
    (m.entries.map fun e => (e.1, (write e.2).arrange before)))) = _
  rw [← map_arrangeEntries fun v => (write v).arrange before]
  show (((arrangeEntries before m.entries).map fun e : String × β =>
      (e.1, (write e.2).arrange before)).mapM
    fun e : String × Json α => do return (e.1, ← read? e.2)).bind
      (fun entries => some (OrderedMap.ofList entries)) = _
  rw [hread, Option.bind_some, map_arrangeEntries]
  exact congrArg some (OrderedMap.ofList_entries ((m.map f).arrange before))

section

variable {read? : Json α → Option β}

/-- Items that are read back as they were stay where they were. -/
theorem toList?_arrange_self {xs : List β}
    (h : ∀ x ∈ xs, read? ((write x).arrange before) = some x) :
    toList? read? ((array (xs.map write)).arrange before) = some xs := by
  have hread := toList?_arrange (f := id) h
  rwa [List.map_id] at hread

/-- Values that are read back as they were stand in the order of the document. -/
theorem toMap?_arrange_self {m : OrderedMap β}
    (h : ∀ e ∈ m.entries, read? ((write e.2).arrange before) = some e.2) :
    toMap? read? ((ofMap write m).arrange before) = some (m.arrange before) := by
  have hread := toMap?_arrange (f := id) h
  rwa [OrderedMap.map_id] at hread

end

end Json

end FuzzyInference
