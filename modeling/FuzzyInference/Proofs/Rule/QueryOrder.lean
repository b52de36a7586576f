import FuzzyInference.Rule.Bracketed
import Mathlib.Data.List.Basic

/-!
# The order of queries

The queries of nested words can be listed in two orders. In reading order a
group's queries stand where the group stands. In recording order the groups of a
level come first, with their queries in recording order again, and the queries
that the level makes itself come after all of them.

Both orders are readings of a level that only sees its words and what is inside
of its groups, applied from the innermost groups outwards.

Results:

* `listed_perm`: the two orders list the same queries.
* `listed_of_inOrder`: they are one order if no group with queries stands behind
  a query of the level that it stands in.
* `inOrder_of_listed`: among distinct queries, only then.
-/

namespace FuzzyInference

/-- What a level shows: words, and the queries that are listed inside of groups. -/
inductive Piece where
  | word (w : String)
  | inside (queries : List (String × String))

namespace Piece

/-! ## One level -/

/-- The membership that is named behind `IS`, with or without `NOT`. -/
def membership : List Piece → String
  | .word w :: rest => if w.toLower = "not" then membership rest else w
  | _ => ""

/-- The queries of a level from left to right, behind the word `previous`: an `IS`
    asks the word in front of it for the membership behind it. -/
def asked (previous : String) : List Piece → List (String × String)
  | [] => []
  | .word w :: rest =>
    if w.toLower = "is" then (previous, membership rest) :: asked w rest else asked w rest
  | .inside queries :: rest => queries ++ asked "" rest

/-- What is inside of a piece. -/
def queries : Piece → List (String × String)
  | .word _ => []
  | .inside queries => queries

/-- A piece that hides what is inside. -/
def mute : Piece → Piece
  | .word w => .word w
  | .inside _ => .inside []

/-- The queries that a level makes itself. -/
def own (previous : String) (ps : List Piece) : List (String × String) :=
  asked previous (ps.map mute)

/-- The queries of a level in the order of its text. -/
def reading (ps : List Piece) : List (String × String) := asked "" ps

/-- The queries of a level with those inside of groups first. -/
def recording (ps : List Piece) : List (String × String) := ps.flatMap queries ++ own "" ps

@[simp] theorem membership_mute (ps : List Piece) : membership (ps.map mute) = membership ps := by
  induction ps with
  | nil => rfl
  | cons p ps ih => cases p <;> simp [membership, mute, ih]

theorem own_word (previous w : String) (ps : List Piece) : own previous (.word w :: ps) =
    if w.toLower = "is" then (previous, membership ps) :: own w ps else own w ps := by
  simp [own, asked, mute]

theorem own_inside (previous : String) (queries : List (String × String)) (ps : List Piece) :
    own previous (.inside queries :: ps) = own "" ps := by
  simp [own, asked, mute]

/-- A level's queries are those inside of its groups and its own ones. -/
theorem asked_perm (previous : String) (ps : List Piece) :
    (ps.flatMap queries ++ own previous ps).Perm (asked previous ps) := by
  induction ps generalizing previous with
  | nil => exact .nil
  | cons p ps ih =>
    cases p with
    | word w =>
      rw [List.flatMap_cons, queries, List.nil_append, own_word, asked]
      split
      · exact List.perm_middle.trans ((ih w).cons _)
      · exact ih w
    | inside queries =>
      rw [List.flatMap_cons, Piece.queries, own_inside, asked, List.append_assoc]
      exact (ih "").append_left queries

/-- No group with queries stands behind a query of the level itself. -/
def GroupsFirst : List Piece → Prop
  | [] => True
  | .word w :: rest => (w.toLower = "is" → rest.flatMap queries = []) ∧ GroupsFirst rest
  | .inside _ :: rest => GroupsFirst rest

theorem asked_of_queries_eq_nil {ps : List Piece} (h : ps.flatMap queries = [])
    (previous : String) : asked previous ps = own previous ps := by
  have hmute : ∀ p ∈ ps, p.mute = p := by
    intro p hp
    have hnil := List.flatMap_eq_nil_iff.1 h p hp
    cases p with
    | word w => rfl
    | inside inner => exact congrArg inside hnil.symm
  rw [own, List.map_congr_left hmute, List.map_id']

theorem asked_of_groupsFirst {ps : List Piece} (h : GroupsFirst ps) (previous : String) :
    ps.flatMap queries ++ own previous ps = asked previous ps := by
  induction ps generalizing previous with
  | nil => rfl
  | cons p ps ih =>
    cases p with
    | word w =>
      rw [List.flatMap_cons, queries, List.nil_append, own_word, asked]
      split
      · rename_i hw
        have hnil := h.1 hw
        rw [hnil, List.nil_append, asked_of_queries_eq_nil hnil]
      · exact ih h.2 w
    | inside queries =>
      rw [List.flatMap_cons, Piece.queries, own_inside, asked, List.append_assoc, ih h ""]

theorem queries_sublist_asked (ps : List Piece) (previous : String) :
    (ps.flatMap queries).Sublist (asked previous ps) := by
  induction ps generalizing previous with
  | nil => exact .slnil
  | cons p ps ih =>
    cases p with
    | word w =>
      rw [List.flatMap_cons, queries, List.nil_append, asked]
      split
      · exact (ih w).cons _
      · exact ih w
    | inside queries =>
      rw [List.flatMap_cons, Piece.queries, asked]
      exact (ih "").append_left queries

theorem groupsFirst_of_queries_eq_nil {ps : List Piece} (h : ps.flatMap queries = []) :
    GroupsFirst ps := by
  induction ps with
  | nil => trivial
  | cons p ps ih =>
    obtain ⟨-, hps⟩ := List.append_eq_nil_iff.1 h
    cases p with
    | word w => exact ⟨fun _ => hps, ih hps⟩
    | inside queries => exact ih hps

/-- Among distinct queries, the groups come first only if they stand first. -/
theorem groupsFirst_of_asked {ps : List Piece} {previous : String}
    (hnodup : (asked previous ps).Nodup)
    (h : ps.flatMap queries ++ own previous ps = asked previous ps) : GroupsFirst ps := by
  induction ps generalizing previous with
  | nil => trivial
  | cons p ps ih =>
    cases p with
    | word w =>
      rw [List.flatMap_cons, queries, List.nil_append, own_word, asked] at h
      rw [asked] at hnodup
      split at h
      · rename_i hw
        rw [if_pos hw] at hnodup
        have hnil : ps.flatMap queries = [] := by
          cases hqueries : ps.flatMap queries with
          | nil => rfl
          | cons q qs =>
            -- An inner query would be recorded in front of the level's own one, and be that one.
            rw [hqueries, List.cons_append, List.cons_eq_cons] at h
            rw [← h.2, List.nodup_cons] at hnodup
            exact absurd (by simp) hnodup.1
        exact ⟨fun _ => hnil, groupsFirst_of_queries_eq_nil hnil⟩
      · rename_i hw
        rw [if_neg hw] at hnodup
        exact ⟨fun hw' => absurd hw' hw, ih hnodup h⟩
    | inside queries =>
      rw [List.flatMap_cons, Piece.queries, own_inside, asked, List.append_assoc] at h
      rw [asked] at hnodup
      exact ih (List.nodup_append.1 hnodup).2.1 (List.append_cancel_left h)

end Piece

namespace Bracketed

open Piece

/-! ## Nested words -/

section

variable (read : List Piece → List (String × String))

mutual

/-- What an item shows, when levels are read in a certain way. -/
def piece : Bracketed → Piece
  | .word w => .word w
  | .group parts => .inside (partsListed parts)

/-- What the items of a level show. -/
def pieces : List Bracketed → List Piece
  | [] => []
  | b :: bs => piece b :: pieces bs

/-- The queries of the parts of a group. -/
def partsListed : List (List Bracketed) → List (String × String)
  | [] => []
  | part :: parts => read (pieces part) ++ partsListed parts

end

/-- The queries of a level and of the groups in it. -/
def listed (items : List Bracketed) : List (String × String) := read (pieces read items)

end

/-! ## The same queries -/

/-- The words of a level are the same, however the groups in it are read. -/
theorem map_mute_pieces (read read' : List Piece → List (String × String))
    (items : List Bracketed) : (pieces read items).map mute = (pieces read' items).map mute := by
  induction items with
  | nil => rfl
  | cons b bs ih =>
    cases b with
    | word w => exact congrArg (List.cons (Piece.word w)) ih
    | group parts => exact congrArg (List.cons (Piece.inside [])) ih

theorem own_pieces (read read' : List Piece → List (String × String)) (items : List Bracketed) :
    own "" (pieces read items) = own "" (pieces read' items) := by
  rw [own, own, map_mute_pieces read read']

theorem recording_perm_reading {items : List Bracketed}
    (h : ((pieces recording items).flatMap queries).Perm ((pieces reading items).flatMap queries)) :
    (recording (pieces recording items)).Perm (reading (pieces reading items)) := by
  have hgroups : (recording (pieces recording items)).Perm (recording (pieces reading items)) := by
    rw [recording, recording, own_pieces recording reading]
    exact h.append_right _
  exact hgroups.trans (asked_perm "" _)

mutual

theorem queries_piece_perm : ∀ b, (piece recording b).queries.Perm (piece reading b).queries
  | .word _ => .nil
  | .group parts => partsListed_perm parts

theorem queries_pieces_perm : ∀ items,
    ((pieces recording items).flatMap queries).Perm ((pieces reading items).flatMap queries)
  | [] => .nil
  | b :: bs => (queries_piece_perm b).append (queries_pieces_perm bs)

theorem partsListed_perm : ∀ parts, (partsListed recording parts).Perm (partsListed reading parts)
  | [] => .nil
  | part :: parts =>
    (recording_perm_reading (queries_pieces_perm part)).append (partsListed_perm parts)

end

/-- The two orders list the same queries. -/
theorem listed_perm (items : List Bracketed) :
    (listed recording items).Perm (listed reading items) :=
  recording_perm_reading (queries_pieces_perm items)

/-! ## One order -/

mutual

/-- In every part of a group, the groups with queries stand in front of the queries
    of the part. -/
def InOrder : Bracketed → Prop
  | .word _ => True
  | .group parts => PartsInOrder parts

/-- The same for the items of a level. -/
def ItemsInOrder : List Bracketed → Prop
  | [] => True
  | b :: bs => InOrder b ∧ ItemsInOrder bs

/-- The same for the parts of a group. -/
def PartsInOrder : List (List Bracketed) → Prop
  | [] => True
  | part :: parts =>
    (ItemsInOrder part ∧ GroupsFirst (pieces reading part)) ∧ PartsInOrder parts

end

/-- In a level and in all groups of it, the groups with queries stand in front of
    the level's own queries. -/
def LevelInOrder (items : List Bracketed) : Prop :=
  ItemsInOrder items ∧ GroupsFirst (pieces reading items)

mutual

theorem piece_of_inOrder : ∀ b, InOrder b → piece recording b = piece reading b
  | .word _, _ => rfl
  | .group parts, h => congrArg inside (partsListed_of_inOrder parts h)

theorem pieces_of_inOrder :
    ∀ items, ItemsInOrder items → pieces recording items = pieces reading items
  | [], _ => rfl
  | b :: bs, h => congrArg₂ List.cons (piece_of_inOrder b h.1) (pieces_of_inOrder bs h.2)

theorem partsListed_of_inOrder : ∀ parts, PartsInOrder parts →
    partsListed recording parts = partsListed reading parts
  | [], _ => rfl
  | part :: parts, h => by
    rw [partsListed, partsListed, pieces_of_inOrder part h.1.1, partsListed_of_inOrder parts h.2]
    exact congrArg (· ++ _) (asked_of_groupsFirst h.1.2 "")

end

/-- Distinct queries of a level are recorded in reading order only if those inside
    of its groups are, and the groups stand first. -/
theorem groupsFirst_of_listed {items : List Bracketed} (hnodup : (listed reading items).Nodup)
    (h : listed recording items = listed reading items) :
    (pieces recording items).flatMap queries = (pieces reading items).flatMap queries ∧
      GroupsFirst (pieces reading items) := by
  have hperm := queries_pieces_perm items
  have hsublist := queries_sublist_asked (pieces reading items) ""
  have hrecorded : (pieces recording items).flatMap queries ++ own "" (pieces recording items) =
      asked "" (pieces reading items) := h
  have hdisjoint : ∀ q ∈ (pieces reading items).flatMap queries,
      q ∉ own "" (pieces recording items) := by
    intro q hq hown
    have hnodup' : (listed recording items).Nodup := h ▸ hnodup
    exact (List.nodup_append.1 hnodup').2.2 q (hperm.mem_iff.2 hq) q hown rfl
  have hqueries : (pieces recording items).flatMap queries =
      (pieces reading items).flatMap queries := by
    -- The inner queries are a sublist of what is recorded, and none of them is one of the
    -- level's own, so they are found in the first part, which has as many.
    rw [← hrecorded] at hsublist
    obtain ⟨front, back, hsplit, hfront, hback⟩ := List.sublist_append_iff.1 hsublist
    have hnil : back = [] := by
      refine List.eq_nil_iff_forall_not_mem.2 fun q hq => hdisjoint q ?_ (hback.subset hq)
      rw [hsplit]
      exact List.mem_append_right _ hq
    rw [hnil, List.append_nil] at hsplit
    rw [← hsplit] at hfront
    exact (hfront.eq_of_length hperm.length_eq.symm).symm
  refine ⟨hqueries, groupsFirst_of_asked hnodup ?_⟩
  rw [← hqueries, own_pieces reading recording]
  exact hrecorded

mutual

theorem inOrder_of_queries : ∀ b, (piece reading b).queries.Nodup →
    (piece recording b).queries = (piece reading b).queries → InOrder b
  | .word _, _, _ => trivial
  | .group parts, hnodup, h => partsInOrder_of_listed parts hnodup h

theorem itemsInOrder_of_queries : ∀ items, ((pieces reading items).flatMap queries).Nodup →
    (pieces recording items).flatMap queries = (pieces reading items).flatMap queries →
      ItemsInOrder items
  | [], _, _ => trivial
  | b :: bs, hnodup, h => by
    obtain ⟨hb, hbs⟩ := List.append_inj h (queries_piece_perm b).length_eq
    have hnodups := List.nodup_append.1 hnodup
    exact ⟨inOrder_of_queries b hnodups.1 hb, itemsInOrder_of_queries bs hnodups.2.1 hbs⟩

theorem partsInOrder_of_listed : ∀ parts, (partsListed reading parts).Nodup →
    partsListed recording parts = partsListed reading parts → PartsInOrder parts
  | [], _, _ => trivial
  | part :: parts, hnodup, h => by
    obtain ⟨hpart, hparts⟩ := List.append_inj h (listed_perm part).length_eq
    have hnodups := List.nodup_append.1 hnodup
    obtain ⟨hqueries, hfirst⟩ := groupsFirst_of_listed hnodups.1 hpart
    have hinside := hnodups.1.sublist (queries_sublist_asked (pieces reading part) "")
    exact ⟨⟨itemsInOrder_of_queries part hinside hqueries, hfirst⟩,
      partsInOrder_of_listed parts hnodups.2.1 hparts⟩

end

/-- Where groups come first, queries are recorded in reading order. -/
theorem listed_of_inOrder {items : List Bracketed} (h : LevelInOrder items) :
    listed recording items = listed reading items := by
  rw [listed, listed, pieces_of_inOrder items h.1]
  exact asked_of_groupsFirst h.2 ""

/-- Where no query is made twice, they are recorded in reading order only if groups
    come first. -/
theorem inOrder_of_listed {items : List Bracketed} (hnodup : (listed reading items).Nodup)
    (h : listed recording items = listed reading items) : LevelInOrder items := by
  obtain ⟨hqueries, hfirst⟩ := groupsFirst_of_listed hnodup h
  have hinside := hnodup.sublist (queries_sublist_asked (pieces reading items) "")
  exact ⟨itemsInOrder_of_queries items hinside hqueries, hfirst⟩

end Bracketed

end FuzzyInference
