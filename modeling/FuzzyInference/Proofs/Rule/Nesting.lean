import FuzzyInference.Proofs.Rule.Grammar
import FuzzyInference.Rule.Bracketed

/-!
# Nesting is spelling backwards

Words are nested in one run over them, with a stack of the groups that are still
open. The run is described by what it has to undo: an item spells one word, or
the words of its parts with commas between them and parentheses around them.

Results:

* `ofWords_of_spells`: the words that items spell are nested into these items.
* `build_outer`: what a run over words has read when it is over.
* `spells_of_ofWords`: what words are nested into spells them.
-/

namespace FuzzyInference.Bracketed

open Condition (NotParenthesis)

mutual

/-- An item spells words, and its own words have a property. -/
inductive Spells (p : String → Prop) : Bracketed → List String → Prop
  | word {w} : p w → Spells p (.word w) [w]
  | group {parts ws} : SpellsParts p parts ws → Spells p (.group parts) ("(" :: (ws ++ [")"]))

/-- Items spell words one after the other. -/
inductive SpellsItems (p : String → Prop) : List Bracketed → List String → Prop
  | nil : SpellsItems p [] []
  | cons {b bs us ws} : Spells p b us → SpellsItems p bs ws → SpellsItems p (b :: bs) (us ++ ws)

/-- Parts spell words with commas between them. -/
inductive SpellsParts (p : String → Prop) : List (List Bracketed) → List String → Prop
  | last {bs ws} : SpellsItems p bs ws → SpellsParts p [bs] ws
  | more {bs us parts ws} : SpellsItems p bs us → SpellsParts p parts ws →
      SpellsParts p (bs :: parts) (us ++ "," :: ws)

end

/-- A word that nesting does not look at. -/
def Ordinary (w : String) : Prop := w ≠ "(" ∧ w ≠ ")" ∧ w ≠ ","

theorem SpellsItems.append {p : String → Prop} {bs cs : List Bracketed} {us ws : List String}
    (h : SpellsItems p bs us) (hcs : SpellsItems p cs ws) :
    SpellsItems p (bs ++ cs) (us ++ ws) := by
  induction bs generalizing us with
  | nil =>
    cases h
    exact hcs
  | cons b bs ih =>
    cases h with
    | cons hb hbs =>
      rw [List.append_assoc]
      exact .cons hb (ih hbs)

/-- An item in front of the first part. -/
theorem SpellsParts.cons {p : String → Prop} {b : Bracketed} {bs : List Bracketed}
    {parts : List (List Bracketed)} {us ws : List String} (hb : Spells p b us)
    (h : SpellsParts p (bs :: parts) ws) : SpellsParts p ((b :: bs) :: parts) (us ++ ws) := by
  cases h with
  | last hbs => exact .last (.cons hb hbs)
  | more hbs hparts =>
    rw [← List.append_assoc]
    exact .more (.cons hb hbs) hparts

mutual

/-- What holds of all words that are spelled holds of the items' own words. -/
theorem Spells.of_forall {p q : String → Prop} {b : Bracketed} {ws : List String}
    (h : Spells p b ws) (hq : ∀ w ∈ ws, q w) : Spells q b ws :=
  match h with
  | .word _ => .word (hq _ (by simp))
  | .group hparts => .group (hparts.of_forall fun w hw => hq w (by simp [hw]))

theorem SpellsItems.of_forall {p q : String → Prop} {bs : List Bracketed} {ws : List String}
    (h : SpellsItems p bs ws) (hq : ∀ w ∈ ws, q w) : SpellsItems q bs ws :=
  match h with
  | .nil => .nil
  | .cons hb hbs =>
    .cons (hb.of_forall fun w hw => hq w (by simp [hw]))
      (hbs.of_forall fun w hw => hq w (by simp [hw]))

theorem SpellsParts.of_forall {p q : String → Prop} {parts : List (List Bracketed)}
    {ws : List String} (h : SpellsParts p parts ws) (hq : ∀ w ∈ ws, q w) : SpellsParts q parts ws :=
  match h with
  | .last hbs => .last (hbs.of_forall hq)
  | .more hbs hparts =>
    .more (hbs.of_forall fun w hw => hq w (by simp [hw]))
      (hparts.of_forall fun w hw => hq w (by simp [hw]))

end

mutual

theorem Spells.mono {p q : String → Prop} (hpq : ∀ w, p w → q w) {b : Bracketed} {ws : List String}
    (h : Spells p b ws) : Spells q b ws :=
  match h with
  | .word hw => .word (hpq _ hw)
  | .group hparts => .group (hparts.mono hpq)

theorem SpellsItems.mono {p q : String → Prop} (hpq : ∀ w, p w → q w) {bs : List Bracketed}
    {ws : List String} (h : SpellsItems p bs ws) : SpellsItems q bs ws :=
  match h with
  | .nil => .nil
  | .cons hb hbs => .cons (hb.mono hpq) (hbs.mono hpq)

theorem SpellsParts.mono {p q : String → Prop} (hpq : ∀ w, p w → q w)
    {parts : List (List Bracketed)} {ws : List String} (h : SpellsParts p parts ws) :
    SpellsParts q parts ws :=
  match h with
  | .last hbs => .last (hbs.mono hpq)
  | .more hbs hparts => .more (hbs.mono hpq) (hparts.mono hpq)

end

/-! ## From items to words and back -/

theorem build_opening (here : List Bracketed) (parts : List (List Bracketed)) (opened : List Open)
    (ws : List String) :
    build here parts opened ("(" :: ws) = build [] [] (⟨here, parts⟩ :: opened) ws := by
  cases opened <;> simp [build]

mutual

theorem Spells.build {b : Bracketed} {us : List String} (h : Spells Ordinary b us)
    (here : List Bracketed) (parts : List (List Bracketed)) (opened : List Open)
    (ws : List String) :
    build here parts opened (us ++ ws) = Bracketed.build (b :: here) parts opened ws :=
  match h with
  | .word hw => build_word hw here parts opened ws
  | .group hparts => by
    have hinner := hparts.build [] ⟨here, parts⟩ opened ws
    rw [List.reverse_nil, List.nil_append] at hinner
    rw [List.cons_append, List.append_assoc, List.singleton_append, build_opening]
    simpa using hinner

theorem SpellsItems.build {bs : List Bracketed} {us : List String} (h : SpellsItems Ordinary bs us)
    (here : List Bracketed) (parts : List (List Bracketed)) (opened : List Open)
    (ws : List String) :
    build here parts opened (us ++ ws) = Bracketed.build (bs.reverse ++ here) parts opened ws :=
  match h with
  | .nil => rfl
  | .cons (b := b) hb hbs => by
    rw [List.append_assoc, hb.build, hbs.build (b :: here)]
    simp

/-- Behind the first parts of a group, the others and a closing parenthesis complete
    it. -/
theorem SpellsParts.build {parts : List (List Bracketed)} {us : List String}
    (h : SpellsParts Ordinary parts us) (before : List (List Bracketed)) (o : Open)
    (rest : List Open) (ws : List String) :
    build [] before (o :: rest) (us ++ ")" :: ws) =
      Bracketed.build (.group (before.reverse ++ parts) :: o.before) o.parts rest ws :=
  match h with
  | .last hbs => by
    rw [hbs.build, Bracketed.build.eq_def]
    simp
  | @SpellsParts.more _ bs _ _ _ hbs hparts => by
    have hmore := hparts.build (bs :: before) o rest ws
    rw [List.append_assoc, hbs.build, List.cons_append, Bracketed.build.eq_def]
    simpa using hmore

end

/-- A run that comes to an end inside a group has met the parenthesis that closes
    the group. -/
theorem build_closed {ws : List String} {here : List Bracketed} {parts : List (List Bracketed)}
    {o : Open} {rest : List Open} {level : Level}
    (h : build here parts (o :: rest) ws = .ok level) :
    ∃ bs more us vs, ws = us ++ ")" :: vs ∧ SpellsParts Ordinary (bs :: more) us ∧
      build (.group (parts.reverse ++ (here.reverse ++ bs) :: more) :: o.before) o.parts rest vs =
        .ok level := by
  -- Two calls for an inner group, one for its words and one for the words behind it, so the
  -- induction is on the number of words that are left.
  match ws with
  | [] => simp [build] at h
  | w :: ws =>
    unfold build at h
    split at h
    · rename_i hw
      obtain ⟨bs, more, us, vs, rfl, hinner, hrest⟩ := build_closed h
      obtain ⟨cs, more', us', vs', rfl, houter, hend⟩ := build_closed hrest
      refine ⟨.group (bs :: more) :: cs, more', "(" :: (us ++ [")"]) ++ us', vs', by simp [hw],
        houter.cons (.group hinner), ?_⟩
      simpa using hend
    · split at h
      · rename_i hw
        refine ⟨[], [], [], ws, by simp [hw], .last .nil, ?_⟩
        simpa using h
      · split at h
        · rename_i hw
          obtain ⟨bs, more, us, vs, rfl, hparts, hend⟩ := build_closed h
          refine ⟨[], bs :: more, "," :: us, vs, by simp [hw], .more .nil hparts, ?_⟩
          simpa using hend
        · rename_i hopen hclose hcomma
          obtain ⟨bs, more, us, vs, rfl, hparts, hend⟩ := build_closed h
          refine ⟨.word w :: bs, more, w :: us, vs, rfl,
            hparts.cons (.word ⟨hopen, hclose, hcomma⟩), ?_⟩
          simpa using hend
termination_by ws.length

/-- Items spell words outside of all groups, where a comma is a word like any
    other. -/
inductive SpellsOuter : List Bracketed → List String → Prop
  | nil : SpellsOuter [] []
  | word {w bs ws} : NotParenthesis w → SpellsOuter bs ws → SpellsOuter (.word w :: bs) (w :: ws)
  | group {parts us bs ws} : SpellsParts Ordinary parts us → SpellsOuter bs ws →
      SpellsOuter (.group parts :: bs) ("(" :: (us ++ ")" :: ws))

theorem SpellsOuter.items {bs : List Bracketed} {ws : List String} (h : SpellsOuter bs ws) :
    SpellsItems NotParenthesis bs ws := by
  induction h with
  | nil => exact .nil
  | word hw _ ih => exact .cons (.word hw) ih
  | group hparts _ ih =>
    have hinner : SpellsParts NotParenthesis _ _ := hparts.mono fun w hw => ⟨hw.1, hw.2.1⟩
    simpa using SpellsItems.cons (.group hinner) ih

/-- A run outside of all groups reads items one after the other, up to the end or to
    a closing parenthesis without an opening one. -/
theorem build_outer {ws : List String} {here : List Bracketed} {level : Level}
    (h : build here [] [] ws = .ok level) :
    ∃ bs us, level.items = here.reverse ++ bs ∧ SpellsOuter bs us ∧
      (level.stray = false ∧ ws = us ∨ level.stray = true ∧ ∃ vs, ws = us ++ ")" :: vs) := by
  match ws with
  | [] =>
    simp only [build, Except.ok.injEq] at h
    subst h
    exact ⟨[], [], by simp, .nil, .inl ⟨rfl, rfl⟩⟩
  | w :: ws =>
    unfold build at h
    split at h
    · rename_i hw
      obtain ⟨bs, more, us, vs, rfl, hinner, hrest⟩ := build_closed h
      obtain ⟨cs, us', hitems, hcs, hend⟩ := build_outer hrest
      refine ⟨.group (bs :: more) :: cs, _, by simp [hitems], .group hinner hcs, ?_⟩
      rcases hend with ⟨hstray, rfl⟩ | ⟨hstray, vs', rfl⟩
      · exact .inl ⟨hstray, by simp [hw]⟩
      · exact .inr ⟨hstray, vs', by simp [hw]⟩
    · split at h
      · rename_i hw
        simp only [Except.ok.injEq] at h
        subst h
        exact ⟨[], [], by simp, .nil, .inr ⟨rfl, ws, by simp [hw]⟩⟩
      · rename_i hopen hclose
        have hstep : build (.word w :: here) [] [] ws = .ok level := by
          split at h <;> exact h
        obtain ⟨cs, us, hitems, hcs, hend⟩ := build_outer hstep
        refine ⟨.word w :: cs, w :: us, by simp [hitems], .word ⟨hopen, hclose⟩ hcs, ?_⟩
        rcases hend with ⟨hstray, rfl⟩ | ⟨hstray, vs, rfl⟩
        · exact .inl ⟨hstray, rfl⟩
        · exact .inr ⟨hstray, vs, rfl⟩
termination_by ws.length

/-! ## Counting parentheses -/

/-- As many parentheses open as close. -/
def Balanced (ws : List String) : Prop := ws.countP (· == "(") = ws.countP (· == ")")

theorem balanced_word {w : String} (hw : Ordinary w) : Balanced [w] := by
  simp [Balanced, hw.1, hw.2.1]

theorem Balanced.append {us ws : List String} (hus : Balanced us) (hws : Balanced ws) :
    Balanced (us ++ ws) := by
  unfold Balanced at *
  rw [List.countP_append, List.countP_append, hus, hws]

theorem Balanced.parentheses {ws : List String} (h : Balanced ws) :
    Balanced ("(" :: (ws ++ [")"])) := by
  unfold Balanced at *
  simp [h]

theorem Balanced.comma {us ws : List String} (hus : Balanced us) (hws : Balanced ws) :
    Balanced (us ++ "," :: ws) := by
  unfold Balanced at *
  simp [hus, hws]

mutual

theorem Spells.balanced {b : Bracketed} {us : List String} (h : Spells Ordinary b us) :
    Balanced us :=
  match h with
  | .word hw => balanced_word hw
  | .group hparts => hparts.balanced.parentheses

theorem SpellsItems.balanced {bs : List Bracketed} {us : List String}
    (h : SpellsItems Ordinary bs us) : Balanced us :=
  match h with
  | .nil => rfl
  | .cons hb hbs => hb.balanced.append hbs.balanced

theorem SpellsParts.balanced {parts : List (List Bracketed)} {us : List String}
    (h : SpellsParts Ordinary parts us) : Balanced us :=
  match h with
  | .last hbs => hbs.balanced
  | .more hbs hparts => hbs.balanced.comma hparts.balanced

end

/-- A run that ends inside a group has met more opening parentheses than closing
    ones. -/
theorem countP_of_build_error {ws : List String} {here : List Bracketed}
    {parts : List (List Bracketed)} {opened : List Open} {fault : CompileFault}
    (h : build here parts opened ws = .error fault) :
    ws.countP (· == ")") < ws.countP (· == "(") + opened.length := by
  fun_induction build here parts opened ws with
  | case1 | case4 => cases h
  | case2 => simp
  | case3 here parts opened ws ih
  | case6 here parts ws _ _ ih
  | case7 here parts ws o rest _ _ ih =>
    have hrest := ih h
    simp at hrest ⊢
    omega
  | case5 here parts ws o rest _ ih =>
    have hrest := ih h
    simp
    omega
  | case8 here parts opened w ws hopen hclose _ ih =>
    simpa [List.countP_cons, hopen, hclose] using ih h

/-! ## Whole conditions -/

theorem ofWords_of_balanced {ws : List String} (h : Balanced ws) :
    ofWords ws = build [] [] [] ws := by
  unfold Balanced at h
  simp [ofWords, h]

theorem ofWords_of_spells {bs : List Bracketed} {ws : List String}
    (h : SpellsItems Ordinary bs ws) : ofWords ws = .ok ⟨bs, false⟩ := by
  have hrun := h.build [] [] [] []
  rw [List.append_nil, List.append_nil] at hrun
  rw [ofWords_of_balanced h.balanced, hrun]
  simp [build]

theorem spells_of_ofWords {bs : List Bracketed} {ws : List String}
    (h : ofWords ws = .ok ⟨bs, false⟩) : SpellsItems NotParenthesis bs ws := by
  have hrun : build [] [] [] ws = .ok ⟨bs, false⟩ := by
    simp only [ofWords] at h
    split at h
    · cases h
    · split at h
      · cases h
      · exact h
  obtain ⟨cs, us, hitems, hcs, ⟨-, rfl⟩ | ⟨hstray, -⟩⟩ := build_outer hrun
  · obtain rfl : bs = cs := hitems
    exact hcs.items
  · cases hstray

end FuzzyInference.Bracketed
