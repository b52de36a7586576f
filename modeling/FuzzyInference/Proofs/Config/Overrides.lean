import FuzzyInference.Config.Environment
import FuzzyInference.Scalar.Binary64

/-!
# What the environment leaves of a configuration

The variables of the environment are applied one after the other, each to one
field. A text that is not understood stops the run: the fields in front of it
keep what they were given, and those behind it are as they were. The number of
samples is checked last, so a number that is too small is stored first.

Results:

* `applyEnvironment_iff`: the configuration and the error that the environment
  leaves, for every configuration and every environment.
* `applyEnvironment_keeps`: an error can leave a changed configuration, and an
  invalid one.
-/

namespace FuzzyInference.Config

variable {α : Type}

/-! ## Fields -/

/-- A field that a variable of the environment overrides. -/
inductive Field where
  | sampleCount
  | method
  | noDataValue
  | noDataIgnore
  | noDataSubstitute
  deriving DecidableEq

namespace Field

/-- The fields in the order of their variables. -/
def all : List Field := [sampleCount, method, noDataValue, noDataIgnore, noDataSubstitute]

/-- The place of a field among the fields. -/
def position : Field → Nat
  | sampleCount => 0
  | method => 1
  | noDataValue => 2
  | noDataIgnore => 3
  | noDataSubstitute => 4

/-- The variable that overrides a field. -/
def key : Field → String
  | sampleCount => "FUZZY_SAMPLE_COUNT"
  | method => "FUZZY_DEFUZZIFIER"
  | noDataValue => "FUZZY_NODATA_VALUE"
  | noDataIgnore => "FUZZY_NODATA_IGNORE"
  | noDataSubstitute => "FUZZY_NODATA_SUBSTITUTE"

/-- What a field holds. -/
abbrev Content (α : Type) : Field → Type
  | sampleCount => Nat
  | method => Method
  | noDataValue => α
  | noDataIgnore => Bool
  | noDataSubstitute => Option α

/-- What a configuration holds in a field. -/
def get (c : Config α) : (f : Field) → f.Content α
  | sampleCount => c.sampleCount
  | method => c.method
  | noDataValue => c.noData.value
  | noDataIgnore => c.noData.ignore
  | noDataSubstitute => c.noData.substitute

/-- A configuration with another content of a field. -/
def put (c : Config α) : (f : Field) → f.Content α → Config α
  | sampleCount, n => { c with sampleCount := n }
  | method, m => { c with method := m }
  | noDataValue, x => { c with noData := { c.noData with value := x } }
  | noDataIgnore, b => { c with noData := { c.noData with ignore := b } }
  | noDataSubstitute, k => { c with noData := { c.noData with substitute := k } }

@[simp] theorem get_put (c : Config α) (f : Field) (v : f.Content α) : f.get (f.put c v) = v := by
  cases f <;> rfl

theorem get_put_of_ne (c : Config α) {f g : Field} (h : g ≠ f) (v : f.Content α) :
    g.get (f.put c v) = g.get c := by
  cases f <;> cases g <;> first | rfl | exact absurd rfl h

/-- A configuration is known from its fields. -/
theorem ext_get {c d : Config α} (h : ∀ f : Field, f.get c = f.get d) : c = d := by
  obtain ⟨n, m, value, ignore, substitute⟩ := c
  obtain ⟨n', m', value', ignore', substitute'⟩ := d
  obtain rfl : n = n' := h sampleCount
  obtain rfl : m = m' := h method
  obtain rfl : value = value' := h noDataValue
  obtain rfl : ignore = ignore' := h noDataIgnore
  obtain rfl : substitute = substitute' := h noDataSubstitute
  rfl

theorem mem_all (f : Field) : f ∈ all := by cases f <;> decide

theorem position_injective {f g : Field} (h : f.position = g.position) : f = g := by
  cases f <;> cases g <;> first | rfl | cases h

theorem sorted_all : all.Pairwise fun f g => f.position < g.position := by decide

variable [Scalar α]

/-- What the text of a field's variable says. -/
def read : (f : Field) → String → Result α (f.Content α)
  | sampleCount, text => readSetting "FUZZY_SAMPLE_COUNT" (Numeral.readNat? (Nat.pow 2 64)) text
  | method, text => Method.parse text
  | noDataValue, text => readSetting "FUZZY_NODATA_VALUE" Scalar.read? text
  | noDataIgnore, text => readSetting "FUZZY_NODATA_IGNORE" readBool? text
  | noDataSubstitute, text =>
    if Text.trim text = "" ∨ Text.trim text = "none" then .ok none
    else some <$> readSetting "FUZZY_NODATA_SUBSTITUTE" Scalar.read? (Text.trim text)

/-- Overriding a field is reading its text and putting what it says. -/
def setting (f : Field) : String × Setting α := (f.key, fun c text => f.put c <$> f.read text)

theorem settings_eq : (settings : List (String × Setting α)) = all.map setting := by
  have hsubstitute : (setNoDataSubstitute : Setting α) = (setting noDataSubstitute).2 := by
    funext c text
    simp only [setNoDataSubstitute, setting, read]
    split
    · rfl
    · simp [put]
  have hcount : (setSampleCount : Setting α) = (setting sampleCount).2 := by
    funext c text
    simp only [setSampleCount, bind_pure_comp]
    rfl
  rw [settings, hsubstitute, hcount]
  rfl

end Field

variable [Scalar α]

/-! ## The run over the variables -/

/-- A field is what its variable says if the variable is set, and as it was
    otherwise. -/
def Field.Follows (f : Field) (environment : String → Option String) (c c' : Config α) : Prop :=
  match environment f.key with
  | some text => f.read text = .ok (f.get c')
  | none => f.get c' = f.get c

variable {environment : String → Option String}

theorem Field.follows_unset {f : Field} (h : environment f.key = none) (c c' : Config α) :
    f.Follows environment c c' ↔ f.get c' = f.get c := by
  simp [Field.Follows, h]

theorem Field.follows_set {f : Field} {text : String} (h : environment f.key = some text)
    (c c' : Config α) : f.Follows environment c c' ↔ f.read text = .ok (f.get c') := by
  simp [Field.Follows, h]

/-- Whether a field follows its variable depends on what it was before and on what
    it is. -/
theorem Field.Follows.congr {f : Field} {b c c' : Config α} (h : f.Follows environment b c')
    (hget : f.get b = f.get c) : f.Follows environment c c' := by
  unfold Field.Follows at h ⊢
  rw [← hget]
  exact h

theorem Field.Follows.of_get {f : Field} {b c c' : Config α} (h : f.Follows environment c b)
    (hget : f.get c' = f.get b) : f.Follows environment c c' := by
  unfold Field.Follows at h ⊢
  rw [hget]
  exact h

/-- A field follows its variable in one way only. -/
theorem Field.Follows.unique {f : Field} {c c' d : Config α} (h : f.Follows environment c c')
    (hd : f.Follows environment c d) : f.get c' = f.get d := by
  cases hf : environment f.key with
  | some text =>
    rw [follows_set hf] at h hd
    exact Except.ok.inj (h.symm.trans hd)
  | none =>
    rw [follows_unset hf] at h hd
    rw [h, hd]

/-- A run stops at a field whose text is not understood. The fields in front of it
    have followed their variables, and it and those behind it are as they were. -/
structure StopsAt (environment : String → Option String) (fs : List Field)
    (c c' : Config α) (f : Field) (e : Error α) : Prop where
  unreadable : ∃ text, environment f.key = some text ∧ f.read text = .error e
  front : ∀ g ∈ fs, g.position < f.position → g.Follows environment c c'
  behind : ∀ g ∈ fs, f.position ≤ g.position → g.get c' = g.get c

/-- What a run over fields leaves. -/
def Leaves (environment : String → Option String) (fs : List Field) (c c' : Config α) :
    Option (Error α) → Prop
  | none => ∀ f ∈ fs, f.Follows environment c c'
  | some e => ∃ f ∈ fs, StopsAt environment fs c c' f e

/-- One variable is applied and the run goes on, or it is not understood. -/
theorem applySettings_cons {f : Field} {fs : List Field} {c c' : Config α} {r : Option (Error α)}
    (h : applySettings environment ((f :: fs).map Field.setting) c = (c', r)) :
    (∃ b, f.Follows environment c b ∧ (∀ g ≠ f, g.get b = g.get c) ∧
        applySettings environment (fs.map Field.setting) b = (c', r)) ∨
      ∃ text e, environment f.key = some text ∧ f.read text = .error e ∧ c' = c ∧ r = some e := by
  rw [List.map_cons, Field.setting, applySettings] at h
  cases hset : environment f.key with
  | none =>
    rw [hset] at h
    exact .inl ⟨c, (Field.follows_unset hset c c).2 rfl, fun _ _ => rfl, h⟩
  | some text =>
    rw [hset] at h
    cases hread : f.read (α := α) text with
    | error e =>
      simp only [hread, Functor.map, Except.map, Prod.mk.injEq] at h
      exact .inr ⟨text, e, rfl, hread, h.1.symm, h.2.symm⟩
    | ok v =>
      simp only [hread, Functor.map, Except.map] at h
      have hfollows : f.Follows environment c (f.put c v) := by
        rw [Field.follows_set hset, hread, Field.get_put]
      exact .inl ⟨f.put c v, hfollows, fun g hg => Field.get_put_of_ne c hg v, h⟩

/-- A run over fields in their order settles each of them or stops at one. Other
    fields stay. -/
theorem leaves_of_applySettings {fs : List Field}
    (hsorted : fs.Pairwise fun f g => f.position < g.position) {c c' : Config α}
    {r : Option (Error α)} (h : applySettings environment (fs.map Field.setting) c = (c', r)) :
    (∀ g ∉ fs, g.get c' = g.get c) ∧ Leaves environment fs c c' r := by
  induction fs generalizing c with
  | nil =>
    cases h
    exact ⟨fun _ _ => rfl, nofun⟩
  | cons f fs ih =>
    obtain ⟨hfirst, hrest⟩ := List.pairwise_cons.1 hsorted
    have hf : f ∉ fs := fun hmem => Nat.lt_irrefl _ (hfirst f hmem)
    have hne : ∀ g ∈ fs, g ≠ f := fun g hg heq => hf (heq ▸ hg)
    rcases applySettings_cons h with ⟨b, hfollows, hother, hrun⟩ | ⟨text, e, hset, hread, rfl, rfl⟩
    · obtain ⟨houtside, hleaves⟩ := ih hrest hrun
      -- The run over the others does not touch the first field, and starts as if it had not
      -- been set.
      have hfollows' : f.Follows environment c c' := hfollows.of_get (houtside f hf)
      have hothers : ∀ g ∈ fs, g.Follows environment b c' → g.Follows environment c c' :=
        fun g hg hg' => hg'.congr (hother g (hne g hg))
      refine ⟨fun g hg => ?_, ?_⟩
      · rw [List.mem_cons, not_or] at hg
        rw [houtside g hg.2, hother g hg.1]
      · cases r with
        | none => exact List.forall_mem_cons.2 ⟨hfollows', fun g hg => hothers g hg (hleaves g hg)⟩
        | some e =>
          obtain ⟨k, hk, hstops⟩ := hleaves
          refine ⟨k, List.mem_cons_of_mem f hk, hstops.unreadable, ?_, ?_⟩
          · exact List.forall_mem_cons.2 ⟨fun _ => hfollows', fun g hg hlt =>
              hothers g hg (hstops.front g hg hlt)⟩
          · refine List.forall_mem_cons.2 ⟨fun hle => absurd (hfirst k hk) (Nat.not_lt.2 hle), ?_⟩
            intro g hg hle
            rw [hstops.behind g hg hle, hother g (hne g hg)]
    · refine ⟨fun _ _ => rfl, f, List.mem_cons_self, ⟨text, hset, hread⟩, ?_, fun _ _ _ => rfl⟩
      exact List.forall_mem_cons.2 ⟨fun hlt => absurd hlt (Nat.lt_irrefl _), fun g hg hlt =>
        absurd hlt (Nat.lt_asymm (hfirst g hg))⟩

/-! ## Environments -/

/-- What the environment leaves of a configuration, and the error if there is
    one. -/
inductive Overridden (environment : String → Option String) (c c' : Config α) :
    Option (Error α) → Prop
  /-- Every field follows its variable, and the configuration is valid. -/
  | applied (hall : ∀ f : Field, f.Follows environment c c') (hvalid : c'.validate = .ok ()) :
      Overridden environment c c' none
  /-- Every field follows its variable, and only then the configuration is found
      invalid. -/
  | invalid {e} (hall : ∀ f : Field, f.Follows environment c c')
      (hinvalid : c'.validate = .error e) :
      Overridden environment c c' (some e)
  /-- A text is not understood. -/
  | unreadable {f e} (hstops : StopsAt environment Field.all c c' f e) :
      Overridden environment c c' (some e)

theorem overridden_of_applyEnvironment (c : Config α) (environment : String → Option String) :
    Overridden environment c (c.applyEnvironment environment).1
      (c.applyEnvironment environment).2 := by
  unfold applyEnvironment
  rw [Field.settings_eq]
  rcases hrun : applySettings environment (Field.all.map Field.setting) c with ⟨c', _ | e⟩
  · have hall : ∀ f : Field, f.Follows environment c c' :=
      fun f => (leaves_of_applySettings Field.sorted_all hrun).2 f f.mem_all
    cases hvalid : c'.validate with
    | ok _ => simpa [hvalid] using Overridden.applied hall hvalid
    | error e => simpa [hvalid] using Overridden.invalid hall hvalid
  · obtain ⟨f, -, hstops⟩ := (leaves_of_applySettings Field.sorted_all hrun).2
    exact .unreadable hstops

/-- Where every field follows its variable, every variable that is set is
    understood. -/
theorem StopsAt.not_forall_follows {c c' d : Config α} {f : Field} {e : Error α}
    (h : StopsAt environment Field.all c c' f e) : ¬ ∀ g : Field, g.Follows environment c d := by
  intro hall
  obtain ⟨text, hset, hread⟩ := h.unreadable
  have hok := (Field.follows_set hset c d).1 (hall f)
  rw [hread] at hok
  cases hok

/-- A run stops at the first text that is not understood. -/
theorem StopsAt.position_le {c c' d : Config α} {f g : Field} {e e' : Error α}
    (hf : StopsAt environment Field.all c c' f e) (hg : StopsAt environment Field.all c d g e') :
    f.position ≤ g.position := by
  refine Nat.le_of_not_lt fun hlt => ?_
  obtain ⟨text, hset, hread⟩ := hg.unreadable
  have hok := (Field.follows_set hset c c').1 (hf.front g g.mem_all hlt)
  rw [hread] at hok
  cases hok

theorem StopsAt.unique {c c' d : Config α} {f g : Field} {e e' : Error α}
    (hf : StopsAt environment Field.all c c' f e) (hg : StopsAt environment Field.all c d g e') :
    c' = d ∧ e = e' := by
  obtain rfl : f = g :=
    Field.position_injective (Nat.le_antisymm (hf.position_le hg) (hg.position_le hf))
  constructor
  · apply Field.ext_get
    intro k
    rcases Nat.lt_or_ge k.position f.position with hlt | hle
    · exact (hf.front k k.mem_all hlt).unique (hg.front k k.mem_all hlt)
    · rw [hf.behind k k.mem_all hle, hg.behind k k.mem_all hle]
  · obtain ⟨text, hset, hread⟩ := hf.unreadable
    obtain ⟨text', hset', hread'⟩ := hg.unreadable
    obtain rfl : text = text' := Option.some.inj (hset.symm.trans hset')
    exact Except.error.inj (hread.symm.trans hread')

theorem Overridden.unique {c c' d : Config α} {r s : Option (Error α)}
    (h : Overridden environment c c' r) (hd : Overridden environment c d s) : c' = d ∧ r = s := by
  have same : (∀ f : Field, f.Follows environment c c') → (∀ f : Field, f.Follows environment c d) →
      c' = d := fun hall hall' => Field.ext_get fun f => (hall f).unique (hall' f)
  cases h with
  | applied hall hvalid =>
    cases hd with
    | applied hall' _ => exact ⟨same hall hall', rfl⟩
    | invalid hall' hinvalid =>
      rw [← same hall hall', hvalid] at hinvalid
      cases hinvalid
    | unreadable hstops => exact absurd hall hstops.not_forall_follows
  | invalid hall hinvalid =>
    cases hd with
    | applied hall' hvalid =>
      rw [← same hall hall', hinvalid] at hvalid
      cases hvalid
    | invalid hall' hinvalid' =>
      rw [← same hall hall', hinvalid] at hinvalid'
      exact ⟨same hall hall', congrArg some (Except.error.inj hinvalid')⟩
    | unreadable hstops => exact absurd hall hstops.not_forall_follows
  | unreadable hstops =>
    cases hd with
    | applied hall' _ => exact absurd hall' hstops.not_forall_follows
    | invalid hall' _ => exact absurd hall' hstops.not_forall_follows
    | unreadable hstops' =>
      obtain ⟨hc, he⟩ := hstops.unique hstops'
      exact ⟨hc, congrArg some he⟩

/-- What the environment leaves of a configuration. Without an error, the fields
    whose variables are set hold what these say, the others are as they were, and
    the configuration is valid. With an error, a text was not understood, the fields
    in front of it hold what their variables say, and it and those behind it are as
    they were; or all texts were understood, and the configuration that holds all of
    it is invalid. A configuration keeps its value when the first variable that is
    set is not understood. -/
theorem applyEnvironment_iff (c : Config α) (environment : String → Option String) :
    (∀ c' r, c.applyEnvironment environment = (c', r) ↔ Overridden environment c c' r) ∧
      ∀ (f : Field) (text : String) (e : Error α), environment f.key = some text →
        f.read text = .error e → (∀ g : Field, g.position < f.position → environment g.key = none) →
          c.applyEnvironment environment = (c, some e) := by
  have hiff : ∀ c' r, c.applyEnvironment environment = (c', r) ↔ Overridden environment c c' r := by
    intro c' r
    have hrun := overridden_of_applyEnvironment c environment
    constructor
    · intro h
      rw [h] at hrun
      exact hrun
    · intro h
      obtain ⟨hc, hr⟩ := hrun.unique h
      exact Prod.ext hc hr
  refine ⟨hiff, ?_⟩
  intro f text e hset hread hunset
  refine (hiff c (some e)).2 (.unreadable (f := f) ⟨⟨text, hset, hread⟩, ?_, fun _ _ _ => rfl⟩)
  exact fun g _ hlt => (Field.follows_unset (hunset g hlt) c c).2 rfl

/-- The first variable that is set holds no truth value: nothing changes, and the
    variable behind it is not looked at. -/
theorem applyEnvironment_maybe :
    (default : Config Float).applyEnvironment (fun key =>
        if key = "FUZZY_NODATA_IGNORE" then some "maybe"
        else if key = "FUZZY_NODATA_SUBSTITUTE" then some "7"
        else none) =
      (default, some (.config (.invalidSetting "FUZZY_NODATA_IGNORE" "maybe"))) := by
  refine (applyEnvironment_iff (default : Config Float) _).2 .noDataIgnore "maybe" _ rfl ?_ ?_
  · have hmaybe : readBool? (Text.trim "maybe") = none := rfl
    simp only [Field.read, readSetting, hmaybe, invalid]
  · intro g hlt
    cases g <;> first | rfl | exact absurd hlt (by decide)

/-- The number of samples stays when a later variable is not understood, and a
    number that is too small is there when it is found to be so. -/
theorem applyEnvironment_keeps :
    (default : Config Float).validate = .ok () ∧
      (default : Config Float).applyEnvironment (fun key =>
          if key = "FUZZY_SAMPLE_COUNT" then some "250"
          else if key = "FUZZY_NODATA_IGNORE" then some "maybe"
          else none) =
        ({ (default : Config Float) with sampleCount := 250 },
          some (.config (.invalidSetting "FUZZY_NODATA_IGNORE" "maybe"))) ∧
      { (default : Config Float) with sampleCount := 250 } ≠ default ∧
      (default : Config Float).applyEnvironment (fun key =>
          if key = "FUZZY_SAMPLE_COUNT" then some "1" else none) =
        ({ (default : Config Float) with sampleCount := 1 }, some (.config (.sampleCount 1))) := by
  have hmany : Numeral.readNat? (Nat.pow 2 64) (Text.trim "250") = some 250 := rfl
  have hone : Numeral.readNat? (Nat.pow 2 64) (Text.trim "1") = some 1 := rfl
  have hmaybe : readBool? (Text.trim "maybe") = none := rfl
  refine ⟨rfl, ?_, ?_, ?_⟩
  · simp [applyEnvironment, settings, applySettings, setSampleCount, setNoDataIgnore,
      readSetting, hmany, hmaybe, invalid, bind, Except.bind, pure, Except.pure]
  · intro h
    have hcount := congrArg Config.sampleCount h
    revert hcount
    decide
  · simp [applyEnvironment, settings, applySettings, setSampleCount, readSetting, hone,
      validate, bind, Except.bind, pure, Except.pure]

end FuzzyInference.Config
