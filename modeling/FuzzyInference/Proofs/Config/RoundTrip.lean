import FuzzyInference.Config.Text
import FuzzyInference.Proofs.Toml.Lines

/-!
# Configurations read back from their texts

The text of a configuration is lines of TOML, so it builds the tables of the
statements in these lines: two settings, the table of missing data, and its two
or three settings. A substitute that is not there has no line. Every number of
the tables is the one that was written, and every method is read back from its
name.

Results:

* `ofToml?_entries`: the tables of a configuration say what it is.
* `lines_text`: the lines of a configuration's text.
* `ofText_text`: a configuration is read back from its text.
-/

namespace FuzzyInference

open Toml

namespace Method

theorem isLiteral_name (m : Method) : IsLiteral m.name.toList := by
  have hall : (m.name.toList.all fun c => isPlain c && c != '"' && c != '\\') = true := by
    cases m <;> decide
  intro c hc
  simpa [and_assoc] using List.all_eq_true.1 hall c hc

end Method

namespace Config

/-- The settings of missing data in the text of a configuration. -/
def noDataEntries (s : NoDataSettings Float) : Entries Float :=
  [("value", .float s.value), ("ignore", .bool s.ignore)] ++
    (s.substitute.map fun k => ("substitute", .float k)).toList

/-- The tables in the text of a configuration. -/
def entries (c : Config Float) : Entries Float :=
  [("sample_count", .int c.sampleCount), ("default_defuzzifier", .string c.method.name),
    ("no_data", .table .header (noDataEntries c.noData))]

/-- The statements in the text of a configuration. -/
def lineStatements (c : Config Float) : List (Statement Float) :=
  [.entry ⟨[], "sample_count"⟩ (.int c.sampleCount),
    .entry ⟨[], "default_defuzzifier"⟩ (.string c.method.name),
    .header ⟨[], "no_data"⟩,
    .entry ⟨[], "value"⟩ (.float c.noData.value),
    .entry ⟨[], "ignore"⟩ (.bool c.noData.ignore)] ++
      (c.noData.substitute.map fun k => .entry ⟨[], "substitute"⟩ (.float k)).toList

theorem ofStatements?_lineStatements (c : Config Float) :
    ofStatements? c.lineStatements = some c.entries := by
  obtain ⟨n, m, value, ignore, substitute⟩ := c
  cases substitute <;>
    simp [ofStatements?, lineStatements, noDataEntries, entries, Builder.step, Builder.empty,
      change, openTable, putKey, put, lookup?, upsert]

theorem ofToml?_entries (c : Config Float) : ofToml? c.entries = some c := by
  obtain ⟨n, m, value, ignore, substitute⟩ := c
  have hmethod : Method.ofToml? (.string m.name : Toml Float) = some m := Method.ofName?_name m
  cases substitute <;>
    simp [ofToml?, entries, noDataEntries, lookup?, setting, toNat?, hmethod, toScalar?, toBool?,
      NoDataSettings.ofToml?, NoDataSettings.ofSettings?, NoDataSettings.default]

/-- A line of a configuration that sets a name to a value. -/
theorem lines_textLine {name : String} (hname : IsName name) {text : String} {v : Toml Float}
    (hv : ∀ levels rest, value levels (text.toList ++ '\n' :: rest) = some (v, '\n' :: rest)) :
    Lines (textLine name text).toList [.entry ⟨[], name⟩ v] := by
  have htext : (textLine name text).toList =
      name.toList ++ ' ' :: '=' :: ' ' :: (text.toList ++ ['\n']) := by
    simp [textLine]
  rw [htext]
  exact lines_entry hname hv

theorem lines_sampleCount {n : ℕ} (hn : n < Nat.pow 2 63) :
    Lines (textLine "sample_count" (toString n)).toList [.entry ⟨[], "sample_count"⟩ (.int n)] :=
  lines_textLine (IsName.mk (by decide) (by decide)) (value_natural hn)

theorem lines_method (m : Method) :
    Lines (textLine "default_defuzzifier" ("\"" ++ m.name ++ "\"")).toList
      [.entry ⟨[], "default_defuzzifier"⟩ (.string m.name)] :=
  lines_textLine (IsName.mk (by decide) (by decide)) (value_string m.isLiteral_name)

/-- A blank line and the header of the table of missing data. -/
theorem lines_noData : Lines "\n[no_data]\n".toList [.header ⟨[], "no_data"⟩] := by
  have htext : "\n[no_data]\n".toList = ['\n'] ++ '[' :: ("no_data".toList ++ [']', '\n']) := by
    decide
  rw [htext]
  exact lines_blank.append (lines_header (IsName.mk (by decide) (by decide)))

theorem lines_value {x : Float} (hx : x.isNaN = false) :
    Lines (textLine "value" (FloatText.configuration.write x)).toList
      [.entry ⟨[], "value"⟩ (.float x)] :=
  lines_textLine (IsName.mk (by decide) (by decide)) (value_float hx)

theorem lines_ignore (ignore : Bool) :
    Lines (textLine "ignore" (if ignore then "true" else "false")).toList
      [.entry ⟨[], "ignore"⟩ (.bool ignore)] :=
  lines_textLine (IsName.mk (by decide) (by decide)) fun levels rest =>
    value_bool ignore levels ('\n' :: rest)

/-- A substitute that is not there has no line. -/
theorem lines_substitute {substitute : Option Float}
    (hdefined : ∀ k, substitute = some k → k.isNaN = false) :
    Lines (match substitute with
      | some k => textLine "substitute" (FloatText.configuration.write k)
      | none => "").toList
      (substitute.map fun k => Statement.entry ⟨[], "substitute"⟩ (.float k)).toList := by
  cases substitute with
  | none => exact fun done rest => rfl
  | some k =>
    exact lines_textLine (IsName.mk (by decide) (by decide)) (value_float (hdefined k rfl))

/-- The text of a configuration whose numbers are defined: its lines, and no mark of
    the byte order. -/
theorem lines_text {c : Config Float} (hn : c.sampleCount < Nat.pow 2 63)
    (hvalue : c.noData.value.isNaN = false)
    (hsubstitute : ∀ k, c.noData.substitute = some k → k.isNaN = false) :
    ∃ s, c.text = .ok s ∧ Lines s.toList c.lineStatements ∧ s.toList.head? ≠ some '\ufeff' := by
  refine ⟨_, if_neg (not_le.2 hn), ?_, ?_⟩
  · have hsettings := (lines_sampleCount hn).append (lines_method c.method)
    have hheader := hsettings.append lines_noData
    have htable := (hheader.append (lines_value hvalue)).append (lines_ignore c.noData.ignore)
    have hlines := htable.append (lines_substitute hsubstitute)
    unfold lineStatements
    simp only [String.toList_append, List.append_assoc, List.cons_append,
      List.nil_append] at hlines ⊢
    exact hlines
  · intro hmark
    simp [textLine] at hmark

/-- A configuration is read back from its text. -/
theorem ofText_text (c : Config Float) (hlow : 2 ≤ c.sampleCount) (hhigh : c.sampleCount < 2 ^ 63)
    (hvalue : c.noData.value.isNaN = false)
    (hsubstitute : ∀ k, c.noData.substitute = some k → k.isNaN = false) :
    (c.text >>= ofText) = .ok c := by
  obtain ⟨s, htext, hlines, hmark⟩ := lines_text hhigh hvalue hsubstitute
  have hread : read? s = some c.entries :=
    (read?_of_lines hlines hmark).trans (ofStatements?_lineStatements c)
  have hvalid : c.validate = .ok () := c.validate_eq_ok_iff.2 hlow
  have hofText : ofText s = .ok c := by
    unfold ofText
    rw [hread, Option.bind_some, ofToml?_entries]
    simp only [hvalid]
    rfl
  rw [htext]
  exact hofText

/-- Missing data spelled as negative zero, with an infinite substitute. -/
theorem ofText_text_negativeZero :
    ((Config.mk 2 .meanOfMaximum ⟨-0.0, true, some (-(1.0 / 0.0))⟩ : Config Float).text >>=
      ofText) =
      .ok (Config.mk 2 .meanOfMaximum ⟨-0.0, true, some (-(1.0 / 0.0))⟩) := by
  refine ofText_text _ (by decide) (by decide) (by decide) ?_
  rintro k ⟨⟩
  decide

end Config

end FuzzyInference
