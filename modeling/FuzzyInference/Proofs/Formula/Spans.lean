import FuzzyInference.Proofs.Formula.Parsing
import FuzzyInference.Proofs.Formula.TokenPattern

/-!
# The spans of tokens

A source is made of gaps and of tokens, each the longest one where it starts. No
byte belongs to two tokens, and a byte that belongs to none is a gap. A token ends
where a gap starts, so the gaps can be taken out and a single blank put behind
every token: the lexer finds the same tokens, and the parser the same formula.

Results:

* `lexFrom_iff_cuts`: the tokens of a text are the ones that it is made of.
* `lex_spans`: where the tokens of a source stand.
* `lexes_joined`: the tokens of the texts of tokens.
-/

namespace FuzzyInference

namespace Token

/-! ## Bytes -/

/-- The byte behind a token. -/
def stop (t : Token) : Nat := t.start + t.text.utf8ByteSize

theorem byteSize_append (cs ds : List Char) : byteSize (cs ++ ds) = byteSize cs + byteSize ds := by
  induction cs with
  | nil => exact (Nat.zero_add _).symm
  | cons c cs ih =>
    calc byteSize (c :: cs ++ ds) = c.utf8Size + byteSize (cs ++ ds) := rfl
      _ = c.utf8Size + byteSize cs + byteSize ds := by rw [ih, Nat.add_assoc]

theorem utf8ByteSize_ofList (cs : List Char) : (String.ofList cs).utf8ByteSize = byteSize cs := by
  induction cs with
  | nil => rfl
  | cons c cs ih =>
    rw [String.ofList_cons, String.utf8ByteSize_append, ih, String.utf8ByteSize_singleton]; rfl

/-- The bytes of characters. -/
def bytes (cs : List Char) : List UInt8 := cs.flatMap String.utf8EncodeChar

theorem bytes_toList (s : String) : bytes s.toList = s.toUTF8.data.toList := by
  have hencode : s.toUTF8 = s.toList.utf8Encode := String.utf8Encode_toList.symm
  rw [hencode, List.utf8Encode, List.data_toByteArray]
  rfl

theorem length_bytes (cs : List Char) : (bytes cs).length = byteSize cs := by
  induction cs with
  | nil => rfl
  | cons c cs ih =>
    rw [bytes, List.flatMap_cons, List.length_append, String.length_utf8EncodeChar, ← bytes, ih]
    rfl

/-- The bytes of gaps. -/
def gapBytes : List UInt8 := [32, 9, 13, 10, 12]

theorem utf8EncodeChar_of_isGap {c : Char} (h : isGap c = true) :
    ∃ b ∈ gapBytes, String.utf8EncodeChar c = [b] := by
  simp only [isGap, Bool.or_eq_true, beq_iff_eq] at h
  rcases h with (((rfl | rfl) | rfl) | rfl) | rfl
  · exact ⟨32, by decide, by decide⟩
  · exact ⟨9, by decide, by decide⟩
  · exact ⟨13, by decide, by decide⟩
  · exact ⟨10, by decide, by decide⟩
  · exact ⟨12, by decide, by decide⟩

/-! ## Texts of gaps and tokens -/

/-- A text that starts at a byte is made of gaps and of tokens, each the longest one
    there. -/
inductive Cuts : Nat → List Char → List Token → Prop
  | nil {start} : Cuts start [] []
  | gap {start c cs ts} : isGap c = true → Cuts (start + c.utf8Size) cs ts → Cuts start (c :: cs) ts
  | token {start kind w behind ts} :
      Longest kind w (w ++ behind) → Cuts (start + byteSize w) behind ts →
      Cuts start (w ++ behind) (⟨kind, String.ofList w, start⟩ :: ts)

theorem lexFrom_token {start : Nat} {kind : TokenKind} {w behind : List Char}
    (h : Longest kind w (w ++ behind)) :
    lexFrom start (w ++ behind) =
      (lexFrom (start + byteSize w) behind).map (⟨kind, String.ofList w, start⟩ :: ·) := by
  obtain ⟨c, ds, more, hcs, hscan, rfl⟩ := h.scan
  obtain rfl : behind = ds.drop more := by
    rw [List.cons_append, List.cons_inj_right] at hcs
    exact List.append_cancel_left (hcs.trans (List.take_append_drop more ds).symm)
  have hgap : isGap c = false := not_isGap_of_mem_pattern h.mem c List.mem_cons_self
  rw [hcs, lexFrom, hgap, if_neg Bool.false_ne_true, hscan]
  cases hrest : lexFrom (start + byteSize (c :: ds.take more)) (ds.drop more) <;>
    simp [hrest, bind, Except.bind, pure, Except.pure, Except.map]

/-- The tokens of a text are the ones that it is made of. -/
theorem lexFrom_iff_cuts {start : Nat} {cs : List Char} {ts : List Token} :
    lexFrom start cs = .ok ts ↔ Cuts start cs ts := by
  constructor
  · intro h
    induction start, cs using lexFrom.induct generalizing ts with
    | case1 start =>
      rw [lexFrom, Except.ok.injEq] at h
      exact h ▸ .nil
    | case2 start c cs hgap ih =>
      rw [lexFrom, if_pos hgap] at h
      exact .gap hgap (ih h)
    | case3 start c cs hgap hscan =>
      rw [lexFrom, if_neg hgap] at h
      simp [hscan] at h
    | case4 start c cs hgap kind more hscan text =>
      rename_i ih
      have hsplit : c :: cs = c :: cs.take more ++ cs.drop more := by
        rw [List.cons_append, List.take_append_drop]
      have hlongest := scan_longest hscan
      rw [hsplit] at hlongest h ⊢
      rw [lexFrom_token hlongest] at h
      cases hrest : lexFrom (start + byteSize (c :: cs.take more)) (cs.drop more) with
      | error fault => simp [hrest, Except.map] at h
      | ok us =>
        rw [hrest, Except.map, Except.ok.injEq] at h
        exact h ▸ .token hlongest (ih hrest)
  · intro h
    induction h with
    | nil => rw [lexFrom]
    | gap hgap _ ih => rw [lexFrom, if_pos hgap, ih]
    | token hlongest _ ih => rw [lexFrom_token hlongest, ih]; rfl

theorem Cuts.start_le {start : Nat} {cs : List Char} {ts : List Token} (h : Cuts start cs ts) :
    ∀ t ∈ ts, start ≤ t.start := by
  induction h with
  | nil => simp
  | gap _ _ ih => exact fun t ht => (Nat.le_add_right _ _).trans (ih t ht)
  | token _ _ ih =>
    rw [List.forall_mem_cons]
    exact ⟨Nat.le_refl _, fun t ht => (Nat.le_add_right _ _).trans (ih t ht)⟩

/-- Each token stops before the ones behind it start. -/
theorem Cuts.pairwise {start : Nat} {cs : List Char} {ts : List Token} (h : Cuts start cs ts) :
    ts.Pairwise fun t u => t.stop ≤ u.start := by
  induction h with
  | nil => exact .nil
  | gap _ _ ih => exact ih
  | token _ hbehind ih =>
    refine List.pairwise_cons.2 ⟨?_, ih⟩
    intro u hu
    rw [stop, utf8ByteSize_ofList]
    exact hbehind.start_le u hu

/-- A token stands where it starts, and no longer one does. -/
theorem Cuts.stands {start : Nat} {cs : List Char} {ts : List Token} (h : Cuts start cs ts) :
    ∀ t ∈ ts, ∃ before behind, cs = before ++ (t.text.toList ++ behind) ∧
      t.start = start + byteSize before ∧
      Longest t.kind t.text.toList (t.text.toList ++ behind) := by
  induction h with
  | nil => simp
  | @gap start c cs ts _ _ ih =>
    intro t ht
    obtain ⟨before, behind, rfl, hstart, hlongest⟩ := ih t ht
    refine ⟨c :: before, behind, rfl, ?_, hlongest⟩
    rw [hstart, Nat.add_assoc]
    rfl
  | @token start kind w behind ts hlongest _ ih =>
    rw [List.forall_mem_cons]
    constructor
    · refine ⟨[], behind, ?_, rfl, ?_⟩
      · rw [String.toList_ofList, List.nil_append]
      · rwa [String.toList_ofList]
    · intro t ht
      obtain ⟨before, behind', rfl, hstart, hlongest'⟩ := ih t ht
      refine ⟨w ++ before, behind', by rw [List.append_assoc], ?_, hlongest'⟩
      rw [hstart, byteSize_append, Nat.add_assoc]

/-- A byte outside of the tokens is a gap. -/
theorem Cuts.gapByte {start : Nat} {cs : List Char} {ts : List Token} (h : Cuts start cs ts) :
    ∀ (i : Nat) (b : UInt8), (bytes cs)[i]? = some b →
      (∀ t ∈ ts, start + i < t.start ∨ t.stop ≤ start + i) → b ∈ gapBytes := by
  induction h with
  | nil => simp [bytes]
  | @gap start c cs ts hgap _ ih =>
    intro i b hb hout
    obtain ⟨g, hg, hc⟩ := utf8EncodeChar_of_isGap hgap
    have hbytes : bytes (c :: cs) = g :: bytes cs := by rw [bytes, List.flatMap_cons, hc]; rfl
    have hsize : c.utf8Size = 1 := by rw [← String.length_utf8EncodeChar, hc]; rfl
    rw [hbytes] at hb
    cases i with
    | zero => exact Option.some.inj hb ▸ hg
    | succ i =>
      refine ih i b hb ?_
      rw [hsize]
      simpa only [Nat.add_assoc, Nat.add_comm 1] using hout
  | @token start kind w behind ts _ _ ih =>
    intro i b hb hout
    rw [List.forall_mem_cons, stop, utf8ByteSize_ofList] at hout
    obtain ⟨hfirst, hout⟩ := hout
    have hpast : byteSize w ≤ i := by
      dsimp only at hfirst
      omega
    have hbytes : bytes (w ++ behind) = bytes w ++ bytes behind := List.flatMap_append
    rw [hbytes, List.getElem?_append_right (by rwa [length_bytes]), length_bytes] at hb
    refine ih (i - byteSize w) b hb ?_
    rwa [show start + byteSize w + (i - byteSize w) = start + i by omega]

/-! ## Tokens with single blanks between them -/

theorem Longest.cut {kind : TokenKind} {w behind : List Char} (h : Longest kind w (w ++ behind)) :
    Cut kind w behind := by
  obtain ⟨c, ds, more, hcs, hscan, rfl⟩ := h.scan
  rw [List.cons_append, List.cons_inj_right] at hcs
  refine ⟨c, ds.take more, rfl, not_isGap_of_mem_pattern h.mem c List.mem_cons_self, ?_⟩
  rw [hcs, List.length_take_of_le (scan_le hscan), hscan]

/-- The tokens of the texts of tokens are the same tokens. -/
theorem lexes_joined {ts : List Token}
    (h : ∀ t ∈ ts, ∃ behind, Longest t.kind t.text.toList (t.text.toList ++ behind)) :
    Lexes (" ".intercalate (ts.map Token.text)).toList (ts.map lexeme) := by
  induction ts with
  | nil => exact lexes_nil
  | cons t ts ih =>
    rw [List.forall_mem_cons] at h
    obtain ⟨⟨behind, hlongest⟩, h⟩ := h
    have hrest := ih h
    cases ts with
    | nil =>
      have hnothing : ∀ c ∈ ([] : List Char).head?, isGap c = true := by simp
      have hcut := (hlongest.before_gap hnothing).cut.lexes lexes_nil
      rwa [List.append_nil, String.ofList_toList] at hcut
    | cons u us =>
      have hblank : ∀ c ∈ (' ' :: (" ".intercalate ((u :: us).map Token.text)).toList).head?,
          isGap c = true := by
        simp [isGap]
      have hcut := (hlongest.before_gap hblank).cut.lexes (hrest.gap rfl)
      rw [String.ofList_toList] at hcut
      simpa [String.intercalate_cons_cons, lexeme] using hcut

end Token

namespace Formula

variable {α : Type} [Scalar α]

open Token

/-! ## Formulas of the same tokens -/

/-- Tokens of the same kinds and texts, wherever they start. -/
abbrev Alike (ts us : List Token) : Prop := ts.map lexeme = us.map lexeme

theorem Alike.cons {t : Token} {ts us : List Token} (h : Alike (t :: ts) us) :
    ∃ u us', us = u :: us' ∧ u.kind = t.kind ∧ u.text = t.text ∧ Alike ts us' := by
  cases us with
  | nil => cases h
  | cons u us' =>
    rw [Alike, List.map_cons, List.map_cons, List.cons.injEq, lexeme, lexeme, Prod.mk.injEq] at h
    exact ⟨u, us', rfl, h.1.1.symm, h.1.2.symm, h.2⟩

theorem NotOpened.alike {ts us : List Token} (h : NotOpened ts) (hts : Alike ts us) :
    NotOpened us := by
  cases ts with
  | nil =>
    rw [List.map_eq_nil_iff.1 hts.symm]
    exact h
  | cons t ts =>
    obtain ⟨u, us', rfl, hkind, -, -⟩ := hts.cons
    rintro v ⟨⟩
    exact hkind ▸ h t rfl

mutual

theorem IsSum.alike {ts us rest : List Token} {f : Formula α} (h : IsSum ts f rest)
    (hts : Alike ts us) : ∃ rest', Alike rest rest' ∧ IsSum us f rest' :=
  match h with
  | .term h => by
    obtain ⟨rest', hrest, h'⟩ := h.alike hts
    exact ⟨rest', hrest, .term h'⟩
  | .join hl hop hr => by
    obtain ⟨_, hmid, hl'⟩ := hl.alike hts
    obtain ⟨u, us', rfl, hkind, -, hmore⟩ := hmid.cons
    obtain ⟨rest', hrest, hr'⟩ := hr.alike hmore
    exact ⟨rest', hrest, .join hl' (hkind ▸ hop) hr'⟩

theorem IsTerm.alike {ts us rest : List Token} {f : Formula α} (h : IsTerm ts f rest)
    (hts : Alike ts us) : ∃ rest', Alike rest rest' ∧ IsTerm us f rest' :=
  match h with
  | .factor h => by
    obtain ⟨rest', hrest, h'⟩ := h.alike hts
    exact ⟨rest', hrest, .factor h'⟩
  | .join hl hop hr => by
    obtain ⟨_, hmid, hl'⟩ := hl.alike hts
    obtain ⟨u, us', rfl, hkind, -, hmore⟩ := hmid.cons
    obtain ⟨rest', hrest, hr'⟩ := hr.alike hmore
    exact ⟨rest', hrest, .join hl' (hkind ▸ hop) hr'⟩

theorem IsFactor.alike {ts us rest : List Token} {f : Formula α} (h : IsFactor ts f rest)
    (hts : Alike ts us) : ∃ rest', Alike rest rest' ∧ IsFactor us f rest' :=
  match h with
  | .minus hk h => by
    obtain ⟨u, us', rfl, hkind, -, hmore⟩ := hts.cons
    obtain ⟨rest', hrest, h'⟩ := h.alike hmore
    exact ⟨rest', hrest, .minus (hkind.trans hk) h'⟩
  | .plus hk h => by
    obtain ⟨u, us', rfl, hkind, -, hmore⟩ := hts.cons
    obtain ⟨rest', hrest, h'⟩ := h.alike hmore
    exact ⟨rest', hrest, .plus (hkind.trans hk) h'⟩
  | .power h => by
    obtain ⟨rest', hrest, h'⟩ := h.alike hts
    exact ⟨rest', hrest, .power h'⟩

theorem IsPower.alike {ts us rest : List Token} {f : Formula α} (h : IsPower ts f rest)
    (hts : Alike ts us) : ∃ rest', Alike rest rest' ∧ IsPower us f rest' :=
  match h with
  | .atom h => by
    obtain ⟨rest', hrest, h'⟩ := h.alike hts
    exact ⟨rest', hrest, .atom h'⟩
  | .raised hbase hk hexponent => by
    obtain ⟨_, hmid, hbase'⟩ := hbase.alike hts
    obtain ⟨u, us', rfl, hkind, -, hmore⟩ := hmid.cons
    obtain ⟨rest', hrest, hexponent'⟩ := hexponent.alike hmore
    exact ⟨rest', hrest, .raised hbase' (hkind.trans hk) hexponent'⟩

theorem IsAtom.alike {ts us rest : List Token} {f : Formula α} (h : IsAtom ts f rest)
    (hts : Alike ts us) : ∃ rest', Alike rest rest' ∧ IsAtom us f rest' :=
  match h with
  | .number hk hv => by
    obtain ⟨u, us', rfl, hkind, htext, hmore⟩ := hts.cons
    exact ⟨us', hmore, .number (hkind.trans hk) (htext ▸ hv)⟩
  | .constant hk hopen hv => by
    obtain ⟨u, us', rfl, hkind, htext, hmore⟩ := hts.cons
    exact ⟨us', hmore, .constant (hkind.trans hk) (hopen.alike hmore) (htext ▸ hv)⟩
  | .name hk hopen hname => by
    obtain ⟨u, us', rfl, hkind, htext, hmore⟩ := hts.cons
    rw [← htext] at hname ⊢
    exact ⟨us', hmore, .name (hkind.trans hk) (hopen.alike hmore) hname⟩
  | .call hk hfn ho hargs hcount => by
    obtain ⟨u, _, rfl, hkind, htext, hmore⟩ := hts.cons
    obtain ⟨o', us', rfl, ho', -, hmore⟩ := hmore.cons
    obtain ⟨rest', hrest, hargs'⟩ := hargs.alike hmore
    exact ⟨rest', hrest, .call (hkind.trans hk) (htext ▸ hfn) (ho'.trans ho) hargs' hcount⟩
  | .group ho h hc => by
    obtain ⟨o', us', rfl, ho', -, hmore⟩ := hts.cons
    obtain ⟨_, hmid, h'⟩ := h.alike hmore
    obtain ⟨c', rest', rfl, hc', -, hrest⟩ := hmid.cons
    exact ⟨rest', hrest, .group (ho'.trans ho) h' (hc'.trans hc)⟩

theorem AreArguments.alike {ts us rest : List Token} {args : List (Formula α)}
    (h : AreArguments ts args rest) (hts : Alike ts us) :
    ∃ rest', Alike rest rest' ∧ AreArguments us args rest' :=
  match h with
  | .none hc => by
    obtain ⟨c', rest', rfl, hc', -, hrest⟩ := hts.cons
    exact ⟨rest', hrest, .none (hc'.trans hc)⟩
  | .some h => by
    obtain ⟨rest', hrest, h'⟩ := h.alike hts
    exact ⟨rest', hrest, .some h'⟩

theorem AreParts.alike {ts us rest : List Token} {args : List (Formula α)}
    (h : AreParts ts args rest) (hts : Alike ts us) :
    ∃ rest', Alike rest rest' ∧ AreParts us args rest' :=
  match h with
  | .last h hc => by
    obtain ⟨_, hmid, h'⟩ := h.alike hts
    obtain ⟨c', rest', rfl, hc', -, hrest⟩ := hmid.cons
    exact ⟨rest', hrest, .last h' (hc'.trans hc)⟩
  | .more h hc hparts => by
    obtain ⟨_, hmid, h'⟩ := h.alike hts
    obtain ⟨c', us', rfl, hc', -, hmore⟩ := hmid.cons
    obtain ⟨rest', hrest, hparts'⟩ := hparts.alike hmore
    exact ⟨rest', hrest, .more h' (hc'.trans hc) hparts'⟩

end

/-- Sources of the same tokens, wherever they start, are the same formulas. -/
theorem parse_alike {source source' : String} {ts us : List Token} (hts : lex source = .ok ts)
    (hus : lex source' = .ok us) (h : Alike ts us) (f : Formula α) :
    parse source = .ok f ↔ parse source' = .ok f := by
  have hsum : ∀ {ts us : List Token}, Alike ts us → IsSum ts f [] → IsSum us f [] := by
    intro ts us h hf
    obtain ⟨rest', hrest, hf'⟩ := hf.alike h
    rwa [List.map_eq_nil_iff.1 hrest.symm] at hf'
  rw [parse_eq_ok hts, parse_eq_ok hus, reads_iff_isSum, reads_iff_isSum]
  exact ⟨hsum h, hsum h.symm⟩

end Formula

namespace Token

/-! ## The tokens of a source -/

/-- The tokens of a source follow each other without overlapping. Each has a text,
    which is a part of the source where the token starts, and is the longest token
    that starts there. All other bytes are gaps. With single blanks between them the
    texts of the tokens are cut into the same tokens, and are the same formula. -/
theorem lex_spans {α : Type} [Scalar α] {source : String} {ts : List Token}
    (h : lex source = .ok ts) :
    ts.Pairwise (fun t u => t.stop ≤ u.start) ∧
      (∀ t ∈ ts, t.start < t.stop ∧ ∃ before behind, source = before ++ t.text ++ behind ∧
        t.start = before.utf8ByteSize ∧ Longest t.kind t.text.toList (t.text ++ behind).toList) ∧
      (∀ (i : Nat) (b : UInt8), source.toUTF8.data[i]? = some b →
        (∀ t ∈ ts, i < t.start ∨ t.stop ≤ i) →
        b ∈ gapBytes) ∧
      (∃ us, lex (" ".intercalate (ts.map Token.text)) = .ok us ∧ us.map lexeme = ts.map lexeme) ∧
      ∀ f : Formula α, Formula.parse source = .ok f ↔
        Formula.parse (" ".intercalate (ts.map Token.text)) = .ok f := by
  have hcuts : Cuts 0 source.toList ts := lexFrom_iff_cuts.1 h
  have hstands := hcuts.stands
  have hjoined : ∃ us, lex (" ".intercalate (ts.map Token.text)) = .ok us ∧
      us.map lexeme = ts.map lexeme :=
    lexes_joined (fun t ht => by
      obtain ⟨-, behind, -, -, hlongest⟩ := hstands t ht
      exact ⟨behind, hlongest⟩) 0
  refine ⟨hcuts.pairwise, ?_, ?_, hjoined, ?_⟩
  · intro t ht
    obtain ⟨before, behind, hsource, hstart, hlongest⟩ := hstands t ht
    constructor
    · have hpos : t.text.utf8ByteSize ≠ 0 := by
        intro hzero
        refine ne_nil_of_mem_pattern hlongest.mem ?_
        rw [String.utf8ByteSize_eq_zero_iff.1 hzero]
        rfl
      rw [stop]
      omega
    · refine ⟨String.ofList before, String.ofList behind, ?_, ?_, ?_⟩
      · rw [← String.toList_inj]
        simpa using hsource
      · rw [hstart, Nat.zero_add, utf8ByteSize_ofList]
      · rwa [String.toList_append, String.toList_ofList]
  · intro i b hb hout
    refine hcuts.gapByte i b ?_ (by simpa using hout)
    rwa [bytes_toList, Array.getElem?_toList]
  · intro f
    obtain ⟨us, hus, halike⟩ := hjoined
    exact Formula.parse_alike h hus halike.symm f

/-- The letter of an unfinished power of ten is a name, with or without a blank in
    front of it. -/
theorem lex_spans_unfinished :
    ∃ ts us, lex "1e**2//.5e3 x.y" = .ok ts ∧ lex "1 e ** 2 // .5e3 x.y" = .ok us ∧
      us.map lexeme = ts.map lexeme ∧
      ts.map lexeme = [(.number, "1"), (.name, "e"), (.power, "**"), (.number, "2"),
        (.floorDivide, "//"), (.number, ".5e3"), (.name, "x.y")] := by
  have hlex : lex "1e**2//.5e3 x.y" =
      .ok [⟨.number, "1", 0⟩, ⟨.name, "e", 1⟩, ⟨.power, "**", 2⟩, ⟨.number, "2", 4⟩,
      ⟨.floorDivide, "//", 5⟩, ⟨.number, ".5e3", 7⟩, ⟨.name, "x.y", 12⟩] := by cbv
  obtain ⟨-, -, -, ⟨us, hus, hlexemes⟩, -⟩ := lex_spans (α := Float) hlex
  exact ⟨_, us, hlex, hus, hlexemes, rfl⟩

end Token

end FuzzyInference
