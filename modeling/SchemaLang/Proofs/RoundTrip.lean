import SchemaLang.Check
import SchemaLang.Proofs.ErrorPosition
import SchemaLang.Proofs.Nesting.Schema
import SchemaLang.Proofs.Writing.Schema

namespace SchemaLang

variable {spell : Float → FloatForm} {s : Schema}

/-- The text of a schema is made of tokens for its pieces. -/
theorem Schema.WellFormed.ofText_written (h : s.WellFormed spell) :
    ∃ ts stop, Token.ofText (s.written spell) = .ok (ts ++ [stop]) ∧ stop.kind = .eof ∧
      List.Forall₂ Piece.Spells ts (s.pieces spell) := by
  have valid := (h.writes (Nat.le_refl _)).valid
  rw [Token.ofText, Schema.written, String.toList_ofList]
  exact Piece.scan_layout valid .outside .start

/-- The tokens of the pieces are read as the schema, places apart, with as many levels as it
opens. -/
theorem Schema.WellFormed.schema_of_spells {limit : Nat} {ts : List Token}
    (h : s.WellFormed spell) (hlevels : s.levels ≤ limit)
    (hts : List.Forall₂ Piece.Spells ts (s.pieces spell)) :
    ∃ s', Reader.schema limit ts = .ok s' ∧ s'.unplaced = s.unplaced := by
  obtain ⟨s', hderives, hsame⟩ := (h.writes hlevels).spells ts hts
  exact ⟨s', Reader.schema_eq_ok_iff.mpr hderives, hsame⟩

/-- With fewer levels, those tokens may be refused as nested too deeply, and for no other cause. -/
theorem Schema.WellFormed.schema_or_tooDeep {ts : List Token} (h : s.WellFormed spell)
    (hts : List.Forall₂ Piece.Spells ts (s.pieces spell)) (limit : Nat) :
    (∃ s', Reader.schema limit ts = .ok s' ∧ s'.unplaced = s.unplaced) ∨
      limit < s.levels ∧
        ∃ token nesting, Reader.schema limit ts = .error ⟨token, .tooDeep nesting⟩ := by
  by_cases hlevels : s.levels ≤ limit
  · exact .inl (h.schema_of_spells hlevels hts)
  · obtain ⟨s', hread, hsame⟩ := h.schema_of_spells (Nat.le_refl _) hts
    rcases Reader.schema_bounded (Nat.le_of_not_le hlevels) ts with heq | hdeep
    · exact .inl ⟨s', heq.trans hread, hsame⟩
    · exact .inr ⟨Nat.not_le.mp hlevels, hdeep⟩

theorem Schema.WellFormed.plain_of_spells {ts : List Token} (h : s.WellFormed spell)
    (hts : List.Forall₂ Piece.Spells ts (s.pieces spell)) : AllPlain ts := by
  obtain ⟨s', hderives, _⟩ := (h.writes (Nat.le_refl _)).spells ts hts
  exact Grammar.schema_plain _ ts s' hderives

theorem ofTokensWithin_of_plain {ts : List Token} {stop : Token} (hts : AllPlain ts)
    (hstop : stop.kind = .eof) (limit : Nat) :
    Schema.ofTokensWithin limit (ts ++ [stop]) =
      (Reader.schema limit ts).mapError (·.refusal stop) := by
  have tokens : Tokens.ofList (ts ++ [stop]) = ⟨ts, stop⟩ := by
    obtain ⟨body, hcode, _, hofList⟩ := code_append_stop hstop fun t ht => (hts t ht).2
    have same : code (ts ++ [stop]) = ts ++ [stop] := by
      rw [code, List.filter_append]
      have plain := code_of_plain hts
      rw [code] at plain
      rw [plain]
      simp [hstop]
    rw [hofList, List.append_cancel_right (hcode.symm.trans same)]
  rw [Schema.ofTokensWithin, tokens]

/-- A schema that can be written is read back from its text, places apart. With fewer levels than
it opens the text may be refused, but only as nested too deeply. -/
theorem Source.schema_written (h : s.WellFormed spell) (file : String) :
    (s.levels ≤ Schema.nestingLimit →
      ∃ s', (Source.mk file (s.written spell)).schema = .ok s' ∧ s'.unplaced = s.unplaced) ∧
    ∃ tokens, Token.ofText (s.written spell) = .ok tokens ∧ ∀ limit,
      (∃ s', Schema.ofTokensWithin limit tokens = .ok s' ∧ s'.unplaced = s.unplaced) ∨
      limit < s.levels ∧
        ∃ token nesting, Schema.ofTokensWithin limit tokens = .error ⟨token, .tooDeep nesting⟩ := by
  obtain ⟨ts, stop, hscan, hstop, hts⟩ := h.ofText_written
  have read := ofTokensWithin_of_plain (h.plain_of_spells hts) hstop
  refine ⟨fun hlevels => ?_, ts ++ [stop], hscan, fun limit => ?_⟩
  · obtain ⟨s', hread, hsame⟩ := h.schema_of_spells hlevels hts
    refine ⟨s', ?_, hsame⟩
    rw [Source.schema, Source.tokens, hscan]
    change (Schema.ofTokensWithin Schema.nestingLimit (ts ++ [stop])).mapError _ = _
    rw [read, hread]
    rfl
  · rcases h.schema_or_tooDeep hts limit with ⟨s', hread, hsame⟩ | ⟨hlt, token, nesting, hread⟩
    · exact .inl ⟨s', by rw [read, hread]; rfl, hsame⟩
    · exact .inr ⟨hlt, token.getD stop, nesting, by rw [read, hread]; rfl⟩

/-- A schema with an array, an imported function, a comparison, a cascade and a float. -/
def Schema.invoice : Schema where
  inputs := [⟨"lines", .array, none,
    [⟨"price", .element (.primitive .float), some (.range (.int 0) (.int 9) true), [], none, none,
      .start⟩], some .element, some "i", .start⟩]
  values := [
    ⟨"net", .call "sum" [.inputPath ["lines", "price"]] [("by", .index "i")], true, .start⟩,
    ⟨"tax", .cascade [
      (.apply "cascade_and" [.reference "large"],
        .importCall "rate" [("of", .array [.reference "net", .string "say \"no\""])]),
      (.boolean true, .float (Decimal.nearest 25 (-1)))], false, .start⟩]
  traits := [⟨"large", .call ">=" [.reference "net", .int (-100)] [], .start⟩]
  imports := [⟨["rate"], "Shared::Tax", .start⟩]

/-- The one float of the schema is written with digits. -/
def Schema.invoiceSpelling : Float → FloatForm := fun _ => .decimal "2.5"

theorem Schema.invoice_wellFormed : Schema.invoice.WellFormed Schema.invoiceSpelling := by
  have word : ∀ w ∈ ["rate", "lines", "price", "i", "net", "sum", "by", "tax", "large", "of"],
      Lexical.Word w.toList := by decide
  have reference {w : String} (hw : w ∈ ["rate", "lines", "price", "i", "net", "sum", "by", "tax",
      "large", "of"]) : Expr.WellFormed Schema.invoiceSpelling ["rate"] (.reference w) :=
    .reference (word w hw)
  have net : Expr.WellFormed Schema.invoiceSpelling ["rate"]
      (.call "sum" [.inputPath ["lines", "price"]] [("by", .index "i")]) := by
    refine .call (word _ (by simp)) ?_ (by decide) ?_ (by decide)
    · intro e he
      cases List.mem_singleton.mp he
      exact .inputPath (by decide) (by decide)
    · intro o ho
      cases List.mem_singleton.mp ho
      exact .index (word _ (by simp))
  have rate : Expr.WellFormed Schema.invoiceSpelling ["rate"]
      (.importCall "rate" [("of", .array [.reference "net", .string "say \"no\""])]) := by
    refine .importCall (word _ (by simp)) (by decide) (by decide) (by decide)
      (by decide) ?_ (by decide)
    intro o ho
    cases List.mem_singleton.mp ho
    refine .array fun e he => ?_
    rcases List.mem_cons.mp he with rfl | he
    · exact reference (by simp)
    · cases List.mem_singleton.mp he
      exact .literal .string
  have float :
      Expr.WellFormed Schema.invoiceSpelling ["rate"] (.float (Decimal.nearest 25 (-1))) := by
    have numeral : Lexical.Decimal ([] ++ ['2'] ++ '.' :: ['5']) :=
      .mk (.inl rfl) (.last (by decide)) (.last (by decide))
    exact .literal (.float rfl (.decimal numeral rfl))
  have cascade : ∀ c ∈ [(.apply "cascade_and" [.reference "large"],
      .importCall "rate" [("of", .array [.reference "net", .string "say \"no\""])]),
      (.boolean true, .float (Decimal.nearest 25 (-1)))],
      CaseWellFormed Schema.invoiceSpelling ["rate"] c := by
    intro c hc
    rcases List.mem_cons.mp hc with rfl | hc
    · refine .on (by simp) ?_ ?_ rate
      · intro e he
        cases List.mem_singleton.mp he
        exact reference (by simp)
      · intro e he name hsymbol
        cases List.mem_singleton.mp he
        cases hsymbol
    · cases List.mem_singleton.mp hc
      exact .base float
  refine ⟨?_, ?_, ?_, ?_⟩
  · intro i hi
    cases List.mem_singleton.mp hi
    exact ⟨by decide, by decide, .path (w := "Shared".toList) (p := "Tax".toList)
      (by decide) (.word (by decide))⟩
  · intro input hinput
    cases List.mem_singleton.mp hinput
    refine .mk (word _ (by simp)) .array (by simp) ?_ (by decide) ?_ ?_
    · intro i hi
      cases hi
      exact ⟨by decide, word _ (by simp)⟩
    · intro child hchild
      cases List.mem_singleton.mp hchild
      refine .mk (word _ (by simp)) (.element .primitive) ?_ (by simp) (by simp) (by simp) ?_
      · intro d hd
        cases hd
        exact .range .int .int rfl
      · intro harray
        cases harray
    · intro _
      exact Grammar.uniform_singleton _
  · intro v hv
    rcases List.mem_cons.mp hv with rfl | hv
    · exact ⟨word _ (by simp), .expression net⟩
    · cases List.mem_singleton.mp hv
      exact ⟨word _ (by simp), .cascade cascade⟩
  · intro t ht
    cases List.mem_singleton.mp ht
    have compared : Operator.ge ∈ Operator.comparisons := by decide
    exact ⟨word _ (by simp), .comparison compared (reference (by simp)) (.literal .integer)⟩

theorem Source.schema_written_invoice :
    Schema.invoice.WellFormed Schema.invoiceSpelling ∧
    Schema.invoice.written Schema.invoiceSpelling =
      "schema do import :rate, from: Shared::Tax input do array :lines, index: :i do " ++
      "element :float, :price, domain: 0 ... 9 end end " ++
      "let :net, fn(:sum, input.lines.price, by: index(:i)) value :tax do " ++
      "on ref(:large), rate(of: [ref(:net), \"say \\\"no\\\"\"]) base 2.5 end " ++
      "trait :large, (ref(:net) >= -100) end" ∧
    ∃ s',
      (Source.mk Source.anonymous (Schema.invoice.written Schema.invoiceSpelling)).schema = .ok s' ∧
      s'.unplaced = Schema.invoice.unplaced := by
  refine ⟨Schema.invoice_wellFormed, by decide +kernel, ?_⟩
  exact (Source.schema_written Schema.invoice_wellFormed Source.anonymous).1 (by decide +kernel)

end SchemaLang
