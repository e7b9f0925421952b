import SchemaLang.Proofs.Agreement.Basic
import SchemaLang.Proofs.Wording.Settled
import SchemaLang.Token.Lexeme

namespace SchemaLang

open Rewording Text

theorem toDigits_not_mem (n : Nat) : '\n' ∉ Nat.toDigits 16 n := by
  induction n using Nat.strongRecOn with
  | ind n ih =>
    by_cases hlt : n < 16
    · rw [Nat.toDigits_of_lt_base hlt]
      simp
    · rw [Nat.toDigits_of_base_le (by decide) (Nat.le_of_not_lt hlt)]
      simp [ih (n / 16) (by omega)]

theorem codePointEscape_not_mem (c : Char) : '\n' ∉ codePointEscape c := by
  simp [codePointEscape, toDigits_not_mem]

/-- A line feed is written with a backslash, and nothing else is written with a line feed. -/
theorem escapeChar_not_mem (single marks : Bool) (c : Char) : '\n' ∉ escapeChar single marks c := by
  by_cases hc : c = '\n'
  · simp [hc, escapeChar]
  · have own : '\n' ∉ [c] := by simpa using fun h => hc h.symm
    unfold escapeChar
    split
    · decide
    · decide
    · decide
    · decide
    · decide
    · decide
    · split <;> decide
    · split
      · exact codePointEscape_not_mem c
      · split
        · exact own
        · exact codePointEscape_not_mem c

theorem escaped_oneLine (text : String) : OneLine (escaped text) := by
  unfold escaped
  split
  · exact oneLine_ofList (by decide)
  · apply oneLine_ofList
    simp [escapeChar_not_mem]

theorem quoted_closes (text : String) : Closes (quoted text) := by
  apply closes_ofList
  constructor
  · simp [escapeChar_not_mem]
  · rw [List.getLast?_concat]
    decide

/-- A token is described on one line, up to a quote or a word of our own. -/
theorem describe_closes (t : Token) : Closes t.describe := by
  have quote : Closes "\"" := closes_ofList (by decide)
  have colonQuote : Closes ":\"" := closes_ofList (by decide)
  unfold Token.describe
  split
  · exact closes_ofList (by decide)
  · exact quote.append (oneLine_append.mpr ⟨oneLine_ofList (by decide), escaped_oneLine _⟩)
  · exact colonQuote.append (oneLine_append.mpr ⟨oneLine_ofList (by decide), escaped_oneLine _⟩)
  · exact (quoted_closes t.raw).append (oneLine_ofList (by decide))
  · exact quoted_closes t.raw

theorem Kind.spelling_oneLine (kind : Kind) : OneLine (kind.spelling?.getD "token") := by
  cases kind with
  | keyword word => cases word <;> exact oneLine_ofList (by decide)
  | type word =>
    cases word with
    | primitive type => cases type <;> exact oneLine_ofList (by decide)
    | _ => exact oneLine_ofList (by decide)
  | operator op => cases op <;> exact oneLine_ofList (by decide)
  | mark m => cases m <;> exact oneLine_ofList (by decide)
  | _ => exact oneLine_ofList (by decide)

/-- A text that may stand in a message as it is. -/
structure Unspaced (text : String) : Prop where
  nonempty : text ≠ ""
  solid : ∀ c ∈ text.toList, isWhiteSpace c = false

theorem Unspaced.oneLine {text : String} (h : Unspaced text) : OneLine text := by
  intro hmem
  cases h.solid _ hmem

/-- A message of which all texts that it shows as they stand are unspaced. -/
theorem Fault.Shows.settled {fault : Fault} (h : fault.Shows Unspaced) (stop : Token) :
    Settled (fault.refusal stop).message := by
  obtain ⟨token, cause⟩ := fault
  change Settled (cause.message (token.getD stop))
  have got := describe_closes (token.getD stop)
  -- such a text is the name in the cause, or that of the token, which then is none for the end
  have shown {bare : String → Prop} (hshown : ∃ t, token = some t ∧ bare t.raw) :
      bare (token.getD stop).raw := by
    obtain ⟨t, rfl, ht⟩ := hshown
    exact ht
  unfold Cause.message
  cases cause with
  | missing kind =>
    have opening : Opens ("Missing '" ++ kind.spelling?.getD "token") :=
      (opens_ofList (by decide)).append kind.spelling_oneLine
    dsimp only
    split
    · exact (opening.append (oneLine_ofList (by decide))).ends got
    · exact (opening.append (oneLine_ofList (by decide))).ends got
    · exact (opening.append (oneLine_ofList (by decide))).ends got
  | missingColon | expectedSymbol | expectedDeclaration | missingSource | expectedModule
  | expectedCase | missingResult | expectedOption | expectedDots | expectedBound
  | expectedDomainLiteral | expectedExpression | missingDot | expectedField | positionalAfterKey
  | expectedHashKey => exact (opens_ofList (by decide)).ends got
  | unclosedSchema | secondInputBlock | lateImport | elementOutsideArray | indexOutsideArray
  | indexOption | mixedRange =>
    exact .of_closes (opens_ofList (by decide)) (closes_ofList (by decide))
  | tooDeep nesting =>
    cases nesting with
    | expression => exact (opens_ofList (by decide)).ends (closes_ofList (by decide))
    | input => exact (opens_ofList (by decide)).ends (closes_ofList (by decide))
  | expectedInputType =>
    exact ((opens_ofList (by decide)).append (oneLine_ofList (by decide))).ends got
  | afterSchema | foldedMinus =>
    exact ((opens_ofList (by decide)).append got.oneLine).ends (closes_ofList (by decide))
  | missingArrow key =>
    have named := (describe_closes key).oneLine
    exact (((opens_ofList (by decide)).append named).append (oneLine_ofList (by decide))).ends got
  | missingComma name | expectedBody name | keysOnly name =>
    have named : OneLine name := Unspaced.oneLine h
    exact (((opens_ofList (by decide)).append named).append (oneLine_ofList (by decide))).ends got
  | mixedArray name | notContainer name =>
    have named : OneLine name := Unspaced.oneLine h
    exact ((opens_ofList (by decide)).append named).ends (closes_ofList (by decide))
  | unknownOption | duplicateKey =>
    have named := (shown h).oneLine
    exact ((opens_ofList (by decide)).append named).ends (closes_ofList (by decide))
  | integerRange =>
    obtain ⟨t, htoken, ht, _⟩ := h
    have named := (shown ⟨t, htoken, ht⟩).oneLine
    exact ((opens_ofList (by decide)).append named).ends (closes_ofList (by decide))
  | unknownElementType | unknownConstant =>
    exact .of_bare (by decide) (shown h).nonempty (shown h).solid
  | invalidFloat =>
    obtain ⟨t, htoken, ht, _⟩ := h
    have bare := shown ⟨t, htoken, ht⟩
    exact .of_bare (by decide) bare.nonempty bare.solid

theorem Flaw.settled {flaw : Flaw} (h : ∀ c, flaw = .strayCharacter c → isWhiteSpace c = false) :
    Settled flaw.message := by
  unfold Flaw.message
  cases flaw with
  | unterminatedString | strayEquals | strayBang =>
    exact .of_closes (opens_ofList (by decide)) (closes_ofList (by decide))
  | strayCharacter c =>
    have own : OneLine (String.singleton c) :=
      Unspaced.oneLine ⟨by simp, by simpa using h c rfl⟩
    exact ((opens_ofList (by decide)).append own).ends (closes_ofList (by decide))

end SchemaLang
