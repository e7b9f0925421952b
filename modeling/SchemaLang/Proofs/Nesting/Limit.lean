import SchemaLang.Proofs.Nesting.Schema
import SchemaLang.Proofs.Predictive.Basic

namespace SchemaLang

/-- Whether a text starts neither of the messages for what nests too deeply. -/
def StartsNoDepth (text : String) : Prop :=
  ∀ nesting : Nesting, ¬text.toList <+: (nesting.name ++ " is nested too deeply").toList

theorem startsNoDepth_ofList {text : List Char}
    (h : ¬text <+: "Expression is nested too deeply".toList ∧
      ¬text <+: "Input declaration is nested too deeply".toList) :
    StartsNoDepth (String.ofList text) := by
  intro nesting
  rw [String.toList_ofList]
  cases nesting with
  | expression => exact h.1
  | input => exact h.2

theorem StartsNoDepth.append {s : String} (h : StartsNoDepth s) (t : String) :
    StartsNoDepth (s ++ t) := by
  intro nesting hstart
  rw [String.toList_append] at hstart
  exact h nesting ((List.prefix_append _ _).trans hstart)

theorem Cause.message_startsNoDepth {cause : Cause} (token : Token) (h : cause.isDeep = false) :
    StartsNoDepth (cause.message token) := by
  unfold Cause.message
  -- the first words of a message tell it apart, whatever texts it shows
  cases cause with
  | tooDeep nesting => cases h
  | unclosedSchema | secondInputBlock | lateImport | elementOutsideArray | indexOutsideArray
  | indexOption | mixedRange => exact startsNoDepth_ofList (by decide)
  | missing kind =>
    have opening : StartsNoDepth "Missing '" := startsNoDepth_ofList (by decide)
    dsimp only
    split
    · exact ((opening.append _).append _).append _
    · exact ((opening.append _).append _).append _
    · exact ((opening.append _).append _).append _
  | missingComma | expectedBody | keysOnly | missingArrow =>
    exact (((startsNoDepth_ofList (by decide)).append _).append _).append _
  | integerRange | unknownOption | duplicateKey | mixedArray | notContainer | afterSchema
  | foldedMinus | expectedInputType =>
    exact ((startsNoDepth_ofList (by decide)).append _).append _
  | _ => exact (startsNoDepth_ofList (by decide)).append _

/-- A refusal says that something nests too deeply just when that is its cause. -/
theorem Refusal.message_eq_iff_isDeep (refusal : Refusal) :
    (refusal.message = "Expression is nested too deeply" ∨
      refusal.message = "Input declaration is nested too deeply") ↔ refusal.cause.isDeep := by
  obtain ⟨token, cause⟩ := refusal
  change (cause.message token = _ ∨ cause.message token = _) ↔ _
  constructor
  · intro h
    cases hdeep : cause.isDeep with
    | true => rfl
    | false =>
      have start := Cause.message_startsNoDepth token hdeep
      rcases h with h | h
      · exact absurd (by rw [h]; exact List.prefix_refl _) (start .expression)
      · exact absurd (by rw [h]; exact List.prefix_refl _) (start .input)
  · intro h
    cases cause with
    | tooDeep nesting =>
      cases nesting with
      | expression => exact .inl rfl
      | input => exact .inr rfl
    | _ => cases h

namespace Schema

open Reader

/-- The most levels that are open at once while a list of tokens is read as a schema. -/
def Peak (limit : Nat) (tokens : List Token) (peak : Nat) : Prop :=
  ∃ out, Runs limit 0 .schema (Tokens.ofList tokens).body out peak ∧
    ofTokensWithin limit tokens =
      (out.map Prod.fst).mapError (·.refusal (Tokens.ofList tokens).stop)

/-- Whether a list of tokens is refused with a message for what nests too deeply. -/
def RefusedAsDeep (limit : Nat) (tokens : List Token) : Prop :=
  ∃ refusal, ofTokensWithin limit tokens = .error refusal ∧
    (refusal.message = "Expression is nested too deeply" ∨
      refusal.message = "Input declaration is nested too deeply")

variable {limit limit' peak : Nat} {tokens : List Token}

theorem ofTokensWithin_eq_reading (limit : Nat) (tokens : List Token) :
    ofTokensWithin limit tokens = ((schemaReading limit (Tokens.ofList tokens).body).map
      Prod.fst).mapError (·.refusal (Tokens.ofList tokens).stop) := by
  rw [ofTokensWithin, schema_eq_schemaReading]

theorem exists_peak (limit : Nat) (tokens : List Token) : ∃ peak, Peak limit tokens peak := by
  obtain ⟨peak, hrun⟩ := schema_follows limit (Tokens.ofList tokens).body
  exact ⟨peak, _, hrun, ofTokensWithin_eq_reading limit tokens⟩

theorem Peak.runs (h : Peak limit tokens peak) :
    Runs limit 0 .schema (Tokens.ofList tokens).body
      (schemaReading limit (Tokens.ofList tokens).body) peak := by
  obtain ⟨out, hrun, _⟩ := h
  obtain ⟨own, hown⟩ := schema_follows limit (Tokens.ofList tokens).body
  rwa [(hown.unique hrun).1]

theorem Peak.unique {peak' : Nat} (h : Peak limit tokens peak) (h' : Peak limit tokens peak') :
    peak = peak' :=
  (h.runs.unique h'.runs).2

theorem refusedAsDeep_iff :
    RefusedAsDeep limit tokens ↔
      ∃ fault, schemaReading limit (Tokens.ofList tokens).body = .error fault ∧
        fault.cause.isDeep := by
  rw [RefusedAsDeep, ofTokensWithin_eq_reading]
  constructor
  · rintro ⟨refusal, hread, hmessage⟩
    cases hr : schemaReading limit (Tokens.ofList tokens).body with
    | ok q =>
      rw [hr] at hread
      cases hread
    | error fault =>
      rw [hr] at hread
      obtain rfl := Except.error.inj hread
      exact ⟨fault, rfl, (Refusal.message_eq_iff_isDeep _).mp hmessage⟩
  · rintro ⟨fault, hread, hdeep⟩
    rw [hread]
    exact ⟨_, rfl, (Refusal.message_eq_iff_isDeep (fault.refusal _)).mpr hdeep⟩

/-- With fewer levels than are open at once, tokens are refused as nested too deeply. -/
theorem Peak.refusedAsDeep (h : Peak limit' tokens peak) (hlt : limit < limit')
    (hpeak : limit < peak) : RefusedAsDeep limit tokens := by
  obtain ⟨token, nesting, hread⟩ := (schemaReading_of_lt hlt h.runs).2 hpeak
  exact refusedAsDeep_iff.mpr ⟨_, hread, rfl⟩

/-- With as many levels as are open at once, tokens are read as with more. -/
theorem Peak.ofTokensWithin_eq (h : Peak limit' tokens peak) (hlt : limit < limit')
    (hpeak : peak ≤ limit) : ofTokensWithin limit tokens = ofTokensWithin limit' tokens := by
  rw [ofTokensWithin_eq_reading, ofTokensWithin_eq_reading,
    (schemaReading_of_lt hlt h.runs).1 hpeak]

/-- Tokens that are refused as nested too deeply have all levels open. -/
theorem Peak.eq_of_refusedAsDeep (h : Peak limit tokens peak) (hdeep : RefusedAsDeep limit tokens) :
    peak = limit := by
  obtain ⟨fault, hread, hcause⟩ := refusedAsDeep_iff.mp hdeep
  have hrun := h.runs
  rw [hread] at hrun
  exact hrun.peak_of_isDeep (Nat.zero_le limit) hcause

theorem Peak.refusedAsDeep_iff (h : Peak limit' tokens peak) (hlt : limit < limit') :
    RefusedAsDeep limit tokens ↔ limit < peak := by
  refine ⟨fun hdeep => Nat.lt_of_not_le fun hle => ?_, h.refusedAsDeep hlt⟩
  -- the same answer with more levels would have to open all of those
  have above : RefusedAsDeep limit' tokens := by
    rwa [RefusedAsDeep, h.ofTokensWithin_eq hlt hle] at hdeep
  have all := h.eq_of_refusedAsDeep above
  omega

/-- With fewer levels a list of tokens is answered as with more, or refused as nested too deeply.
The latter happens just when more levels are open at once during the one run that reads it with more
of them. Levels that are opened one after the other add nothing: a run keeps to a number of levels
as soon as each one that it opens does, and so any number of declarations is read, and any number of
arguments wherever they stand. -/
theorem ofTokensWithin_fewer {limit limit' : Nat} (hlt : limit < limit') (tokens : List Token) :
    (ofTokensWithin limit tokens = ofTokensWithin limit' tokens ∨ RefusedAsDeep limit tokens) ∧
    (∃ peak, Peak limit' tokens peak ∧ (∀ peak', Peak limit' tokens peak' → peak' = peak) ∧
      (RefusedAsDeep limit tokens ↔ limit < peak)) ∧
    ((∀ (β : Type) (proc : Proc β) us,
      Enters limit' 0 .schema (Tokens.ofList tokens).body proc us →
      ∀ out peak, Runs limit' 1 proc.body us out peak → peak ≤ limit) →
        ¬RefusedAsDeep limit tokens) ∧
    ∀ (α : Type) (plan : Plan α) depth ts out peak, depth ≤ limit →
      Runs limit' depth plan ts out peak →
      (∀ (β : Type) (proc : Proc β) us, Enters limit' depth plan ts proc us →
        ∀ out' peak', Runs limit' (depth + 1) proc.body us out' peak' → peak' ≤ limit) →
      peak ≤ limit := by
  obtain ⟨peak, hpeak⟩ := exists_peak limit' tokens
  have deep := hpeak.refusedAsDeep_iff hlt
  refine ⟨?_, ⟨peak, hpeak, fun _ h => h.unique hpeak, deep⟩, fun hlevels => ?_, ?_⟩
  · by_cases hle : peak ≤ limit
    · exact .inl (hpeak.ofTokensWithin_eq hlt hle)
    · exact .inr (hpeak.refusedAsDeep hlt (Nat.not_le.mp hle))
  · rw [deep, Nat.not_lt]
    exact (hpeak.runs.peak_le_iff (Nat.zero_le limit)).mpr hlevels
  · intro α plan depth ts out peak hdepth hrun hlevels
    exact (hrun.peak_le_iff hdepth).mpr hlevels

/-- A schema with a minus before a name, which takes two levels. -/
def negation : List Token :=
  [sample (.keyword .schema) "schema", sample (.keyword .doWord) "do",
    sample (.keyword .input) "input", sample (.keyword .doWord) "do",
    sample (.keyword .endWord) "end", sample (.keyword .value) "value", sample .symbol "a",
    sample (.mark .comma) ",", sample (.operator .subtract) "-", sample .identifier "x",
    sample (.keyword .endWord) "end"]

theorem ofTokensWithin_fewer_negation :
    1 < 2 ∧ RefusedAsDeep 1 negation ∧ ∃ peak, Peak 2 negation peak ∧ 1 < peak := by
  have judged : (match ofTokensWithin 1 negation with
      | .ok _ => none
      | .error refusal => some refusal.message) = some "Expression is nested too deeply" := by
    decide +kernel
  have refused : RefusedAsDeep 1 negation := by
    cases h : ofTokensWithin 1 negation with
    | ok s =>
      rw [h] at judged
      cases judged
    | error refusal =>
      rw [h] at judged
      exact ⟨refusal, h, .inl (Option.some.inj judged)⟩
  obtain ⟨_, ⟨peak, hpeak, _, deep⟩, _⟩ := ofTokensWithin_fewer (Nat.lt_succ_self 1) negation
  exact ⟨Nat.lt_succ_self 1, refused, peak, hpeak, deep.mp refused⟩

end Schema

end SchemaLang
