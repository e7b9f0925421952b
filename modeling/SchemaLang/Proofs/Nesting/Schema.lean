import SchemaLang.Proofs.Nesting.Expr

namespace SchemaLang.Reader

open Reading

variable {limit depth : Nat}

section Inputs

variable {nested : Option String → Tail (List Input)}
  (h : ∀ array ts, Follows limit depth (.enter .input (.inputs array none))
    (reading (nested array)) ts)

include h

theorem inputBlock_follows (type : InputType) (name : String) (ts : List Token) :
    Follows limit depth (.inputBlock type name) (reading (inputBlock nested type name)) ts := by
  rw [reading_inputBlock]
  refine .look ?_
  split
  · exact .refuse rfl
  · refine .ifNext (fun t rest _ => ?_) (.pure _)
    apply (h _ rest).bind
    intro children rest _
    exact (Follows.read (expect_shallow _ rest)).map

theorem input_follows (inArray : Bool) (ts : List Token) :
    Follows limit depth (.input inArray) (reading (input nested inArray)) ts := by
  rw [reading_input]
  refine .look ?_
  apply (Follows.read (inputHead_shallow inArray ts)).bind
  intro head rest _
  apply (Follows.read (inputOptions_shallow _ _ rest)).bind
  intro options rest _
  exact (inputBlock_follows h _ _ rest).map

theorem inputList_follows (array : Option String) (style : Option AccessMode) (ts : List Token) :
    Follows limit depth (.inputs array style) (reading (inputList (input nested) array style))
      ts := by
  induction hn : ts.length using Nat.strongRecOn generalizing style ts with
  | ind n ih =>
    rw [reading_inputList]
    refine .look ?_
    cases ts with
    | nil => exact .pure _
    | cons t rest =>
      dsimp only [List.head?_cons]
      split
      · exact .pure _
      · apply (Follows.read (styleNext_shallow array style (t :: rest))).bind
        intro style' same hstyle
        have unread : same = t :: rest := styleNext_rest hstyle
        rw [unread]
        apply (input_follows h array.isSome (t :: rest)).bind
        intro first more hread
        have shorter := reading_length hread
        exact (Follows.call (ih more.length (by omega) style' more rfl)).map

end Inputs

/-- With the rest of the limit left, declarations of inputs follow their plan. -/
theorem inputs_follow {room : Nat} (hroom : depth + room = limit) (array : Option String)
    (ts : List Token) :
    Follows limit depth (.inputs array none) (reading (inputs room array)) ts := by
  induction room generalizing depth array ts with
  | zero =>
    have all : limit ≤ depth := Nat.le_of_eq hroom.symm
    rw [inputs_eq]
    exact inputList_follows (fun _ _ => .full all) array none ts
  | succ room ih =>
    have left : depth < limit := by omega
    rw [inputs_eq]
    exact inputList_follows (fun array ts => .enter left (ih (by omega) array ts)) array none ts

section Declarations

variable {imported : List String} {expr : Reader Expr}
  (h : ∀ ts, Follows limit depth (.expression imported) (reading expr) ts)

include h

theorem moreExpressions_follow (ts : List Token) :
    Follows limit depth (.moreExpressions imported) (reading (moreExpressions expr)) ts := by
  induction hn : ts.length using Nat.strongRecOn generalizing ts with
  | ind n ih =>
    rw [reading_moreExpressions]
    refine .ifNext (fun t rest hts => ?_) (.pure _)
    apply (h rest).bind
    intro e more hread
    have shorter := reading_length hread
    exact (Follows.call (ih more.length (by simp [hts] at hn; omega) more rfl)).map

theorem onCase_follows (ts : List Token) :
    Follows limit depth (.onCase imported) (reading (onCase expr)) ts := by
  rw [reading_onCase]
  apply (h ts).bind
  intro first rest _
  apply (Follows.call (moreExpressions_follow h rest)).bind
  intro more rest _
  cases more.getLast? with
  | none => exact .refuse rfl
  | some result => exact .pure _

theorem caseList_follows (ts : List Token) :
    Follows limit depth (.caseList imported) (reading (caseList expr)) ts := by
  induction hn : ts.length using Nat.strongRecOn generalizing ts with
  | ind n ih =>
    rw [reading_caseList]
    refine .take rfl fun t rest hts => ?_
    unfold Plan.caseStep
    split <;> simp only [caseStep, *]
    · refine .ok ((onCase_follows h rest).bind fun c more hread => ?_)
      have shorter := reading_length hread
      exact (Follows.call (ih more.length (by simp [hts] at hn; omega) more rfl)).map
    · refine .ok ((h rest).bind fun result more hread => ?_)
      have shorter := reading_length hread
      exact (Follows.call (ih more.length (by simp [hts] at hn; omega) more rfl)).map
    · exact .ok (.pure _)
    · exact .error rfl

theorem value_follows (inline : Bool) (location : Location) (ts : List Token) :
    Follows limit depth (.value imported inline location) (reading (value expr inline location))
      ts := by
  rw [reading_value]
  apply (Follows.read (symbol_shallow ts)).bind
  intro name rest _
  have body : Follows limit depth (.take (.expectedBody name) (Plan.valueStep imported name))
      (reading (valueBody expr name)) rest := by
    rw [reading_valueBody]
    refine .take rfl fun t rest _ => ?_
    unfold Plan.valueStep
    split <;> simp only [valueStep, *]
    · exact .ok (h rest)
    · exact .ok (Follows.call (caseList_follows h rest)).map
    · refine .error ?_
      split <;> rfl
  exact body.map

theorem trait_follows (location : Location) (ts : List Token) :
    Follows limit depth (.trait imported location) (reading (trait expr location)) ts := by
  rw [reading_trait]
  apply (Follows.read (symbol_shallow ts)).bind
  intro name rest _
  apply (Follows.read (expect_shallow _ rest)).bind
  intro _ rest _
  exact (h rest).map

/-- A token starts a declaration that follows its plan, or is refused. -/
theorem declaration_follows (t : Token) (rest : List Token) :
    StepFollows limit depth rest (Plan.declaration imported t)
      ((declaration expr t).map reading) := by
  unfold Plan.declaration
  split <;> simp only [declaration, *]
  · exact .ok (value_follows h false t.location rest)
  · exact .ok (value_follows h true t.location rest)
  · exact .ok (trait_follows h t.location rest)
  · exact .error rfl
  · exact .error rfl
  · exact .error rfl

theorem declarations_follow (ts : List Token) :
    Follows limit depth (.declarations imported) (reading (declarations expr)) ts := by
  induction hn : ts.length using Nat.strongRecOn generalizing ts with
  | ind n ih =>
    rw [reading_declarations]
    refine .take rfl fun t rest hts => ?_
    unfold Plan.declarationStep declarationStep
    split
    · exact .ok (.pure _)
    · have step := declaration_follows h t rest
      generalize Plan.declaration imported t = plan at step
      cases hbody : declaration expr t with
      | error cause =>
        rw [hbody] at step
        cases step with
        | error hcause => exact .error hcause
      | ok body =>
        rw [hbody] at step
        cases step with
        | ok next =>
          refine .ok (next.bind fun d more hread => ?_)
          have shorter := reading_length hread
          exact (Follows.call (ih more.length (by simp [hts] at hn; omega) more rfl)).map

end Declarations

theorem schema_follows (limit : Nat) (ts : List Token) :
    Follows limit 0 .schema (schemaReading limit) ts := by
  apply (Follows.read (expect_shallow _ ts)).bind
  intro _ rest _
  apply (Follows.read (expect_shallow _ rest)).bind
  intro _ rest _
  apply (Follows.read (imports_shallow rest)).bind
  intro imports rest _
  have section_follows : Follows limit 0 .inputSection (reading (inputSection limit)) rest := by
    rw [reading_inputSection]
    apply (Follows.read (expect_shallow _ rest)).bind
    intro _ rest _
    apply (Follows.read (expect_shallow _ rest)).bind
    intro _ rest _
    apply (Follows.call (inputs_follow (Nat.zero_add limit) none rest)).bind
    intro inputs rest _
    exact (Follows.read (expect_shallow _ rest)).map
  apply section_follows.bind
  intro inputs rest _
  have levels := levels_follow (imports.flatMap Import.names) (Nat.zero_add limit)
  apply (Follows.call (declarations_follow (expression_follows levels) rest)).bind
  intro decls rest _
  refine .look ?_
  split
  · exact .pure _
  · exact .refuse rfl

/-- With fewer levels, a schema is read as with more while it keeps to them, and refused as nested
too deeply when it does not. -/
theorem schemaReading_of_lt {limit limit' peak : Nat} (hlt : limit < limit') {ts : List Token}
    (h : Runs limit' 0 .schema ts (schemaReading limit' ts) peak) :
    (peak ≤ limit → schemaReading limit ts = schemaReading limit' ts) ∧
    (limit < peak →
      ∃ token nesting, schemaReading limit ts = .error ⟨token, .tooDeep nesting⟩) := by
  obtain ⟨own, hown⟩ := schema_follows limit ts
  constructor
  · intro hpeak
    exact (hown.unique (h.of_peak_le hlt hpeak)).1
  · intro hpeak
    obtain ⟨token, nesting, hrun⟩ := h.of_lt_peak hlt (Nat.zero_le limit) hpeak
    exact ⟨token, nesting, (hown.unique hrun).1⟩

/-- With fewer levels a schema is read as with more, or it is refused as nested too deeply. -/
theorem schema_bounded {limit limit' : Nat} (hle : limit ≤ limit') (ts : List Token) :
    schema limit ts = schema limit' ts ∨
      ∃ token nesting, schema limit ts = .error ⟨token, .tooDeep nesting⟩ := by
  rcases Nat.eq_or_lt_of_le hle with rfl | hlt
  · exact .inl rfl
  obtain ⟨peak, hrun⟩ := schema_follows limit' ts
  obtain ⟨same, deep⟩ := schemaReading_of_lt hlt hrun
  rw [schema_eq_schemaReading, schema_eq_schemaReading]
  by_cases hpeak : peak ≤ limit
  · exact .inl (congrArg _ (same hpeak))
  · obtain ⟨token, nesting, h⟩ := deep (Nat.not_le.mp hpeak)
    exact .inr ⟨token, nesting, by rw [h]; rfl⟩

end SchemaLang.Reader
