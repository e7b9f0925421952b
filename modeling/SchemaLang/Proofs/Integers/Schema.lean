import SchemaLang.Proofs.Integers.Expr
import SchemaLang.Proofs.Integers.Input
import SchemaLang.Proofs.Reading.Schema

namespace SchemaLang.Reader

open Reading

variable {gap : Gap} {front : List Token}

theorem importNames_fate : Fate gap (reading importNames) front := by
  induction hn : front.length using Nat.strongRecOn generalizing front with
  | ind n ih =>
    rw [reading_importNames]
    refine .ifNext nofun (fun t rest hfront => ?_) (.pure [])
    refine .lookKind ?_
    split
    · exact .pure []
    · apply symbol_fate.bind
      intro name mid hread
      obtain ⟨_, _, shorter⟩ := length_lt_of_fill hread
      exact (ih mid.length (by simp [hfront] at hn shorter; omega) rfl).map

theorem fromLabel_fate : Fate gap (reading fromLabel) front := by
  rw [reading_fromLabel]
  refine .take .missingSource nofun (fun u hu => ?_) fun t rest _ => ?_
  · exact if_neg fun h => absurd (hu.symm.trans h.1) (by decide)
  · exact .ite (.ok (.pure ())) .error

theorem modulePath_fate : Fate gap (reading modulePath) front := by
  rw [reading_modulePath]
  refine .take .expectedModule nofun (fun u hu => ?_) fun t rest _ => ?_
  · exact if_neg (by rw [hu]; decide)
  · exact .ite (.ok (.pure t.raw)) .error

theorem imports_fate : Fate gap (reading imports) front := by
  induction hn : front.length using Nat.strongRecOn generalizing front with
  | ind n ih =>
    rw [reading_imports]
    refine .ifNext nofun (fun t rest hfront => ?_) (.pure [])
    apply symbol_fate.bind
    intro name first hname
    apply importNames_fate.bind
    intro names second hnames
    apply fromLabel_fate.bind
    intro _ third hfrom
    apply modulePath_fate.bind
    intro source more hsource
    have shorter : more.length < front.length := by
      obtain ⟨_, _, _⟩ := length_lt_of_fill hname
      obtain ⟨_, _, _⟩ := length_lt_of_fill hnames
      obtain ⟨_, _, _⟩ := length_lt_of_fill hfrom
      obtain ⟨_, _, _⟩ := length_lt_of_fill hsource
      simp [hfront] at *
      omega
    exact (ih more.length (hn ▸ shorter) rfl).map

theorem inputSection_fate (limit : Nat) : Fate gap (reading (inputSection limit)) front := by
  rw [reading_inputSection]
  apply (expect_fate (by decide)).bind
  intro _ mid _
  apply (expect_fate (by decide)).bind
  intro _ mid _
  apply (inputs_fate limit none mid).bind
  intro inputs mid _
  exact close_fate (by decide) _

section Declarations

variable {expr : Reader Expr} (h : ∀ front, Fate gap (reading expr) front)

include h

theorem moreExpressions_fate : Fate gap (reading (moreExpressions expr)) front := by
  induction hn : front.length using Nat.strongRecOn generalizing front with
  | ind n ih =>
    rw [reading_moreExpressions]
    refine .ifNext nofun (fun t rest hfront => ?_) (.pure [])
    apply (h rest).bind
    intro e mid hread
    obtain ⟨_, _, shorter⟩ := length_lt_of_fill hread
    exact (ih mid.length (by simp [hfront] at hn shorter; omega) rfl).map

theorem onCase_fate : Fate gap (reading (onCase expr)) front := by
  rw [reading_onCase]
  apply (h front).bind
  intro first mid _
  apply (moreExpressions_fate h).bind
  intro more mid _
  cases more.getLast? with
  | none => exact .refuse nofun
  | some result => exact .pure _

theorem caseList_fate : Fate gap (reading (caseList expr)) front := by
  induction hn : front.length using Nat.strongRecOn generalizing front with
  | ind n ih =>
    rw [reading_caseList]
    refine .take .expectedCase nofun (fun u hu => ?_) fun t rest hfront => ?_
    · simp only [caseStep, hu]
    unfold caseStep
    split
    · refine .ok ((onCase_fate h).bind fun c mid hread => ?_)
      obtain ⟨_, _, shorter⟩ := length_lt_of_fill hread
      exact (ih mid.length (by simp [hfront] at hn shorter; omega) rfl).map
    · refine .ok ((h rest).bind fun result mid hread => ?_)
      obtain ⟨_, _, shorter⟩ := length_lt_of_fill hread
      exact (ih mid.length (by simp [hfront] at hn shorter; omega) rfl).map
    · exact .ok (.pure [])
    · exact .error

theorem valueBody_fate (name : String) : Fate gap (reading (valueBody expr name)) front := by
  rw [reading_valueBody]
  refine .take (.missingComma name) nofun (fun u hu => ?_) fun t rest _ => ?_
  · simp only [valueStep, hu]
    rfl
  · unfold valueStep
    split
    · exact .ok (h rest)
    · exact .ok (caseList_fate h).map
    · exact .error

theorem value_fate (inline : Bool) (location : Location) :
    Fate gap (reading (value expr inline location)) front := by
  rw [reading_value]
  apply symbol_fate.bind
  intro name mid _
  exact (valueBody_fate h name).map

theorem trait_fate (location : Location) : Fate gap (reading (trait expr location)) front := by
  rw [reading_trait]
  apply symbol_fate.bind
  intro name mid _
  apply (expect_fate (by decide)).bind
  intro _ mid _
  exact (h mid).map

theorem declaration_fate {t : Token} {body : Reader Declaration}
    (hbody : declaration expr t = .ok body) : Fate gap (reading body) front := by
  unfold declaration at hbody
  split at hbody
  · cases hbody
    exact value_fate h false t.location
  · cases hbody
    exact value_fate h true t.location
  · cases hbody
    exact trait_fate h t.location
  · cases hbody
  · cases hbody
  · cases hbody

theorem declarations_fate : Fate gap (reading (declarations expr)) front := by
  induction hn : front.length using Nat.strongRecOn generalizing front with
  | ind n ih =>
    rw [reading_declarations]
    refine .take .expectedDeclaration nofun (fun u hu => ?_) fun t rest hfront => ?_
    · simp [declarationStep, declaration, hu, Except.map]
    · refine .ite (.ok (.pure [])) ?_
      cases hbody : declaration expr t with
      | error cause => exact .error
      | ok body =>
        refine .ok ((declaration_fate h hbody).bind fun d mid hread => ?_)
        obtain ⟨_, _, shorter⟩ := length_lt_of_fill hread
        exact (ih mid.length (by simp [hfront] at hn shorter; omega) rfl).map

end Declarations

/-- A schema cannot stop before an integer, since nothing follows it. -/
theorem schemaReading_fate (limit : Nat) : Fate gap (schemaReading limit) front := by
  rw [schemaReading]
  apply (expect_fate (by decide)).bind
  intro _ mid _
  apply (expect_fate (by decide)).bind
  intro _ mid _
  apply imports_fate.bind
  intro imports mid _
  apply (inputSection_fate limit).bind
  intro inputs mid _
  apply (declarations_fate ((levels_fate _ limit).climb 0)).bind
  intro decls mid _
  have refused : Fate gap (refuse .afterSchema : Reading Schema) mid := .refuse (by simp)
  refine refused.congr fun u _ => ?_
  have left : (gap.fill mid u).isEmpty = false := by simp [Gap.fill]
  rw [look_bind, left]
  rfl

end SchemaLang.Reader
