import SchemaLang.Proofs.Agreement.Expr
import SchemaLang.Proofs.Agreement.Input
import SchemaLang.Proofs.Reading.Schema

namespace SchemaLang.Reader

open Reading

variable {T : Pairing}

theorem importNames_steady : Steady T Eq (reading importNames) := by
  intro ts us hts
  induction hn : ts.length using Nat.strongRecOn generalizing ts us with
  | ind n ih =>
    rw [reading_importNames]
    refine .ifNext hts (fun _ _ ts' us' hcons _ hlists _ => ?_) (.pure rfl hts)
    refine .look (firstKind_of_lists hlists) ?_
    split
    · exact .pure rfl hlists
    · apply (symbol_same ts' us' hlists).bind_same
      intro name more more' hread hmore
      have shorter := reading_length hread
      exact (ih more.length (by simp [hcons] at hn; omega) more more' hmore rfl).map_same

theorem isFrom_of_alike {t u : Token} (h : t.Alike u) : isFrom t ↔ isFrom u := by
  rw [isFrom, isFrom, h.kind, h.raw]

theorem fromLabel_steady : Steady T Eq (reading fromLabel) := by
  intro ts us hts
  rw [reading_fromLabel]
  refine .take hts trivial fun t u ts us _ ht hts => ?_
  simp only [← isFrom_of_alike (T.alike ht)]
  split
  · exact .ok (.pure rfl hts)
  · exact .error trivial

theorem modulePath_steady : Steady T Eq (reading modulePath) := by
  intro ts us hts
  rw [reading_modulePath]
  refine .take hts trivial fun t u ts us _ ht hts => ?_
  rw [← (T.alike ht).kind, ← (T.alike ht).raw]
  split
  · exact .ok (.pure rfl hts)
  · exact .error trivial

def SameImports (imports imports' : List Import) : Prop :=
  imports.map Import.unplaced = imports'.map Import.unplaced

theorem imports_steady : Steady T SameImports (reading imports) := by
  intro ts us hts
  induction hn : ts.length using Nat.strongRecOn generalizing ts us with
  | ind n ih =>
    rw [reading_imports]
    refine .ifNext hts (fun t u ts' us' hcons _ hlists _ => ?_) (.pure rfl hts)
    apply (symbol_same ts' us' hlists).bind_same
    intro name first first' hname hfirst
    apply (importNames_steady first first' hfirst).bind_same
    intro names second second' hnames hsecond
    apply (fromLabel_steady second second' hsecond).bind_same
    intro _ third third' hfrom hthird
    apply (modulePath_steady third third' hthird).bind_same
    intro source more more' hsource hmore
    have shorter : more.length < ts.length := by
      have := reading_length hname
      have := reading_length hnames
      have := reading_length hfrom
      have := reading_length hsource
      simp [hcons]
      omega
    apply (ih more.length (hn ▸ shorter) more more' hmore rfl).map
    intro imports imports' hsame
    simpa [SameImports, Import.unplaced] using hsame

theorem inputSection_steady (limit : Nat) :
    Steady T SameInputs (reading (inputSection limit)) := by
  intro ts us hts
  rw [reading_inputSection]
  apply (expect_steady _ ts us hts).bind
  intro _ _ ts us _ _ hts
  apply (expect_steady _ ts us hts).bind
  intro _ _ ts us _ _ hts
  apply (inputs_steady limit (by simp) ts us hts).bind
  intro inputs inputs' ts us _ hsame hts
  exact (expect_steady _ ts us hts).map fun _ _ _ => hsame

def SameDeclaration (d d' : Declaration) : Prop := d.unplaced = d'.unplaced

section Declarations

variable {expr : Reader Expr} (h : Steady T Eq (reading expr))

include h

theorem moreExpressions_steady : Steady T Eq (reading (moreExpressions expr)) := by
  intro ts us hts
  induction hn : ts.length using Nat.strongRecOn generalizing ts us with
  | ind n ih =>
    rw [reading_moreExpressions]
    refine .ifNext hts (fun _ _ ts' us' hcons _ hlists _ => ?_) (.pure rfl hts)
    apply (h ts' us' hlists).bind_same
    intro e more more' hread hmore
    have shorter := reading_length hread
    exact (ih more.length (by simp [hcons] at hn; omega) more more' hmore rfl).map_same

theorem onCase_steady : Steady T Eq (reading (onCase expr)) := by
  intro ts us hts
  rw [reading_onCase]
  apply (h ts us hts).bind_same
  intro first ts us _ hts
  apply (moreExpressions_steady h ts us hts).bind_same
  intro more ts us _ hts
  cases more.getLast? with
  | none => exact .refuse hts trivial
  | some result => exact .pure rfl hts

theorem caseList_steady : Steady T Eq (reading (caseList expr)) := by
  intro ts us hts
  induction hn : ts.length using Nat.strongRecOn generalizing ts us with
  | ind n ih =>
    rw [reading_caseList]
    refine .take hts trivial fun t u ts' us' hcons ht hlists => ?_
    unfold caseStep
    rw [← (T.alike ht).kind]
    split
    · refine .ok ((onCase_steady h ts' us' hlists).bind_same ?_)
      intro c more more' hread hmore
      have shorter := reading_length hread
      exact (ih more.length (by simp [hcons] at hn; omega) more more' hmore rfl).map_same
    · refine .ok ((h ts' us' hlists).bind_same ?_)
      intro result more more' hread hmore
      have shorter := reading_length hread
      exact (ih more.length (by simp [hcons] at hn; omega) more more' hmore rfl).map_same
    · exact .ok (.pure rfl hlists)
    · exact .error trivial

theorem valueBody_steady {name : String} (hname : T.Bare name) :
    Steady T Eq (reading (valueBody expr name)) := by
  intro ts us hts
  rw [reading_valueBody]
  refine .take hts hname fun t u ts us _ ht hts => ?_
  unfold valueStep
  rw [← (T.alike ht).kind]
  split
  · exact .ok (h ts us hts)
  · exact .ok (caseList_steady h ts us hts).map_same
  · split
    · exact .error hname
    · exact .error hname

theorem value_agree (inline : Bool) (place place' : Location) {ts us : List Token}
    (hts : T.Lists ts us) : Agree T SameDeclaration (reading (value expr inline place) ts)
      (reading (value expr inline place') us) := by
  rw [reading_value, reading_value]
  apply (symbol_steady ts us hts).bind
  rintro name _ ts us _ ⟨rfl, hname⟩ hts
  apply (valueBody_steady h hname ts us hts).map
  rintro e _ rfl
  rfl

theorem trait_agree (place place' : Location) {ts us : List Token} (hts : T.Lists ts us) :
    Agree T SameDeclaration (reading (trait expr place) ts) (reading (trait expr place') us) := by
  rw [reading_trait, reading_trait]
  apply (symbol_same ts us hts).bind_same
  intro name ts us _ hts
  apply (expect_steady _ ts us hts).bind
  intro _ _ ts us _ _ hts
  apply (h ts us hts).map
  rintro e _ rfl
  rfl

/-- What a word starts is read alike after an alike word, if it starts anything. -/
theorem declaration_agree {t u : Token} (ht : T.rel t u) :
    (∃ cause, declaration expr t = .error cause ∧ declaration expr u = .error cause ∧
      Fault.Shows T.Bare ⟨some t, cause⟩) ∨
    ∃ body body', declaration expr t = .ok body ∧ declaration expr u = .ok body' ∧
      ∀ ts us, T.Lists ts us → Agree T SameDeclaration (reading body ts) (reading body' us) := by
  unfold declaration
  rw [← (T.alike ht).kind]
  split
  · exact .inr ⟨_, _, rfl, rfl, fun _ _ => value_agree h false _ _⟩
  · exact .inr ⟨_, _, rfl, rfl, fun _ _ => value_agree h true _ _⟩
  · exact .inr ⟨_, _, rfl, rfl, fun _ _ => trait_agree h _ _⟩
  · exact .inl ⟨_, rfl, rfl, trivial⟩
  · exact .inl ⟨_, rfl, rfl, trivial⟩
  · exact .inl ⟨_, rfl, rfl, trivial⟩

theorem declarations_steady :
    Steady T (fun ds ds' => ds.map Declaration.unplaced = ds'.map Declaration.unplaced)
      (reading (declarations expr)) := by
  intro ts us hts
  induction hn : ts.length using Nat.strongRecOn generalizing ts us with
  | ind n ih =>
    rw [reading_declarations]
    refine .take hts trivial fun t u ts' us' hcons ht hlists => ?_
    unfold declarationStep
    rw [← (T.alike ht).kind]
    split
    · exact .ok (.pure rfl hlists)
    · rcases declaration_agree h ht with ⟨cause, hx, hy, hshows⟩ | ⟨body, body', hx, hy, hbody⟩
      · rw [hx, hy]
        exact .error hshows
      · rw [hx, hy]
        refine .ok ((hbody ts' us' hlists).bind fun d d' more more' hread hd hmore => ?_)
        have shorter := reading_length hread
        apply (ih more.length (by simp [hcons] at hn; omega) more more' hmore rfl).map
        intro ds ds' hsame
        have first : d.unplaced = d'.unplaced := hd
        simpa [first] using hsame

end Declarations

/-- Schemas that alike tokens spell differ in places only, and refusals are alike. -/
theorem schemaReading_steady (limit : Nat) :
    Steady T (fun s s' => s.unplaced = s'.unplaced) (schemaReading limit) := by
  intro ts us hts
  rw [schemaReading]
  apply (expect_steady _ ts us hts).bind
  intro _ _ ts us _ _ hts
  apply (expect_steady _ ts us hts).bind
  intro _ _ ts us _ _ hts
  apply (imports_steady ts us hts).bind
  intro imports imports' ts us _ himports hts
  apply (inputSection_steady limit ts us hts).bind
  intro inputs inputs' ts us _ hinputs hts
  rw [Schema.names_of_unplaced himports]
  apply (declarations_steady ((levels_steady _ limit).climb 0) ts us hts).bind
  intro decls decls' ts us _ hdecls hts
  have ended : ts.isEmpty = us.isEmpty := by cases hts <;> rfl
  refine .look ended ?_
  split
  · exact .pure (Schema.ofParts_unplaced himports hinputs hdecls) hts
  · exact .refuse hts trivial

end SchemaLang.Reader
