import SchemaLang.Proofs.Cursor.Expr
import SchemaLang.Proofs.Cursor.Input

namespace SchemaLang

open Reader

variable {track : Track} {start c : Cursor} {level taken : Nat} {gain : Int}
variable {call : {β : Type} → Routine β → Walk β} {imported : List String}

theorem imports_of_importWord {t : Token} (ht : t.kind = .keyword .importWord) (rest : List Token)
    (room : Nat) :
    reading imports (t :: rest) = (do
      let first ← routineReading room .importDecl
      let more ← reading imports
      pure (first :: more)) (t :: rest) := by
  rw [reading_imports, Reading.ifNext_of_eq ht, ← reading_imports, routineReading,
    Reading.bind_eq_bind (Reading.expect_bind ht rest)]
  simp only [bind_assoc, pure_bind]

/-- A word starts a declaration for a walk if it does so for a reader. -/
theorem declaration_cases (imported : List String) (room : Nat) {t : Token} (ht : t.kind ≠ .eof) :
    (∃ cause, Walk.declaration imported t = .error cause ∧
      declaration (expression imported room) t = .error cause) ∨
    ∃ r body, Walk.declaration imported t = .ok r ∧
      declaration (expression imported room) t = .ok body ∧
      r.rank = 0 ∧ r.takes = true ∧ r.opening? = some t.kind ∧
      ∀ rest, routineReading room r (t :: rest) = reading body rest := by
  unfold Walk.declaration
  split
  · next hk =>
    exact .inr ⟨_, value (expression imported room) false t.location, rfl, by simp only [declaration, hk], rfl,
      rfl, congrArg some hk.symm, Reading.expect_bind hk⟩
  · next hk =>
    exact .inr ⟨_, value (expression imported room) true t.location, rfl, by simp only [declaration, hk], rfl,
      rfl, congrArg some hk.symm, Reading.expect_bind hk⟩
  · next hk =>
    exact .inr ⟨_, trait (expression imported room) t.location, rfl, by simp only [declaration, hk], rfl, rfl,
      congrArg some hk.symm, Reading.expect_bind hk⟩
  · next hk => exact .inl ⟨_, rfl, by simp only [declaration, hk]⟩
  · next hk => exact .inl ⟨_, rfl, by simp only [declaration, hk]⟩
  · next hk => exact absurd hk ht
  · exact .inl ⟨_, rfl, by simp only [declaration, *]⟩

namespace Follows

theorem fromLabel (h : Stands track start level taken gain c) :
    Follows track start level (taken + 1) (gain + 16) Walk.fromLabel c
      (reading Reader.fromLabel (track.ahead c.pos)) := by
  rw [reading_fromLabel]
  refine .take h (fun t ht => if_neg fun hf => ?_) fun t => ?_
  · cases hf.1.symm.trans ht
  · by_cases hf : isFrom t
    · simp only [if_pos hf]
      exact .next fun c h => .pure h (by omega)
    · simp only [if_neg hf]
      exact .refused

theorem modulePath (h : Stands track start level taken gain c) :
    Follows track start level (taken + 1) (gain + 16) Walk.modulePath c
      (reading Reader.modulePath (track.ahead c.pos)) := by
  rw [reading_modulePath]
  refine .take h (fun t ht => by simp [ht]) fun t => ?_
  by_cases hk : t.kind = .constant
  · simp only [if_pos hk]
    exact .next fun c h => .pure h (by omega)
  · simp only [if_neg hk]
    exact .refused

end Follows

namespace Answers

theorem importNames (answers : Answers track start 0 call) :
    Follows track start 0 0 0 (Walk.importNames call) start
      (reading Reader.importNames (track.ahead start.pos)) := by
  rw [reading_importNames]
  have h := Stands.refl track start
  refine .ifNext h (by decide) (fun _ c h => ?_) fun _ => .pure h (by simp)
  rw [Reading.look_bind]
  refine .current ?_
  rw [Track.kind_tokenAt]
  split
  · exact .pure h (by simp)
  · refine .bind (.symbol h) fun name c h => ?_
    exact .bind (answers.calls .importNames h (by simp)) fun names c h => .pure h (by simp)

theorem importDecl (answers : Answers track start 0 call)
    (opens : firstKind (track.ahead start.pos) = .keyword .importWord) :
    Follows track start 0 1 5 (Walk.importDecl call) start
      (routineReading (track.limit - start.depth) .importDecl (track.ahead start.pos)) := by
  refine .current (.skip (.refl track start) (by decide) opens fun c h => ?_)
  refine .bind (.symbol h) fun name c h => ?_
  refine .bind (answers.calls .importNames h (by simp)) fun names c h => ?_
  refine .bind (.fromLabel h) fun _ c h => ?_
  exact .bind (.modulePath h) fun source c h => .pure h (by simp)

theorem imports (answers : Answers track start 1 call) :
    Follows track start 0 0 (-1) (Walk.imports call) start
      (reading Reader.imports (track.ahead start.pos)) := by
  have h := Stands.refl track start
  refine .current ?_
  rw [Track.kind_tokenAt]
  by_cases hk : firstKind (track.ahead start.pos) = .keyword .importWord
  · obtain ⟨t, rest, hc, ht⟩ := Track.exists_cons_of_kind hk (by decide)
    rw [if_pos hk, hc, imports_of_importWord ht rest (track.limit - start.depth), ← hc]
    refine .bind (answers.calls .importDecl h (by simp [hk])) fun first c h => ?_
    exact .bind (answers.calls .imports h (by simp)) fun more c h => .pure h (by simp)
  · rw [if_neg hk, reading_imports, Reading.ifNext_of_ne hk]
    exact .pure h (by simp)

theorem moreExpressions (answers : Answers track start 0 call) :
    Follows track start 0 0 0 (Walk.moreExpressions call imported) start
      (reading (Reader.moreExpressions (Reader.expression imported (track.limit - start.depth)))
        (track.ahead start.pos)) := by
  rw [reading_moreExpressions]
  have h := Stands.refl track start
  refine .ifNext h (by decide) (fun _ c h => ?_) fun _ => .pure h (by simp)
  refine .bind (answers.expression h (by simp)) fun e c h => ?_
  refine .bind (answers.calls (.moreExpressions imported) h (by simp)) fun es c h => ?_
  exact .pure h (by simp)

theorem onCase (answers : Answers track start 0 call)
    (opens : firstKind (track.ahead start.pos) = .keyword .on) :
    Follows track start 0 1 5 (Walk.onCase call imported) start
      (routineReading (track.limit - start.depth) (.onCase imported)
        (track.ahead start.pos)) := by
  refine .skip (.refl track start) (by decide) opens fun c h => ?_
  rw [reading_onCase]
  refine .bind (answers.expression h (by simp)) fun first c h => ?_
  refine .bind (answers.calls (.moreExpressions imported) h (by simp)) fun more c h => ?_
  cases more.getLast? with
  | none => exact .refuse h.toReached rfl
  | some result => exact .pure h (by simp)

theorem valueBody (answers : Answers track start 0 call) (name : String)
    (h : Stands track start 0 2 32 c) :
    Follows track start 0 2 32 (Walk.valueBody call imported name) c
      (reading (Reader.valueBody (Reader.expression imported (track.limit - start.depth)) name)
        (track.ahead c.pos)) := by
  rw [reading_valueBody]
  refine .take h (fun t ht => ?_) fun t => ?_
  · simp only [ht]
    rfl
  · split
    · next hk =>
      simp only [valueStep, hk]
      exact .next fun c h => (answers.expression h (by simp)).weaken (by simp)
    · next hk =>
      simp only [valueStep, hk]
      refine .next fun c h => .bind (answers.calls (.caseList imported) h (by simp)) ?_
      exact fun cases c h => .pure h (by simp)
    · simp only [valueStep, *]
      exact .refused

theorem value (answers : Answers track start 0 call) (inline : Bool)
    (opens : firstKind (track.ahead start.pos) =
      .keyword (if inline then .letWord else .value)) :
    Follows track start 0 1 5 (Walk.value call imported inline) start
      (routineReading (track.limit - start.depth) (.value imported inline)
        (track.ahead start.pos)) := by
  refine .current (.skip (.refl track start) nofun opens fun c h => ?_)
  rw [reading_value]
  refine .bind (.symbol h) fun name c h => ?_
  exact .bind (answers.valueBody name h) fun e c h => .pure h (by simp)

theorem trait (answers : Answers track start 0 call)
    (opens : firstKind (track.ahead start.pos) = .keyword .trait) :
    Follows track start 0 1 5 (Walk.trait call imported) start
      (routineReading (track.limit - start.depth) (.trait imported)
        (track.ahead start.pos)) := by
  refine .current (.skip (.refl track start) (by decide) opens fun c h => ?_)
  rw [reading_trait]
  refine .bind (.symbol h) fun name c h => ?_
  refine .bind (.expect h (by decide)) fun _ c h => ?_
  exact .bind (answers.expression h (by simp)) fun e c h => .pure h (by simp)

theorem caseList (answers : Answers track start 1 call) :
    Follows track start 0 1 3 (Walk.caseList call imported) start
      (reading (Reader.caseList (Reader.expression imported (track.limit - start.depth)))
        (track.ahead start.pos)) := by
  have h := Stands.refl track start
  rw [reading_caseList]
  refine .current ?_
  cases hc : track.ahead start.pos with
  | nil =>
    simp only [Track.kind_of_ahead_nil hc]
    exact .refuse h.toReached hc
  | cons t rest =>
    rw [(Track.ahead_of_cons hc).1, Reading.take]
    split
    · next hk =>
      simp only [caseStep, hk]
      have on : routineReading (track.limit - start.depth) (.onCase imported) (t :: rest) =
          reading (Reader.onCase (Reader.expression imported (track.limit - start.depth))) rest :=
        Reading.expect_bind hk rest
      rw [Reading.bind_eq_bind on.symm, ← hc]
      refine .bind (answers.calls (.onCase imported) h (by simp [hc, firstKind, hk]))
        fun case c h => ?_
      exact .bind (answers.calls (.caseList imported) h (by simp)) fun cs c h => .pure h (by simp)
    · next hk =>
      simp only [caseStep, hk]
      refine .pass h hc fun c h => .bind (answers.expression h (by simp)) fun result c h => ?_
      exact .bind (answers.calls (.caseList imported) h (by simp)) fun cs c h => .pure h (by simp)
    · next hk => simp only [caseStep, hk]; exact .pass h hc fun c h => .pure h (by simp)
    · simp only [caseStep, *]; exact .refuse h.toReached hc

theorem declarations (answers : Answers track start 1 call) :
    Follows track start 0 1 3 (Walk.declarations call imported) start
      (reading (Reader.declarations (Reader.expression imported (track.limit - start.depth)))
        (track.ahead start.pos)) := by
  have h := Stands.refl track start
  rw [reading_declarations]
  refine .current ?_
  cases hc : track.ahead start.pos with
  | nil =>
    simp only [Track.kind_of_ahead_nil hc, Walk.declaration]
    exact .refuse h.toReached hc
  | cons t rest =>
    have hne : t.kind ≠ .eof := (Track.ahead_of_cons hc).1 ▸ Track.kind_ne_of_ahead hc
    rw [(Track.ahead_of_cons hc).1, Reading.take, declarationStep]
    by_cases hend : t.kind = .keyword .endWord
    · simp only [if_pos hend]
      exact .pass h hc fun c h => .pure h (by simp)
    · simp only [if_neg hend]
      rcases declaration_cases imported (track.limit - start.depth) hne with
        ⟨cause, hw, hr⟩ | ⟨r, body, hw, hr, rank, takes, opening, hbody⟩
      · simp only [hw, hr]
        exact .refuse h.toReached hc
      · have least : r.least = 1 := by rw [Routine.least, if_pos takes]
        have gain : r.gain = 4 := by
          rw [Routine.gain, if_pos takes, rank]
          rfl
        have opens : ∀ kind ∈ r.opening?, firstKind (track.ahead start.pos) = kind := by
          rw [opening, hc]
          rintro kind ⟨⟩
          rfl
        have first := answers.calls r h ⟨opens, .inr (by rw [rank]; decide), by rw [rank]; decide⟩
        rw [least, gain] at first
        simp only [hw, hr]
        show Follows track start 0 1 3 _ start ((reading body >>= _) rest)
        rw [Reading.bind_eq_bind (hbody rest).symm, ← hc]
        refine .bind first fun d c h => ?_
        refine .bind (answers.calls (.declarations imported) h (by simp)) fun ds c h => ?_
        exact .pure h (by simp)

theorem schema (answers : Answers track start 0 call) :
    Follows track start 0 1 5 (Walk.schema call) start
      (schemaReading (track.limit - start.depth) (track.ahead start.pos)) := by
  have h := Stands.refl track start
  rw [schemaReading, reading_inputSection]
  simp only [bind_assoc, pure_bind]
  refine .bind (.expect h (by decide)) fun _ c h => ?_
  refine .bind (.expect h (by decide)) fun _ c h => ?_
  refine .bind (answers.calls .imports h (by simp)) fun imports c h => ?_
  refine .bind (.expect h (by decide)) fun _ c h => ?_
  refine .bind (.expect h (by decide)) fun _ c h => ?_
  rw [inputs_eq]
  refine .bind (answers.calls (.inputs none none) h (by simp)) fun inputs c h => ?_
  refine .bind (.expect h (by decide)) fun _ c h => ?_
  refine .bind (answers.calls (.declarations (imports.flatMap Import.names)) h (by simp))
    fun decls c h => ?_
  rw [Reading.look_bind]
  refine .current ?_
  cases hc : track.ahead c.pos with
  | nil =>
    rw [if_pos (Track.kind_of_ahead_nil hc)]
    exact .value h hc (by simp)
  | cons t rest =>
    rw [if_neg (Track.kind_ne_of_ahead hc)]
    exact .refuse h.toReached hc

end Answers

end SchemaLang
