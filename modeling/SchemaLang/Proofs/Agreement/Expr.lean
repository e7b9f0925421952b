import SchemaLang.Proofs.Agreement.Basic
import SchemaLang.Proofs.Reading.Expr

namespace SchemaLang.Reader

open Reading

variable {T : Pairing}

theorem fieldName_steady : Steady T Eq (reading fieldName) := by
  intro ts us hts
  rw [reading_fieldName]
  refine .take hts trivial fun t u ts us _ ht hts => ?_
  rw [← (T.alike ht).isWord, ← (T.alike ht).raw]
  split
  · exact .ok (.pure rfl hts)
  · exact .error trivial

theorem fieldNames_steady : Steady T Eq (reading fieldNames) := by
  intro ts us hts
  induction hn : ts.length using Nat.strongRecOn generalizing ts us with
  | ind n ih =>
    rw [reading_fieldNames]
    refine .ifNext hts (fun t u ts' us' hts' _ hlists _ => ?_) (.pure rfl hts)
    apply (fieldName_steady ts' us' hlists).bind_same
    intro name more more' hread hmore
    have shorter := reading_length hread
    exact (ih more.length (by simp [hts'] at hn; omega) more more' hmore rfl).map_same

theorem inputPath_steady : Steady T Eq (reading inputPath) := by
  intro ts us hts
  rw [reading_inputPath]
  refine .ifNext hts (fun t u ts us _ _ hts _ => ?_) (.refuse hts trivial)
  apply (fieldName_steady ts us hts).bind_same
  intro name ts us _ hts
  exact (fieldNames_steady ts us hts).map_same

theorem hashKey_steady : Steady T Eq (reading hashKey) := by
  have arrow {t u : Token} (ht : T.rel t u) (key : Literal) {ts us : List Token}
      (hts : T.Lists ts us) : Agree T Eq (arrowAfter t key ts) (arrowAfter u key us) :=
    .ifNext hts (fun _ _ _ _ _ _ hts _ => .pure rfl hts)
      (.error ⟨head?_of_lists hts, .missingArrow ht, trivial⟩)
  intro ts us hts
  rw [reading_hashKey]
  refine .take hts trivial fun t u ts us _ ht hts => ?_
  rw [← (T.alike ht).kind, ← (T.alike ht).raw]
  split
  · exact .ok (.pure rfl hts)
  · exact .ok (arrow ht _ hts)
  · exact .ok (arrow ht _ hts)
  · exact .error trivial

structure Level.Steady (T : Pairing) (inner : Level) : Prop where
  climb : ∀ least, Reader.Steady T Eq (reading (inner.climb least))
  negated : Reader.Steady T Eq (reading inner.negated)

section Levels

variable {imported : List String} {inner : Level} (h : inner.Steady T)

include h

/-- A key is the text of a label, so one that is refused shows that. -/
theorem keyedArgument_agree (earlier : List String) {ts us : List Token} (hts : T.Lists ts us)
    (hlabel : firstKind ts = .label) : Agree T Eq (reading (keyedArgument inner earlier) ts)
      (reading (keyedArgument inner earlier) us) := by
  rw [reading_keyedArgument]
  refine .take hts trivial fun t u ts' us' hcons ht hts => ?_
  rw [← (T.alike ht).raw]
  split
  · have label : t.kind = .label := by rwa [hcons] at hlabel
    exact .error ⟨t, rfl, t, u, ht, by rw [label]; rfl, rfl⟩
  · exact .ok (h.climb 0 ts' us' hts).map_same

theorem argument_steady (earlier : List Argument) :
    Steady T Eq (reading (argument inner earlier)) := by
  intro ts us hts
  rw [reading_argument]
  refine .look (firstKind_of_lists hts) ?_
  split
  · next hlabel => exact (keyedArgument_agree h _ hts hlabel).map_same
  · split
    · exact .refuse hts trivial
    · exact (h.climb 0 ts us hts).map_same

theorem arguments_steady : Steady T Eq (reading (arguments inner)) :=
  separated_steady (argument_steady h) []

theorem importArgument_steady {function : String} (hfunction : T.Bare function)
    (earlier : List (String × Expr)) :
    Steady T Eq (reading (importArgument inner function earlier)) := by
  intro ts us hts
  rw [reading_importArgument]
  refine .look (firstKind_of_lists hts) ?_
  split
  · next hlabel => exact keyedArgument_agree h _ hts hlabel
  · exact .refuse hts hfunction

theorem named_steady {name : String} (hname : T.Bare name) :
    Steady T Eq (reading (named imported inner name)) := by
  intro ts us hts
  rw [reading_named]
  refine .ifNext hts (fun t u ts us _ _ hts _ => ?_) (.pure rfl hts)
  split
  · apply (symbol_same ts us hts).bind_same
    intro target ts us _ hts
    exact (expect_steady _ ts us hts).map fun _ _ _ => rfl
  · split
    · exact (separated_steady (importArgument_steady h hname) [] ts us hts).map_same
    · exact (arguments_steady h ts us hts).map_same

theorem functionCall_steady : Steady T Eq (reading (functionCall inner)) := by
  intro ts us hts
  rw [reading_functionCall]
  apply (expect_steady _ ts us hts).bind
  intro _ _ ts us _ _ hts
  apply (symbol_same ts us hts).bind_same
  intro function ts us _ hts
  refine .ifNext hts (fun t u ts us _ _ hts _ => ?_) ?_
  · exact (arguments_steady h ts us hts).map_same
  · exact (expect_steady _ ts us hts).map fun _ _ _ => rfl

theorem hashPair_steady : Steady T Eq (reading (hashPair inner)) := by
  intro ts us hts
  rw [reading_hashPair]
  apply (hashKey_steady ts us hts).bind_same
  intro key ts us _ hts
  exact (h.climb 0 ts us hts).map_same

theorem primary_steady : Steady T Eq (reading (primary imported inner)) := by
  intro ts us hts
  rw [reading_primary]
  refine .take hts trivial fun t u ts us _ ht hts => ?_
  have bare (hk : t.kind.isBare) : T.Bare t.raw := ⟨t, u, ht, hk, rfl⟩
  have parenthesis (e : Expr) {ts us : List Token} (hts : T.Lists ts us) :
      Agree T Eq ((reading (expect (.mark .rightParen)) >>= fun _ => Pure.pure e) ts)
        ((reading (expect (.mark .rightParen)) >>= fun _ => Pure.pure e) us) :=
    (expect_steady _ ts us hts).map fun _ _ _ => rfl
  unfold primaryStep
  rw [← (T.alike ht).kind, ← (T.alike ht).raw]
  split
  · next hk => exact intStep_agree ht hts hk _
  · next hk => exact floatStep_agree ht hts hk _
  · exact .ok (.pure rfl hts)
  · exact .ok (.pure rfl hts)
  · exact .ok (.pure rfl hts)
  · next hk =>
    split
    · exact .ok (.pure rfl hts)
    · exact .error ⟨t, rfl, bare (by rw [hk]; rfl)⟩
  · exact .ok (h.negated ts us hts).map_same
  · exact .ok (inputPath_steady ts us hts)
  · next hk => exact .ok (named_steady h (bare (by rw [hk]; rfl)) ts us hts)
  · exact .ok (functionCall_steady h ts us hts)
  · refine .ok (.ifNext hts (fun _ _ ts us _ _ hts _ => ?_) (.refuseAt (.some ht) trivial))
    apply (symbol_same ts us hts).bind_same
    intro name ts us _ hts
    exact parenthesis _ hts
  · refine .ok ((h.climb 0 ts us hts).bind_same ?_)
    intro e ts us _ hts
    exact parenthesis e hts
  · exact .ok (separated_steady (fun _ => h.climb 0) [] ts us hts).map_same
  · exact .ok (separated_steady (fun _ => hashPair_steady h) [] ts us hts).map_same
  · exact .error trivial

theorem indices_steady (e : Expr) : Steady T Eq (reading (indices inner e)) := by
  intro ts us hts
  induction hn : ts.length using Nat.strongRecOn generalizing e ts us with
  | ind n ih =>
    rw [reading_indices]
    refine .ifNext hts (fun t u ts' us' hcons _ hlists _ => ?_) (.pure rfl hts)
    apply (h.climb 0 ts' us' hlists).bind_same
    intro i mid mid' hread hmid
    have first := reading_length hread
    apply (expect_steady _ mid mid' hmid).bind
    intro _ _ more more' hclose _ hmore
    have second := reading_length hclose
    exact ih more.length (by simp [hcons] at hn; omega) _ more more' hmore rfl

theorem operand_steady : Steady T Eq (reading (operand imported inner)) := by
  intro ts us hts
  rw [reading_operand]
  apply (primary_steady h ts us hts).bind_same
  intro e ts us _ hts
  exact indices_steady h e ts us hts

theorem chain_steady (least : Nat) (left : Expr) :
    Steady T Eq (reading (chain inner least left)) := by
  intro ts us hts
  induction hn : ts.length using Nat.strongRecOn generalizing left ts us with
  | ind n ih =>
    have same := firstKind_of_lists hts
    by_cases hbelow : Below least (firstKind ts)
    · rw [reading_chain_of_below hbelow, reading_chain_of_below (same ▸ hbelow)]
      exact .ok rfl hts
    · obtain ⟨t, rest, op, rfl, ht, hle⟩ := exists_of_not_below hbelow
      cases hts with
      | @cons _ u _ rest' htu hrest =>
        have hu : u.kind = .operator op := (T.alike htu).kind.symm.trans ht
        rw [reading_chain_of_tight ht hle, reading_chain_of_tight hu hle]
        apply (h.climb op.rightPrecedence rest rest' hrest).bind_same
        intro right more more' hread hmore
        have shorter := reading_length hread
        exact ih more.length (by simp at hn; omega) _ more more' hmore rfl

theorem climb_steady (least : Nat) : Steady T Eq (reading (climb imported inner least)) := by
  intro ts us hts
  rw [reading_climb]
  apply (operand_steady h ts us hts).bind_same
  intro left ts us _ hts
  apply (chain_steady h least left ts us hts).bind_same
  intro e ts us _ hts
  have signed : startsWithSigned ts = startsWithSigned us := by
    cases hts with
    | nil => rfl
    | cons ht _ => simp only [startsWithSigned, (T.alike ht).kind, (T.alike ht).raw]
  refine .look signed ?_
  split
  · exact .refuse hts trivial
  · exact .pure rfl hts

end Levels

theorem levels_steady (imported : List String) (room : Nat) :
    (levels imported room).Steady T := by
  induction room with
  | zero =>
    have deep (ts us : List Token) (hts : T.Lists ts us) :
        Agree (α := Expr) T Eq (.error ⟨ts.head?, .tooDeep .expression⟩)
          (.error ⟨us.head?, .tooDeep .expression⟩) :=
      .error ⟨head?_of_lists hts, .same, trivial⟩
    exact ⟨fun _ => deep, deep⟩
  | succ room ih => exact ⟨climb_steady ih, operand_steady ih⟩

end SchemaLang.Reader
