import Mathlib.Data.List.Forall2
import SchemaLang.Proofs.Reading.Basic

namespace SchemaLang

/-- Of one kind and one text, wherever the two tokens stand. -/
structure Token.Alike (t u : Token) : Prop where
  kind : t.kind = u.kind
  raw : t.raw = u.raw

namespace Token.Alike

variable {t u : Token} (h : t.Alike u)

include h

theorem isWord : t.isWord = u.isWord := by
  simp only [Token.isWord, Token.hasWordKind, h.kind, h.raw]

theorem digits : Reader.digits t = Reader.digits u := by
  simp only [Reader.digits, h.raw]

theorem describe : t.describe = u.describe := by
  simp only [Token.describe, h.kind, h.raw]

end Token.Alike

/-- Which token of one run goes with which of another. -/
structure Pairing where
  rel : Token → Token → Prop
  alike : ∀ {t u : Token}, rel t u → t.Alike u

/-- Whether tokens of the kind are numbers or are made of words. -/
def Kind.isBare : Kind → Bool
  | .integer | .float | .symbol | .identifier | .constant | .label => true
  | _ => false

namespace Pairing

variable (T : Pairing)

/-- Lists of tokens that go with each other one by one. -/
abbrev Lists : List Token → List Token → Prop := List.Forall₂ T.rel

def Bare (text : String) : Prop := ∃ t u, T.rel t u ∧ t.kind.isBare ∧ t.raw = text

end Pairing

/-- Causes that are the same, or name keys that go with each other. -/
inductive Cause.Alike (T : Pairing) : Cause → Cause → Prop
  | same {cause : Cause} : Alike T cause cause
  | missingArrow {t u : Token} : T.rel t u → Alike T (.missingArrow t) (.missingArrow u)

namespace Fault

/-- Whether the text that a refusal shows as it stands is `bare`. A number that is shown cannot be
read. -/
def Shows (bare : String → Prop) (fault : Fault) : Prop :=
  match fault.cause with
  | .integerRange => ∃ t, fault.token = some t ∧ bare t.raw ∧ t.kind = .integer ∧
      Decimal.readInt64? (Reader.digits t) = none
  | .invalidFloat => ∃ t, fault.token = some t ∧ bare t.raw ∧ t.kind = .float ∧
      Decimal.readFloat? (Reader.digits t) = none
  | .unknownElementType | .unknownOption | .unknownConstant | .duplicateKey =>
    ∃ t, fault.token = some t ∧ bare t.raw
  | .missingComma name | .expectedBody name | .mixedArray name | .notContainer name
  | .keysOnly name => bare name
  | _ => True

theorem Shows.imp {bare bare' : String → Prop} (himp : ∀ text, bare text → bare' text)
    {fault : Fault} (h : fault.Shows bare) : fault.Shows bare' := by
  obtain ⟨token, cause⟩ := fault
  cases cause with
  | integerRange | invalidFloat =>
    obtain ⟨t, htoken, ht, hunread⟩ := h
    exact ⟨t, htoken, himp t.raw ht, hunread⟩
  | unknownElementType | unknownOption | unknownConstant | duplicateKey =>
    obtain ⟨t, htoken, ht⟩ := h
    exact ⟨t, htoken, himp t.raw ht⟩
  | missingComma name | expectedBody name | mixedArray name | notContainer name | keysOnly name =>
    exact himp name h
  | _ => trivial

/-- Refusals of tokens that go with each other, for alike causes. -/
structure Alike (T : Pairing) (f g : Fault) : Prop where
  token : Option.Rel T.rel f.token g.token
  cause : f.cause.Alike T g.cause
  shows : f.Shows T.Bare

end Fault

namespace Reader

open Reading

variable {α β : Type} {T : Pairing} {V : α → α → Prop} {W : β → β → Prop} {ts us : List Token}

/-- How two runs end alike. -/
inductive Agree (T : Pairing) (V : α → α → Prop) :
    Except Fault (α × List Token) → Except Fault (α × List Token) → Prop
  | ok {a b : α} {ts us : List Token} : V a b → T.Lists ts us →
    Agree T V (.ok (a, ts)) (.ok (b, us))
  | error {f g : Fault} : f.Alike T g → Agree T V (.error f) (.error g)

/-- The same of what follows two tokens, which both are taken or both are refused. -/
inductive StepAgree (T : Pairing) (V : α → α → Prop) (t u : Token) (ts us : List Token) :
    Except Cause (Reading α) → Except Cause (Reading α) → Prop
  | ok {x y : Reading α} : Agree T V (x ts) (y us) → StepAgree T V t u ts us (.ok x) (.ok y)
  | error {cause : Cause} : Fault.Shows T.Bare ⟨some t, cause⟩ →
    StepAgree T V t u ts us (.error cause) (.error cause)

/-- All pairs of runs end alike, on whatever tokens. -/
def Steady (T : Pairing) (V : α → α → Prop) (x : Reading α) : Prop :=
  ∀ ts us, T.Lists ts us → Agree T V (x ts) (x us)

theorem firstKind_of_lists (h : T.Lists ts us) : firstKind ts = firstKind us := by
  cases h with
  | nil => rfl
  | cons ht _ => exact (T.alike ht).kind

theorem head?_of_lists (h : T.Lists ts us) : Option.Rel T.rel ts.head? us.head? := by
  cases h with
  | nil => exact .none
  | cons ht _ => exact .some ht

namespace Agree

theorem pure {a b : α} (h : V a b) (hts : T.Lists ts us) :
    Agree T V ((Pure.pure a : Reading α) ts) ((Pure.pure b : Reading α) us) := .ok h hts

theorem refuse {cause : Cause} (hts : T.Lists ts us)
    (h : Fault.Shows T.Bare ⟨ts.head?, cause⟩) :
    Agree T V (Reading.refuse cause ts) (Reading.refuse cause us) :=
  .error ⟨head?_of_lists hts, .same, h⟩

theorem refuseAt {t u : Option Token} {cause : Cause} (ht : Option.Rel T.rel t u)
    (h : Fault.Shows T.Bare ⟨t, cause⟩) :
    Agree T V (Reading.refuseAt t cause ts) (Reading.refuseAt u cause us) :=
  .error ⟨ht, .same, h⟩

theorem bind {x y : Reading α} {k l : α → Reading β} (h : Agree T V (x ts) (y us))
    (hk : ∀ a b ts' us', x ts = .ok (a, ts') → V a b → T.Lists ts' us' →
      Agree T W (k a ts') (l b us')) : Agree T W ((x >>= k) ts) ((y >>= l) us) := by
  generalize hx : x ts = p, hy : y us = q at h
  cases h with
  | error h =>
    rw [bind_of_error hx, bind_of_error hy]
    exact .error h
  | ok hv hts =>
    rw [bind_of_ok hx, bind_of_ok hy]
    exact hk _ _ _ _ hx hv hts

/-- Where both runs give the same, they go on in the same way. -/
theorem bind_same {x y : Reading α} {k l : α → Reading β} (h : Agree T Eq (x ts) (y us))
    (hk : ∀ a ts' us', x ts = .ok (a, ts') → T.Lists ts' us' →
      Agree T W (k a ts') (l a us')) : Agree T W ((x >>= k) ts) ((y >>= l) us) := by
  apply h.bind
  intro a b ts' us' hx hab hts
  cases hab
  exact hk a ts' us' hx hts

theorem map {x y : Reading α} {f g : α → β} (h : Agree T V (x ts) (y us))
    (hf : ∀ a b, V a b → W (f a) (g b)) :
    Agree T W ((x >>= fun a => Pure.pure (f a)) ts) ((y >>= fun b => Pure.pure (g b)) us) :=
  h.bind fun a b _ _ _ hab hts => .pure (hf a b hab) hts

theorem map_same {x y : Reading α} {f : α → β} (h : Agree T Eq (x ts) (y us)) :
    Agree T Eq ((x >>= fun a => Pure.pure (f a)) ts) ((y >>= fun a => Pure.pure (f a)) us) :=
  h.map fun _ _ => congrArg f

theorem look {γ : Type} {view : List Token → γ} {k l : γ → Reading α}
    (hview : view ts = view us) (h : Agree T V (k (view ts) ts) (l (view ts) us)) :
    Agree T V ((Reading.look view >>= k) ts) ((Reading.look view >>= l) us) := by
  rw [look_bind, look_bind, ← hview]
  exact h

theorem ifNext {kind : Kind} {yes yes' : Token → Reading α} {no no' : Reading α}
    (hts : T.Lists ts us) (hyes : ∀ t u ts' us', ts = t :: ts' → T.rel t u → T.Lists ts' us' →
      t.kind = kind → Agree T V (yes t ts') (yes' u us'))
    (hno : Agree T V (no ts) (no' us)) :
    Agree T V (Reading.ifNext kind yes no ts) (Reading.ifNext kind yes' no' us) := by
  cases hts with
  | nil => exact hno
  | @cons t u ts us ht hts =>
    have same := (T.alike ht).kind
    by_cases hk : t.kind = kind
    · rw [ifNext_of_eq hk, ifNext_of_eq (same.symm.trans hk)]
      exact hyes t u ts us rfl ht hts hk
    · have other : firstKind (t :: ts) ≠ kind := hk
      have other' : firstKind (u :: us) ≠ kind := fun he => hk (same.trans he)
      rw [ifNext_of_ne other, ifNext_of_ne other']
      exact hno

theorem take {atEnd : Cause} {step step' : Token → Except Cause (Reading α)}
    (hts : T.Lists ts us) (hend : Fault.Shows T.Bare ⟨none, atEnd⟩)
    (h : ∀ t u ts' us', ts = t :: ts' → T.rel t u → T.Lists ts' us' →
      StepAgree T V t u ts' us' (step t) (step' u)) :
    Agree T V (Reading.take atEnd step ts) (Reading.take atEnd step' us) := by
  cases hts with
  | nil => exact .error ⟨.none, .same, hend⟩
  | @cons t u ts us ht hts =>
    have next := h t u ts us rfl ht hts
    rw [Reading.take, Reading.take]
    generalize step t = x, step' u = y at next
    cases next with
    | ok next => exact next
    | error hshows => exact .error ⟨.some ht, .same, hshows⟩

end Agree

theorem expect_steady (kind : Kind) : Steady T T.rel (reading (expect kind)) := by
  intro ts us hts
  rw [reading_expect]
  refine .take hts trivial fun t u ts us _ ht hts => ?_
  rw [← (T.alike ht).kind]
  split
  · exact .ok (.pure ht hts)
  · exact .error trivial

/-- Both runs read one name, which is the text of a symbol. -/
theorem symbol_steady : Steady T (fun a b => a = b ∧ T.Bare a) (reading symbol) := by
  intro ts us hts
  rw [reading_symbol]
  refine .take hts trivial fun t u ts us _ ht hts => ?_
  rw [← (T.alike ht).kind, ← (T.alike ht).isWord]
  split
  · next hk => exact .ok (.pure ⟨(T.alike ht).raw, t, u, ht, by rw [hk]; rfl, rfl⟩ hts)
  · split
    · exact .error trivial
    · exact .error trivial

theorem symbol_same : Steady T Eq (reading symbol) := by
  intro ts us hts
  have named := symbol_steady ts us hts
  generalize reading symbol ts = x, reading symbol us = y at named
  cases named with
  | ok h hts => exact .ok h.1 hts
  | error h => exact .error h

section Steps

variable {t u : Token} (ht : T.rel t u) (hts : T.Lists ts us)

include ht hts

theorem intStep_agree (hk : t.kind = .integer) (result : Int64 → α) :
    StepAgree T Eq t u ts us (intStep t result) (intStep u result) := by
  rw [intStep, intStep, ← (T.alike ht).digits]
  split
  · exact .ok (.pure rfl hts)
  · next hunread => exact .error ⟨t, rfl, ⟨t, u, ht, by rw [hk]; rfl, rfl⟩, hk, hunread⟩

theorem floatStep_agree (hk : t.kind = .float) (result : Float → α) :
    StepAgree T Eq t u ts us (floatStep t result) (floatStep u result) := by
  rw [floatStep, floatStep, ← (T.alike ht).digits]
  split
  · exact .ok (.pure rfl hts)
  · next hunread => exact .error ⟨t, rfl, ⟨t, u, ht, by rw [hk]; rfl, rfl⟩, hk, hunread⟩

end Steps

/-- Items that are read alike one by one are read alike as a list. -/
theorem separated_steady {close : Kind} {item : List α → Reader α}
    (h : ∀ earlier, Steady T Eq (reading (item earlier))) (earlier : List α) :
    Steady T Eq (reading (separated close item earlier)) := by
  intro ts us hts
  induction hn : ts.length using Nat.strongRecOn generalizing earlier ts us with
  | ind n ih =>
    rw [reading_separated]
    refine .look (firstKind_of_lists hts) ?_
    split
    · exact (expect_steady close ts us hts).map fun _ _ _ => rfl
    · apply (h earlier ts us hts).bind_same
      intro a ts' us' hread hts'
      have shorter := reading_length hread
      refine .ifNext hts' (fun t u more more' hmore _ hlists _ => ?_) ?_
      · exact ih more.length (by simp [hmore] at shorter; omega) _ _ _ hlists rfl
      · exact (expect_steady close _ _ hts').map fun _ _ _ => rfl

end Reader

end SchemaLang
