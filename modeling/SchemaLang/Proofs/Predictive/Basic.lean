import SchemaLang.Proofs.Grammar.Input
import SchemaLang.Proofs.Reading.Basic

namespace SchemaLang

/-- The three refusals of the first of some tokens that rest on a later one: a range whose ends do
not agree, an `index` that is not called, and a minus before something other than a constant. -/
def Cause.LooksPast (cause : Cause) (ts : List Token) : Prop :=
  cause = .mixedRange ∧ (∃ p dots q rest min max, ts = p ++ dots :: (q ++ rest) ∧
    Grammar.Bound p min ∧ Grammar.Bound q max ∧ min.agree max = false) ∨
  cause = .expectedExpression ∧ Reader.firstKind ts = .type .index ∧
    Reader.firstKind ts.tail ≠ .mark .leftParen ∨
  cause = .expectedBound ∧ Reader.firstKind ts = .operator .subtract ∧
    Reader.firstKind ts.tail ≠ .constant

namespace Reader

open Reading

variable {α β : Type}

/-- How a reading of the phrases `G` treats some tokens. Where `roomy` holds, `G` is meant to be
wide enough for a phrase to be completed. -/
structure Predicts (roomy : Prop) (G : Phrase α) (run : Reading α) (ts : List Token) : Prop where
  ok : ∀ a rest, run ts = .ok (a, rest) → ∃ p, ts = p ++ rest ∧ G p a ∧
    ∀ rest', rest'.head? = rest.head? → run (p ++ rest') = .ok (a, rest')
  error : ∀ fault, run ts = .error fault → ∃ p q, ts = p ++ q ∧ fault.token = q.head? ∧
    (roomy → ∃ s a, G (p ++ s) a) ∧
    (fault.cause.LooksPast q ∨ ∀ q', q'.head? = q.head? → run (p ++ q') = .error fault)

theorem head?_append_congr (p : List Token) {q q' : List Token} (h : q'.head? = q.head?) :
    (p ++ q').head? = (p ++ q).head? := by
  cases p with
  | nil => exact h
  | cons t p => rfl

namespace Predicts

variable {roomy : Prop} {G H : Phrase α} {F : Phrase β} {ts : List Token}

theorem mono {run : Reading α} (hG : ∀ p a, G p a → H p a) (h : Predicts roomy G run ts) :
    Predicts roomy H run ts where
  ok a rest hr := by
    obtain ⟨p, hp, hg, hl⟩ := h.ok a rest hr
    exact ⟨p, hp, hG p a hg, hl⟩
  error fault hr := by
    obtain ⟨p, q, hp, ht, hs, hl⟩ := h.error fault hr
    refine ⟨p, q, hp, ht, fun hroomy => ?_, hl⟩
    obtain ⟨s, a, hg⟩ := hs hroomy
    exact ⟨s, a, hG _ a hg⟩

theorem pure {a : α} (h : G [] a) : Predicts roomy G (Pure.pure a) ts where
  ok b rest hr := by
    cases hr
    exact ⟨[], rfl, h, fun _ _ => rfl⟩
  error fault hr := by cases hr

theorem refuse {cause : Cause} (h : roomy → ∃ s a, G s a) :
    Predicts roomy G (Reading.refuse cause) ts where
  ok a rest hr := by cases hr
  error fault hr := by
    cases hr
    refine ⟨[], ts, rfl, rfl, h, Or.inr fun q' hq' => ?_⟩
    simp only [Reading.refuse, List.nil_append, hq']

/-- A refusal of the first token that rests on a later one. -/
theorem of_looksPast {run : Reading α} (fault : Fault) (hr : run ts = .error fault)
    (ht : fault.token = ts.head?) (hl : fault.cause.LooksPast ts) (h : roomy → ∃ s a, G s a) :
    Predicts roomy G run ts where
  ok a rest ho := by rw [hr] at ho; cases ho
  error fault' he := by
    rw [hr] at he
    cases he
    exact ⟨[], ts, rfl, ht, h, Or.inl hl⟩

/-- The phrases of a sequence: whatever the first reading took is put before the second's. -/
theorem bind_of_append {x : Reading α} {k : α → Reading β} (hx : Predicts roomy G x ts)
    (hk : ∀ a p rest, ts = p ++ rest → x ts = .ok (a, rest) → G p a →
      Predicts roomy (fun q b => F (p ++ q) b) (k a) rest)
    (hroom : roomy → ∀ p q s a, ts = p ++ q → G (p ++ s) a → ∃ s' b, F (p ++ s') b) :
    Predicts roomy F (x >>= k) ts where
  ok b rest hr := by
    obtain ⟨a, mid, ha, hb⟩ := bind_eq_ok hr
    obtain ⟨p, hp, hg, hl⟩ := hx.ok a mid ha
    obtain ⟨q, hq, hf, hm⟩ := (hk a p mid hp ha hg).ok b rest hb
    refine ⟨p ++ q, by rw [hp, hq, List.append_assoc], hf, fun rest' hh => ?_⟩
    have first := hl (q ++ rest') (by rw [hq]; exact head?_append_congr q hh)
    rw [List.append_assoc, bind_of_ok first]
    exact hm rest' hh
  error fault hr := by
    cases ha : x ts with
    | error fault' =>
      rw [bind_of_error ha] at hr
      cases hr
      obtain ⟨p, q, hp, ht, hs, hl⟩ := hx.error fault ha
      refine ⟨p, q, hp, ht, fun hroomy => ?_, hl.imp id fun hl q' hq' => bind_of_error (hl q' hq')⟩
      obtain ⟨s, a, hg⟩ := hs hroomy
      exact hroom hroomy p q s a hp hg
    | ok r =>
      obtain ⟨a, mid⟩ := r
      rw [bind_of_ok ha] at hr
      obtain ⟨p, hp, hg, hl⟩ := hx.ok a mid ha
      obtain ⟨q, s, hq, ht, hs, hm⟩ := (hk a p mid hp ha hg).error fault hr
      refine ⟨p ++ q, s, by rw [hp, hq, List.append_assoc], ht, fun hroomy => ?_,
        hm.imp id fun hm q' hq' => ?_⟩
      · obtain ⟨u, b, hf⟩ := hs hroomy
        exact ⟨u, b, by rw [List.append_assoc]; exact hf⟩
      · have first := hl (q ++ q') (by rw [hq]; exact head?_append_congr q hq')
        rw [List.append_assoc, bind_of_ok first]
        exact hm q' hq'

theorem bind {x : Reading α} {k : α → Reading β} (hx : Predicts roomy G x ts)
    (hk : ∀ a p rest, ts = p ++ rest → x ts = .ok (a, rest) → G p a →
      Predicts roomy (fun q b => F (p ++ q) b) (k a) rest)
    (hroom : roomy → ∀ p a, G p a → ∃ s b, F (p ++ s) b) :
    Predicts roomy F (x >>= k) ts := by
  apply bind_of_append hx hk
  intro hroomy p _ s a _ hg
  obtain ⟨s', b, hf⟩ := hroom hroomy _ a hg
  exact ⟨s ++ s', b, by rw [← List.append_assoc]; exact hf⟩

/-- Nothing is read after the first reading. -/
theorem map {x : Reading α} {f : α → β} (hx : Predicts roomy G x ts)
    (h : ∀ p a, G p a → F p (f a)) : Predicts roomy F (x >>= fun a => Pure.pure (f a)) ts := by
  apply bind hx
  · intro a p rest _ _ hp
    apply pure
    simpa using h p a hp
  · intro _ p a hp
    exact ⟨[], f a, by simpa using h p a hp⟩

/-- Two readings that agree on all tokens with the same first one. -/
theorem congr_head {run run' : Reading α}
    (heq : ∀ us : List Token, us.head? = ts.head? → run us = run' us)
    (h : Predicts roomy G run' ts) : Predicts roomy G run ts where
  ok a rest hr := by
    rw [heq ts rfl] at hr
    obtain ⟨p, hp, hg, hl⟩ := h.ok a rest hr
    refine ⟨p, hp, hg, fun rest' hh => ?_⟩
    rw [heq _ (by rw [hp]; exact head?_append_congr p hh)]
    exact hl rest' hh
  error fault hr := by
    rw [heq ts rfl] at hr
    obtain ⟨p, q, hp, ht, hs, hl⟩ := h.error fault hr
    refine ⟨p, q, hp, ht, hs, hl.imp id fun hl q' hq' => ?_⟩
    rw [heq _ (by rw [hp]; exact head?_append_congr p hq')]
    exact hl q' hq'

theorem look {view : List Token → α} {k : α → Reading β}
    (hv : ∀ us vs : List Token, us.head? = vs.head? → view us = view vs)
    (h : Predicts roomy F (k (view ts)) ts) : Predicts roomy F (Reading.look view >>= k) ts := by
  refine congr_head (fun us hu => ?_) h
  rw [look_bind, hv us ts hu]

theorem cons {run next : Reading α} {t : Token} {rest : List Token}
    (hrun : ∀ us, run (t :: us) = next us)
    (h : Predicts roomy (fun q a => G (t :: q) a) next rest) :
    Predicts roomy G run (t :: rest) where
  ok a rest' hr := by
    rw [hrun] at hr
    obtain ⟨p, hp, hg, hl⟩ := h.ok a rest' hr
    exact ⟨t :: p, by rw [hp, List.cons_append], hg, fun us hu => (hrun _).trans (hl us hu)⟩
  error fault hr := by
    rw [hrun] at hr
    obtain ⟨p, q, hp, ht, hs, hl⟩ := h.error fault hr
    exact ⟨t :: p, q, by rw [hp, List.cons_append], ht, hs,
      hl.imp id fun hl q' hq' => (hrun _).trans (hl q' hq')⟩

theorem take {atEnd : Cause} {step : Token → Except Cause (Reading α)}
    (hroom : roomy → ∃ s a, G s a)
    (h : ∀ t rest next, ts = t :: rest → step t = .ok next →
      Predicts roomy (fun q a => G (t :: q) a) next rest) :
    Predicts roomy G (Reading.take atEnd step) ts := by
  cases ts with
  | nil =>
    refine ⟨fun a rest hr => (by cases hr), fun fault hr => ?_⟩
    cases hr
    refine ⟨[], [], rfl, rfl, hroom, Or.inr fun q' hq' => ?_⟩
    rw [List.head?_eq_none_iff.mp hq']
    rfl
  | cons t rest =>
    cases hs : step t with
    | ok next => exact cons (fun us => take_of_ok hs us) (h t rest next rfl hs)
    | error cause =>
      have refused (us : List Token) :
          Reading.take atEnd step (t :: us) = .error ⟨some t, cause⟩ := by
        simp only [Reading.take, hs]
      refine ⟨fun a rest hr => (by cases (refused _).symm.trans hr), fun fault hr => ?_⟩
      cases (refused _).symm.trans hr
      refine ⟨[], t :: rest, rfl, rfl, hroom, Or.inr fun q' hq' => ?_⟩
      obtain ⟨us, rfl⟩ := List.head?_eq_some_iff.mp hq'
      exact refused us

theorem ifNext {kind : Kind} {yes : Token → Reading α} {no : Reading α}
    (hyes : ∀ t rest, ts = t :: rest → t.kind = kind →
      Predicts roomy (fun q a => G (t :: q) a) (yes t) rest)
    (hno : (∀ t rest, ts = t :: rest → t.kind ≠ kind) → Predicts roomy G no ts) :
    Predicts roomy G (Reading.ifNext kind yes no) ts := by
  by_cases hk : ∃ t rest, ts = t :: rest ∧ t.kind = kind
  · obtain ⟨t, rest, rfl, hk⟩ := hk
    exact cons (fun us => ifNext_of_eq hk us) (hyes t rest rfl hk)
  · have hne : ∀ us : List Token, us.head? = ts.head? → Reading.ifNext kind yes no us = no us := by
      intro us hu
      cases us with
      | nil => rfl
      | cons t us =>
        obtain ⟨rest, rfl⟩ := List.head?_eq_some_iff.mp (hu.symm : ts.head? = some t)
        simp only [Reading.ifNext, if_neg fun h => hk ⟨t, rest, rfl, h⟩]
    have h := hno fun t rest ht hkind => hk ⟨t, rest, ht, hkind⟩
    exact congr_head hne h

end Predicts

variable {roomy : Prop}

theorem firstKind_congr (us vs : List Token) (h : us.head? = vs.head?) :
    firstKind us = firstKind vs := by
  cases us with
  | nil => rw [List.head?_eq_none_iff.mp h.symm]
  | cons t us =>
    obtain ⟨rest, rfl⟩ := List.head?_eq_some_iff.mp h.symm
    rfl

/-- A token of a kind, wherever it stands. -/
def sample (kind : Kind) (raw : String) : Token := ⟨kind, raw, .start, none⟩

def Single (P : Token → α → Prop) : Phrase α := fun p a => ∃ t, p = [t] ∧ P t a

section Single

variable {P : Token → α → Prop} {F : Phrase β} {x : Reading α} {ts : List Token}

/-- A reading that takes one token, if it may. -/
theorem predicts_single {atEnd : Cause} {step : Token → Except Cause (Reading α)}
    (hsome : ∃ t a, P t a)
    (h : ∀ t next, step t = .ok next → ∃ a, next = pure a ∧ P t a) :
    Predicts roomy (Single P) (take atEnd step) ts := by
  apply Predicts.take
  · intro _
    obtain ⟨t, a, ha⟩ := hsome
    exact ⟨[t], a, t, rfl, ha⟩
  · intro t rest next _ hs
    obtain ⟨a, rfl, ha⟩ := h t next hs
    exact Predicts.pure ⟨t, rfl, ha⟩

theorem Predicts.bind_single (hx : Predicts roomy (Single P) x ts) {k : α → Reading β}
    (hk : ∀ t a rest, ts = t :: rest → P t a →
      Predicts roomy (fun q b => F (t :: q) b) (k a) rest)
    (hroom : roomy → ∀ t a, P t a → ∃ s b, F (t :: s) b) : Predicts roomy F (x >>= k) ts := by
  apply hx.bind
  · intro a p rest hts _ hp
    obtain ⟨t, rfl, ha⟩ := hp
    exact hk t a rest hts ha
  · intro hroomy p a hp
    obtain ⟨t, rfl, ha⟩ := hp
    exact hroom hroomy t a ha

theorem Predicts.map_single (hx : Predicts roomy (Single P) x ts) {f : α → β}
    (h : ∀ t a, P t a → F [t] (f a)) : Predicts roomy F (x >>= fun a => Pure.pure (f a)) ts := by
  apply hx.map
  intro p a hp
  obtain ⟨t, rfl, ha⟩ := hp
  exact h t a ha

end Single

theorem predicts_expect (kind : Kind) (ts : List Token) :
    Predicts roomy (Single fun t a => a = t ∧ t.kind = kind) (reading (expect kind)) ts := by
  rw [reading_expect]
  apply predicts_single ⟨sample kind "", _, rfl, rfl⟩
  intro t next hs
  split at hs
  · next hk =>
    cases hs
    exact ⟨t, rfl, rfl, hk⟩
  · cases hs

section Expect

variable {F : Phrase β} {kind : Kind} {ts : List Token}

theorem Predicts.expect {k : Token → Reading β}
    (hk : ∀ t rest, ts = t :: rest → t.kind = kind →
      Predicts roomy (fun q b => F (t :: q) b) (k t) rest)
    (hroom : roomy → ∀ t : Token, t.kind = kind → ∃ s b, F (t :: s) b) :
    Predicts roomy F (reading (Reader.expect kind) >>= k) ts := by
  apply (predicts_expect kind ts).bind_single
  · intro t a rest hts ht
    rw [ht.1]
    exact hk t rest hts ht.2
  · intro hroomy t a ht
    exact hroom hroomy t ht.2

theorem Predicts.close {b : β} (h : ∀ t : Token, t.kind = kind → F [t] b) :
    Predicts roomy F (reading (Reader.expect kind) >>= fun _ => Pure.pure b) ts := by
  apply (predicts_expect kind ts).map_single
  intro t a ht
  exact h t ht.2

end Expect

theorem predicts_symbol (ts : List Token) :
    Predicts roomy (Single fun t name => t.kind = .symbol ∧ name = t.raw) (reading symbol) ts := by
  rw [reading_symbol]
  apply predicts_single ⟨sample .symbol "", _, rfl, rfl⟩
  intro t next hs
  split at hs
  · next hk =>
    cases hs
    exact ⟨t.raw, rfl, hk, rfl⟩
  · cases hs

section Symbol

variable {F : Phrase β} {ts : List Token}

theorem Predicts.symbol {k : String → Reading β}
    (hk : ∀ t rest, ts = t :: rest → t.kind = .symbol →
      Predicts roomy (fun q b => F (t :: q) b) (k t.raw) rest)
    (hroom : roomy → ∀ t : Token, t.kind = .symbol → ∃ s b, F (t :: s) b) :
    Predicts roomy F (reading Reader.symbol >>= k) ts := by
  apply (predicts_symbol ts).bind_single
  · intro t name rest hts ht
    rw [ht.2]
    exact hk t rest hts ht.1
  · intro hroomy t name ht
    exact hroom hroomy t ht.1

theorem Predicts.lastSymbol {f : String → β} (h : ∀ t : Token, t.kind = .symbol → F [t] (f t.raw)) :
    Predicts roomy F (reading Reader.symbol >>= fun name => Pure.pure (f name)) ts := by
  apply (predicts_symbol ts).map_single
  intro t name ht
  rw [ht.2]
  exact h t ht.1

end Symbol

theorem predicts_intStep {G : Phrase α} {t : Token} {result : Int64 → α} {next : Reading α}
    {ts : List Token} (hs : intStep t result = .ok next)
    (h : ∀ n, Grammar.Denotes t n → G [] (result n)) :
    Predicts roomy G next ts := by
  rw [intStep] at hs
  split at hs
  · next n hn => cases hs; exact Predicts.pure (h n (Grammar.denotes_iff.mpr hn))
  · cases hs

theorem predicts_floatStep {G : Phrase α} {t : Token} {result : Float → α} {next : Reading α}
    {ts : List Token} (hs : floatStep t result = .ok next)
    (h : ∀ x, Decimal.readFloat? (digits t) = some x → G [] (result x)) :
    Predicts roomy G next ts := by
  rw [floatStep] at hs
  split at hs
  · next x hx => cases hs; exact Predicts.pure (h x hx)
  · cases hs

/-- Whether each new item is allowed after those before it, the latest of which is first. -/
def Admits (allowed : List α → α → Prop) : List α → List α → Prop
  | _, [] => True
  | earlier, a :: as => allowed earlier a ∧ Admits allowed (a :: earlier) as

/-- New items after earlier ones, up to the closing token. -/
def Enclosed (close : Kind) (item : Phrase α) (allowed : List α → α → Prop) (earlier : List α) :
    Phrase (List α) := fun ts as =>
  ∃ p t new, ts = p ++ [t] ∧ t.kind = close ∧ as = earlier.reverse ++ new ∧
    Grammar.Items item p new ∧ Admits allowed earlier new

theorem predicts_separated {close : Kind} {item : List α → Reader α} {phrase : Phrase α}
    {allowed : List α → α → Prop}
    (hitem : ∀ earlier ts, Predicts roomy (fun p a => phrase p a ∧ allowed earlier a)
      (reading (item earlier)) ts) (earlier : List α) (ts : List Token) :
    Predicts roomy (Enclosed close phrase allowed earlier)
      (reading (separated close item earlier)) ts := by
  induction hn : ts.length using Nat.strongRecOn generalizing earlier ts with
  | ind n ih =>
    have closing (p : List Token) (new : List α) (hp : Grammar.Items phrase p new)
        (ha : Admits allowed earlier new) (t : Token) (ht : t.kind = close) :
        Enclosed close phrase allowed earlier (p ++ [t]) (earlier.reverse ++ new) :=
      ⟨p, t, new, rfl, ht, rfl, hp, ha⟩
    rw [reading_separated]
    apply Predicts.look firstKind_congr
    split
    · apply Predicts.close
      intro t ht
      simpa using closing [] [] .nil trivial t ht
    · apply Predicts.bind (hitem earlier ts)
      · intro a p rest hts hread hitem
        obtain ⟨hp, ha⟩ := hitem
        have shorter := reading_length hread
        apply Predicts.ifNext
        · intro comma rest' hrest hc
          subst hrest
          have more := ih rest'.length (by simp at shorter; omega) (a :: earlier) rest' rfl
          apply more.mono
          intro q' items hitems
          obtain ⟨q, t, new, rfl, ht, rfl, hq, hadm⟩ := hitems
          have whole := closing (p ++ comma :: q) (a :: new) (.cons hp hc hq) ⟨ha, hadm⟩ t ht
          simpa using whole
        · intro _
          apply Predicts.close
          intro t ht
          simpa using closing p [a] (.last hp) ⟨ha, trivial⟩ t ht
      · intro _ p a hitem
        obtain ⟨hp, ha⟩ := hitem
        exact ⟨[sample close ""], _, closing p [a] (.last hp) ⟨ha, trivial⟩ _ rfl⟩

theorem predicts_items {close : Kind} {item : Reader α} {phrase : Phrase α}
    (hitem : ∀ ts, Predicts roomy phrase (reading item) ts) (ts : List Token) :
    Predicts roomy (fun p as => ∃ q t, p = q ++ [t] ∧ t.kind = close ∧ Grammar.Items phrase q as)
      (reading (separated close (fun _ => item) [])) ts := by
  have any (earlier : List α) (ts : List Token) :
      Predicts roomy (fun p a => phrase p a ∧ True) (reading item) ts :=
    (hitem ts).mono fun _ _ hp => ⟨hp, trivial⟩
  apply (predicts_separated any [] ts).mono
  intro p as hp
  obtain ⟨q, t, new, rfl, ht, rfl, hq, _⟩ := hp
  exact ⟨q, t, rfl, ht, hq⟩

end Reader

end SchemaLang
