import Mathlib.Data.Fintype.EquivFin
import SchemaLang.Proofs.Grammar.Operators
import SchemaLang.Proofs.Predictive.Basic
import SchemaLang.Proofs.Reading.Expr

namespace SchemaLang.Reader

open Reading

variable {roomy : Prop} {imported : List String}

structure Level.Predicts (roomy : Prop) (L : Grammar.Level) (inner : Level) : Prop where
  climb : ∀ least ts, Reader.Predicts roomy (L.climb least) (reading (inner.climb least)) ts
  negated : ∀ ts, Reader.Predicts roomy L.negated (reading inner.negated) ts
  /-- An index that could be taken is taken. -/
  closed : ∀ ts e rest, reading inner.negated ts = .ok (e, rest) →
    firstKind rest ≠ .mark .leftBracket
  /-- An operator that could be taken is taken. -/
  stops : ∀ least ts e rest, reading (inner.climb least) ts = .ok (e, rest) →
    Below least (firstKind rest)
  climbs : roomy → ∀ least, ∃ s e, L.climb least s e

variable {L : Grammar.Level} {inner : Level}

theorem Level.Predicts.expression (h : inner.Predicts roomy L) (ts : List Token) :
    Reader.Predicts roomy L.expression (reading inner.expression) ts := h.climb 0 ts

theorem Level.Predicts.expresses (h : inner.Predicts roomy L) (hroomy : roomy) :
    ∃ s e, L.expression s e := h.climbs hroomy 0

theorem predicts_fieldName (ts : List Token) :
    Predicts roomy (Single fun t name => t.isWord ∧ name = t.raw) (reading fieldName) ts := by
  have word : (sample .identifier "a").isWord = true := by decide
  rw [reading_fieldName]
  apply predicts_single ⟨sample .identifier "a", _, word, rfl⟩
  intro t next hs
  split at hs
  · next hw =>
    cases hs
    exact ⟨t.raw, rfl, hw, rfl⟩
  · cases hs

theorem predicts_fieldNames (ts : List Token) :
    Predicts roomy Grammar.Fields (reading fieldNames) ts := by
  induction hn : ts.length using Nat.strongRecOn generalizing ts with
  | ind n ih =>
    rw [reading_fieldNames]
    refine Predicts.ifNext ?_ fun _ => Predicts.pure .nil
    intro dot rest hts hd
    subst hts
    apply (predicts_fieldName rest).bind_single
    · intro t name rest' hrest ht
      obtain ⟨hw, rfl⟩ := ht
      subst hrest
      apply (ih rest'.length (by simp at hn; omega) rest' rfl).map
      intro p names hp
      exact .cons hd hw hp
    · intro _ t name ht
      obtain ⟨hw, rfl⟩ := ht
      exact ⟨[], _, .cons hd hw .nil⟩

/-- One name is an input, and more are a path. -/
def pathExpr (names : List String) : Expr :=
  match names with
  | [name] => .input name
  | names => .inputPath names

theorem predicts_inputPath (ts : List Token) :
    Predicts roomy (fun p e => ∃ name names, Grammar.Fields p (name :: names) ∧
      e = pathExpr (name :: names)) (reading inputPath) ts := by
  have word : (sample .identifier "a").isWord = true := by decide
  have one : Grammar.Fields [sample (.mark .dot) "", sample .identifier "a"] ["a"] :=
    .cons rfl word .nil
  rw [reading_inputPath]
  refine Predicts.ifNext ?_ fun _ => Predicts.refuse fun _ => ⟨_, _, "a", [], one, rfl⟩
  intro dot rest _ hd
  apply (predicts_fieldName rest).bind_single
  · intro t name rest' _ ht
    obtain ⟨hw, rfl⟩ := ht
    apply (predicts_fieldNames rest').map
    intro p names hp
    refine ⟨t.raw, names, .cons hd hw hp, ?_⟩
    cases names <;> rfl
  · intro _ t name ht
    obtain ⟨hw, rfl⟩ := ht
    exact ⟨[], _, t.raw, [], .cons hd hw .nil, rfl⟩

theorem exists_fresh (keys : List String) : ∃ key, key ∉ keys := by
  obtain ⟨key, h⟩ := Infinite.exists_notMem_finset keys.toFinset
  exact ⟨key, by simpa using h⟩

theorem predicts_keyedArgument (h : inner.Predicts roomy L) (earlier : List String)
    {ts : List Token} (hts : firstKind ts = .label) :
    Predicts roomy (fun p q => Grammar.Keyed L p q ∧ q.1 ∉ earlier)
      (reading (keyedArgument inner earlier)) ts := by
  rw [reading_keyedArgument]
  apply Predicts.take
  · intro hroomy
    obtain ⟨key, hkey⟩ := exists_fresh earlier
    obtain ⟨s, e, hs⟩ := h.expresses hroomy
    exact ⟨sample .label key :: s, (key, e), .mk rfl hs, hkey⟩
  · intro t rest next ht hs
    subst ht
    split at hs
    · cases hs
    · next hk =>
      cases hs
      apply (h.expression rest).map
      intro p e hp
      exact ⟨.mk hts hp, hk⟩

/-- Whether an argument may follow the earlier ones. -/
def Argument.Allowed (earlier : List Argument) : Argument → Prop
  | .positional _ => Argument.keys earlier = []
  | .keyed key _ => key ∉ Argument.keys earlier

theorem predicts_argument (h : inner.Predicts roomy L) (earlier : List Argument)
    (ts : List Token) :
    Predicts roomy (fun p a => Grammar.Argument L p a ∧ Argument.Allowed earlier a)
      (reading (argument inner earlier)) ts := by
  have keyed (p : List Token) (q : String × Expr)
      (hq : Grammar.Keyed L p q ∧ q.1 ∉ Argument.keys earlier) :
      Grammar.Argument L p (.keyed q.1 q.2) ∧ Argument.Allowed earlier (.keyed q.1 q.2) :=
    ⟨.keyed hq.1, hq.2⟩
  rw [reading_argument]
  apply Predicts.look firstKind_congr
  split
  · next hl =>
    exact (predicts_keyedArgument h _ hl).map keyed
  · split
    · apply Predicts.refuse
      intro hroomy
      obtain ⟨key, hkey⟩ := exists_fresh (Argument.keys earlier)
      obtain ⟨s, e, hs⟩ := h.expresses hroomy
      exact ⟨sample .label key :: s, _, keyed _ (key, e) ⟨.mk rfl hs, hkey⟩⟩
    · next hk =>
      have unkeyed (e : Expr) : Argument.Allowed earlier (.positional e) := by
        simpa [Argument.Allowed] using hk
      apply (h.expression ts).map
      intro p e hp
      exact ⟨.positional hp, unkeyed e⟩

/-- Arguments that are each allowed after those before them: first some without keys, then some
with different keys. -/
theorem exists_of_admits {earlier args : List Argument}
    (h : Admits Argument.Allowed earlier args) :
    ∃ (es : List Expr) (opts : List (String × Expr)),
      args = es.map Argument.positional ++ opts.map (fun o => Argument.keyed o.1 o.2) ∧
      (opts.map Prod.fst).Nodup ∧ (∀ k ∈ opts.map Prod.fst, k ∉ Argument.keys earlier) ∧
      (es ≠ [] → Argument.keys earlier = []) := by
  induction args generalizing earlier with
  | nil => exact ⟨[], [], rfl, List.nodup_nil, by simp, by simp⟩
  | cons a args ih =>
    obtain ⟨es, opts, rfl, hd, hk, he⟩ := ih h.2
    cases a with
    | positional e =>
      have none : Argument.keys earlier = [] := h.1
      refine ⟨e :: es, opts, rfl, hd, ?_, fun _ => none⟩
      simp [none]
    | keyed key e =>
      have fresh : key ∉ Argument.keys earlier := h.1
      have keys : Argument.keys (.keyed key e :: earlier) = key :: Argument.keys earlier := rfl
      rw [keys] at hk he
      have empty : es = [] := by
        by_contra hne
        exact List.cons_ne_nil _ _ (he hne)
      subst empty
      refine ⟨[], (key, e) :: opts, rfl, ?_, ?_, by simp⟩
      · refine List.nodup_cons.mpr ⟨fun hm => ?_, hd⟩
        exact hk key hm (List.mem_cons_self ..)
      · intro k hm
        rcases List.mem_cons.mp hm with rfl | hm
        · exact fresh
        · exact fun hke => hk k hm (List.mem_cons_of_mem _ hke)

theorem call_positional_append_keyed (function : String) (es : List Expr)
    (opts : List (String × Expr)) :
    Argument.call function (es.map Argument.positional ++
      opts.map fun o => Argument.keyed o.1 o.2) = .call function es opts := by
  have first (es : List Expr) :
      (es.map Argument.positional).filterMap Argument.positional? = es ∧
      (es.map Argument.positional).filterMap Argument.keyed? = [] := by
    induction es with
    | nil => exact ⟨rfl, rfl⟩
    | cons e es ih => exact ⟨congrArg (e :: ·) ih.1, ih.2⟩
  have second (opts : List (String × Expr)) :
      (opts.map fun o => Argument.keyed o.1 o.2).filterMap Argument.positional? = [] ∧
      (opts.map fun o => Argument.keyed o.1 o.2).filterMap Argument.keyed? = opts := by
    induction opts with
    | nil => exact ⟨rfl, rfl⟩
    | cons o opts ih => exact ⟨ih.1, congrArg (o :: ·) ih.2⟩
  simp only [Argument.call, List.filterMap_append, (first es).1, (first es).2, (second opts).1,
    (second opts).2, List.append_nil, List.nil_append]

theorem predicts_arguments (h : inner.Predicts roomy L) (ts : List Token) :
    Predicts roomy (fun p args => ∃ es opts, Grammar.Arguments L p (es, opts) ∧
      args = es.map Argument.positional ++ opts.map fun o => Argument.keyed o.1 o.2)
      (reading (arguments inner)) ts := by
  apply (predicts_separated (predicts_argument h) [] ts).mono
  intro q args hargs
  obtain ⟨p, close, new, rfl, hc, rfl, hp, hadm⟩ := hargs
  obtain ⟨es, opts, rfl, hd, _⟩ := exists_of_admits hadm
  exact ⟨es, opts, .mk hp hd hc, by simp⟩

theorem predicts_importArgument (h : inner.Predicts roomy L) (function : String)
    (earlier : List (String × Expr)) (ts : List Token) :
    Predicts roomy (fun p q => Grammar.Keyed L p q ∧ q.1 ∉ earlier.map Prod.fst)
      (reading (importArgument inner function earlier)) ts := by
  rw [reading_importArgument]
  apply Predicts.look firstKind_congr
  split
  · next hl => exact predicts_keyedArgument h _ hl
  · apply Predicts.refuse
    intro hroomy
    obtain ⟨key, hkey⟩ := exists_fresh (earlier.map Prod.fst)
    obtain ⟨s, e, hs⟩ := h.expresses hroomy
    exact ⟨sample .label key :: s, (key, e), .mk rfl hs, hkey⟩

theorem nodup_of_admits {earlier args : List (String × Expr)}
    (h : Admits (fun earlier q => q.1 ∉ earlier.map Prod.fst) earlier args) :
    (args.map Prod.fst).Nodup ∧ ∀ k ∈ args.map Prod.fst, k ∉ earlier.map Prod.fst := by
  induction args generalizing earlier with
  | nil => exact ⟨List.nodup_nil, by simp⟩
  | cons q args ih =>
    obtain ⟨hd, hk⟩ := ih h.2
    refine ⟨List.nodup_cons.mpr ⟨fun hm => hk q.1 hm (List.mem_cons_self ..), hd⟩, ?_⟩
    intro k hm
    rcases List.mem_cons.mp hm with rfl | hm
    · exact h.1
    · exact fun hke => hk k hm (List.mem_cons_of_mem _ hke)

/-- What may follow a name at the start of an operand. -/
def NameTail (imported : List String) (L : Grammar.Level) (t : Token) : Phrase Expr := fun p e =>
  t.kind = .identifier → Grammar.Primary imported L (t :: p) e

theorem predicts_named (h : inner.Predicts roomy L) (t : Token) (ts : List Token) :
    Predicts roomy (NameTail imported L t) (reading (named imported inner t.raw)) ts := by
  rw [reading_named]
  refine Predicts.ifNext ?_ fun _ => Predicts.pure fun ht => .reference ht
  intro op rest _ ho
  split
  · next href =>
    apply Predicts.symbol
    · intro name rest' _ hn
      apply Predicts.close
      intro close hc ht
      exact .ref ht href ho hn hc
    · intro _ name hn
      exact ⟨[sample (.mark .rightParen) ""], _, fun ht => .ref ht href ho hn rfl⟩
  · next href =>
    split
    · next hi =>
      apply (predicts_separated (predicts_importArgument h t.raw) [] rest).map
      intro q args hargs ht
      obtain ⟨p, close, new, rfl, hc, rfl, hp, hadm⟩ := hargs
      exact .importCall ht href hi ho hp (nodup_of_admits hadm).1 hc
    · next hi =>
      apply (predicts_arguments h rest).map
      intro p args hargs ht
      obtain ⟨es, opts, hp, rfl⟩ := hargs
      rw [call_positional_append_keyed]
      exact .call ht href hi ho hp

def FunctionTail (imported : List String) (L : Grammar.Level) (t : Token) : Phrase Expr :=
  fun p e => t.kind = .keyword .fn → Grammar.Primary imported L (t :: p) e

theorem predicts_functionCall (h : inner.Predicts roomy L) (t : Token) (ts : List Token) :
    Predicts roomy (FunctionTail imported L t) (reading (functionCall inner)) ts := by
  have close : (sample (.mark .rightParen) "").kind = .mark .rightParen := rfl
  rw [reading_functionCall]
  apply Predicts.expect
  · intro op rest _ ho
    apply Predicts.symbol
    · intro name rest' _ hn
      apply Predicts.ifNext
      · intro comma rest'' _ hc
        apply (predicts_arguments h rest'').map
        intro p args hargs ht
        obtain ⟨es, opts, hp, rfl⟩ := hargs
        rw [call_positional_append_keyed]
        exact .functionCall ht ho hn hc hp
      · intro _
        apply Predicts.close
        intro close hc ht
        exact .function ht ho hn hc
    · intro _ name hn
      exact ⟨[sample (.mark .rightParen) ""], _, fun ht => .function ht ho hn close⟩
  · intro _ op ho
    exact ⟨[sample .symbol "", sample (.mark .rightParen) ""], _,
      fun ht => .function ht ho rfl close⟩

theorem predicts_hashKey (ts : List Token) :
    Predicts roomy Grammar.HashKey (reading hashKey) ts := by
  have arrow {t : Token} {key : Literal} (rest : List Token)
      (h : ∀ a : Token, a.kind = .mark .arrow → Grammar.HashKey [t, a] key) :
      Predicts roomy (fun q a => Grammar.HashKey (t :: q) a) (arrowAfter t key) rest := by
    refine Predicts.ifNext ?_ fun _ => Predicts.refuse fun _ => ?_
    · intro a _ _ ha
      exact Predicts.pure (h a ha)
    · exact ⟨[sample (.mark .arrow) ""], key, h _ rfl⟩
  rw [reading_hashKey]
  refine Predicts.take (fun _ => ⟨[sample .label ""], _, .label rfl⟩) ?_
  intro t rest next _ hs
  split at hs
  · next hk => cases hs; exact Predicts.pure (.label hk)
  · next hk => cases hs; exact arrow rest fun a ha => .string hk ha
  · next hk => cases hs; exact arrow rest fun a ha => .symbol hk ha
  · cases hs

theorem predicts_hashPair (h : inner.Predicts roomy L) (ts : List Token) :
    Predicts roomy (Grammar.HashPair L) (reading (hashPair inner)) ts := by
  rw [reading_hashPair]
  apply Predicts.bind (predicts_hashKey ts)
  · intro key p rest _ _ hp
    apply (h.expression rest).map
    intro q e hq
    exact .mk hp hq
  · intro hroomy p key hp
    obtain ⟨s, e, hs⟩ := h.expresses hroomy
    exact ⟨s, _, .mk hp hs⟩

theorem exists_primary : Grammar.Primary imported L [sample .integer "1"] (.int 1) :=
  .integer rfl (Grammar.denotes_iff.mpr (by decide))

theorem predicts_primary (h : inner.Predicts roomy L) (ts : List Token)
    (hts : firstKind ts ≠ .operator .subtract) :
    Predicts roomy (Grammar.Primary imported L) (reading (primary imported inner)) ts := by
  have close (m : Mark) : (sample (.mark m) "").kind = .mark m := rfl
  rw [reading_primary]
  by_cases hi : ∃ t rest, ts = t :: rest ∧ t.kind = .type .index ∧ firstKind rest ≠ .mark .leftParen
  · obtain ⟨t, rest, rfl, ht, hp⟩ := hi
    refine Predicts.of_looksPast ⟨some t, .expectedExpression⟩ ?_ rfl ?_ ?_
    · simp only [take, primaryStep, ht]
      exact ifNext_of_ne hp
    · exact Or.inr (Or.inl ⟨rfl, ht, hp⟩)
    · exact fun _ => ⟨_, _, exists_primary⟩
  · refine Predicts.take (fun _ => ⟨_, _, exists_primary⟩) ?_
    intro t rest next htoken hs
    subst htoken
    rw [primaryStep] at hs
    split at hs
    · next hk => exact predicts_intStep hs fun n hn => .integer hk hn
    · next hk => exact predicts_floatStep hs fun x hx => .float hk hx
    · next hk => cases hs; exact Predicts.pure (.string hk)
    · next hk => cases hs; exact Predicts.pure (.boolean hk)
    · next hk => cases hs; exact Predicts.pure (.symbol hk)
    · next hk =>
      split at hs
      · next hc => cases hs; exact Predicts.pure (.infinity hk hc)
      · cases hs
    · next hk => exact absurd hk hts
    · next hk =>
      cases hs
      apply (predicts_inputPath rest).mono
      intro p e hpath
      obtain ⟨name, names, hp, rfl⟩ := hpath
      cases names with
      | nil => exact .input hk hp
      | cons second more => exact .inputPath hk hp
    · next hk =>
      cases hs
      exact (predicts_named h t rest).mono fun p e hp => hp hk
    · next hk =>
      cases hs
      exact (predicts_functionCall h t rest).mono fun p e hp => hp hk
    · next hk =>
      cases hs
      apply Predicts.ifNext
      · intro op rest' _ ho
        apply Predicts.symbol
        · intro name rest'' _ hn
          apply Predicts.close
          intro u hu
          exact .index hk ho hn hu
        · intro _ name hn
          exact ⟨[_], _, .index hk ho hn (close .rightParen)⟩
      · intro hne
        refine absurd ⟨t, rest, rfl, hk, ?_⟩ hi
        cases rest with
        | nil => decide
        | cons u us => exact hne u us rfl
    · next hk =>
      cases hs
      apply Predicts.bind (h.expression rest)
      · intro e p rest' _ _ hp
        apply Predicts.close
        intro u hu
        exact .group hk hp hu
      · intro _ p e hp
        exact ⟨[_], e, .group hk hp (close .rightParen)⟩
    · next hk =>
      cases hs
      apply (predicts_items h.expression rest).map
      intro q es hes
      obtain ⟨p, u, rfl, hu, hp⟩ := hes
      exact .array hk hp hu
    · next hk =>
      cases hs
      apply (predicts_items (predicts_hashPair h) rest).map
      intro q pairs hpairs
      obtain ⟨p, u, rfl, hu, hp⟩ := hpairs
      exact .hash hk hp hu
    · cases hs

theorem predicts_indices (h : inner.Predicts roomy L) (e : Expr) (ts : List Token) :
    Predicts roomy (Grammar.Indices L e) (reading (indices inner e)) ts := by
  induction hn : ts.length using Nat.strongRecOn generalizing e ts with
  | ind n ih =>
    rw [reading_indices]
    refine Predicts.ifNext ?_ fun _ => Predicts.pure .nil
    intro op rest hts ho
    subst hts
    apply Predicts.bind (h.expression rest)
    · intro i p rest' _ hread hp
      have shorter := reading_length hread
      apply Predicts.expect
      · intro close rest'' hrest hc
        subst hrest
        have more := ih rest''.length (by simp at shorter hn; omega)
          (.apply "at" [e, i]) rest'' rfl
        apply more.mono
        intro q e' hq
        simpa using Grammar.Indices.cons ho hp hc hq
      · intro _ close hc
        exact ⟨[], _, .cons ho hp hc .nil⟩
    · intro _ p i hp
      exact ⟨[sample (.mark .rightBracket) ""], _, .cons ho hp rfl .nil⟩

theorem indices_stop {e e' : Expr} {ts rest : List Token}
    (h : reading (indices inner e) ts = .ok (e', rest)) : firstKind rest ≠ .mark .leftBracket := by
  induction hn : ts.length using Nat.strongRecOn generalizing e ts with
  | ind n ih =>
    rw [reading_indices] at h
    by_cases hb : firstKind ts = .mark .leftBracket
    · cases ts with
      | nil => cases hb
      | cons t us =>
        rw [ifNext_of_eq hb] at h
        obtain ⟨i, mid, hi, h⟩ := bind_eq_ok h
        obtain ⟨close, mid', hc, h⟩ := bind_eq_ok h
        have shorter := reading_length hi
        have shorter' := reading_length hc
        exact ih mid'.length (by simp at hn; omega) h rfl
    · rw [ifNext_of_ne hb] at h
      cases h
      exact hb

theorem operand_stops {e : Expr} {ts rest : List Token}
    (h : reading (operand imported inner) ts = .ok (e, rest)) :
    firstKind rest ≠ .mark .leftBracket := by
  rw [reading_operand] at h
  obtain ⟨e', mid, _, h⟩ := bind_eq_ok h
  exact indices_stop h

theorem predicts_operand (h : inner.Predicts roomy L) (ts : List Token) :
    Predicts roomy (Grammar.Operand imported L) (reading (operand imported inner)) ts := by
  by_cases hm : firstKind ts = .operator .subtract
  · cases ts with
    | nil => cases hm
    | cons t rest =>
      apply Predicts.cons (reading_operand_of_minus hm)
      apply Predicts.bind (h.negated rest)
      · intro e p rest' _ hread hp
        -- The operand of the minus has taken the indices, so none is left for the whole.
        refine Predicts.congr_head (fun us hu => ?_)
          (Predicts.pure (by simpa using Grammar.Operand.negation hm hp))
        rw [reading_indices]
        exact ifNext_of_ne (firstKind_congr us rest' hu ▸ h.closed _ _ _ hread)
      · intro _ p e hp
        exact ⟨[], _, by simpa using Grammar.Operand.negation hm hp⟩
  · rw [reading_operand]
    apply Predicts.bind (predicts_primary h ts hm)
    · intro e p rest _ _ hp
      exact (predicts_indices h e rest).mono fun q e' hq => .mk hp hq
    · intro _ p e hp
      exact ⟨[], e, .mk hp .nil⟩

theorem predicts_chain (h : inner.Predicts roomy L) {least ceiling : Nat} (left : Expr)
    (ts : List Token) (hts : Below ceiling (firstKind ts)) :
    Predicts roomy (Grammar.Links L least ceiling left) (reading (chain inner least left)) ts := by
  induction hn : ts.length using Nat.strongRecOn generalizing ceiling left ts with
  | ind n ih =>
    by_cases hb : Below least (firstKind ts)
    · refine Predicts.congr_head (fun us hu => ?_) (Predicts.pure .nil)
      rw [← firstKind_congr us ts hu] at hb
      exact reading_chain_of_below hb
    · obtain ⟨t, rest, op, rfl, ht, hle⟩ := exists_of_not_below hb
      apply Predicts.cons (reading_chain_of_tight ht hle)
      rw [← op.callee_eq_function]
      apply Predicts.bind (h.climb op.rightPrecedence rest)
      · intro right p rest' _ hread hp
        have shorter := reading_length hread
        have more := ih rest'.length (by simp at hn; omega) (.apply op.callee [left, right])
          rest' (h.stops _ _ _ _ hread) rfl
        exact more.mono fun q e hq => .cons ht hle (hts op ht) hp hq
      · intro _ p right hp
        refine ⟨[], .apply op.callee [left, right], ?_⟩
        exact .cons ht hle (hts op ht) hp .nil

theorem chain_stops {least : Nat} {left e : Expr} {ts rest : List Token}
    (h : reading (chain inner least left) ts = .ok (e, rest)) : Below least (firstKind rest) := by
  induction hn : ts.length using Nat.strongRecOn generalizing left ts with
  | ind n ih =>
    by_cases hb : Below least (firstKind ts)
    · rw [reading_chain_of_below hb] at h
      cases h
      exact hb
    · obtain ⟨t, us, op, rfl, ht, hle⟩ := exists_of_not_below hb
      rw [reading_chain_of_tight ht hle] at h
      obtain ⟨right, mid, hread, hmore⟩ := bind_eq_ok h
      have shorter := reading_length hread
      exact ih mid.length (by simp at hn; omega) hmore rfl

theorem startsWithSigned_congr (us vs : List Token) (h : us.head? = vs.head?) :
    startsWithSigned us = startsWithSigned vs := by
  cases us with
  | nil => rw [List.head?_eq_none_iff.mp h.symm]
  | cons t us =>
    obtain ⟨rest, rfl⟩ := List.head?_eq_some_iff.mp h.symm
    rfl

theorem predicts_climb (h : inner.Predicts roomy L) (least : Nat) (ts : List Token) :
    Predicts roomy (Grammar.Binary imported L least) (reading (climb imported inner least)) ts := by
  rw [reading_climb]
  apply Predicts.bind (predicts_operand h ts)
  · intro left p rest _ _ hp
    have below : Below Operator.ceiling (firstKind rest) := fun op _ => op.precedence_lt_ceiling
    apply Predicts.bind (predicts_chain h left rest below)
    · intro e q rest' _ _ hq
      have whole : Grammar.Binary imported L least (p ++ q) e :=
        Grammar.binary_iff_links.mpr ⟨p, q, left, rfl, hp, hq⟩
      apply Predicts.look startsWithSigned_congr
      split
      · exact Predicts.refuse fun _ => ⟨[], e, by simpa using whole⟩
      · exact Predicts.pure (by simpa using whole)
    · intro _ q e hq
      exact ⟨[], e, by simpa using Grammar.binary_iff_links.mpr ⟨p, q, left, rfl, hp, hq⟩⟩
  · intro _ p e hp
    exact ⟨[], e, by simpa using Grammar.Binary.operand hp⟩

theorem climb_stops {least : Nat} {e : Expr} {ts rest : List Token}
    (h : reading (climb imported inner least) ts = .ok (e, rest)) :
    Below least (firstKind rest) := by
  rw [reading_climb] at h
  obtain ⟨left, mid, _, h⟩ := bind_eq_ok h
  obtain ⟨e', mid', hchain, h⟩ := bind_eq_ok h
  rw [look_bind] at h
  split at h
  · cases h
  · cases h
    exact chain_stops hchain

/-- A reader one level out follows the phrases one level out. -/
theorem Level.Predicts.next (h : inner.Predicts roomy L) :
    Level.Predicts roomy ⟨Grammar.Binary imported L, Grammar.Operand imported L⟩
      ⟨Reader.climb imported inner, operand imported inner⟩ where
  climb := predicts_climb h
  negated := predicts_operand h
  closed _ _ _ hread := operand_stops hread
  stops _ _ _ _ hread := climb_stops hread
  climbs _ _ := ⟨_, _, .operand (.mk exists_primary .nil)⟩

/-- Readers that may open no level refuse the first token. -/
theorem levels_zero_predicts (climbs : roomy → ∀ least, ∃ s e, L.climb least s e)
    (negates : roomy → ∃ s e, L.negated s e) :
    (levels imported 0).Predicts roomy L where
  climb least _ := Predicts.refuse fun hroomy => climbs hroomy least
  negated _ := Predicts.refuse negates
  closed _ _ _ hread := by cases hread
  stops _ _ _ _ hread := by cases hread
  climbs := climbs

/-- Readers follow the grammar of as many levels. -/
theorem levels_predicts (imported : List String) (room : Nat) :
    (levels imported room).Predicts False (Grammar.levels imported room) := by
  induction room with
  | zero => exact levels_zero_predicts False.elim False.elim
  | succ room ih => exact ih.next

/-- With one level more than the readers may open, whatever they have read can be completed. -/
theorem levels_predicts_roomy (imported : List String) (room : Nat) :
    (levels imported room).Predicts True (Grammar.levels imported (room + 1)) := by
  induction room with
  | zero =>
    refine levels_zero_predicts (fun _ _ => ?_) fun _ => ?_
    · exact ⟨_, _, .operand (.mk exists_primary .nil)⟩
    · exact ⟨_, _, .mk exists_primary .nil⟩
  | succ room ih => exact ih.next

end SchemaLang.Reader
