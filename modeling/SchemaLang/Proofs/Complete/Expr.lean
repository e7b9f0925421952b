import SchemaLang.Proofs.Complete.Basic
import SchemaLang.Proofs.Predictive.Expr

namespace SchemaLang

/-- Whether a kind ends an expression wherever it stands. -/
def Kind.closes : Kind → Bool
  | .mark .comma | .mark .rightParen | .mark .rightBracket | .mark .rightBrace => true
  | .keyword _ => true
  | _ => false

namespace Reader

open Reading

/-- Nothing that would go on a path or a name stands first. -/
structure Apart (ts : List Token) : Prop where
  dot : firstKind ts ≠ .mark .dot
  paren : firstKind ts ≠ .mark .leftParen

/-- Nothing that would go on an operand stands first. -/
structure Ends (ts : List Token) : Prop extends Apart ts where
  bracket : firstKind ts ≠ .mark .leftBracket

/-- Nothing that would go on an expression between operators of a precedence stands first. -/
structure Free (least : Nat) (ts : List Token) : Prop where
  ends : Ends ts
  unsigned : startsWithSigned ts = false
  below : Below least (firstKind ts)

theorem ends_of_operator {t : Token} {op : Operator} (h : t.kind = .operator op)
    (rest : List Token) : Ends (t :: rest) := by
  have kind : firstKind (t :: rest) = .operator op := h
  exact ⟨⟨by simp [kind], by simp [kind]⟩, by simp [kind]⟩

theorem free_of_closes {least : Nat} {t : Token} (h : t.kind.closes) (rest : List Token) :
    Free least (t :: rest) := by
  have kind : (firstKind (t :: rest)).closes = true := h
  refine ⟨⟨⟨?_, ?_⟩, ?_⟩, ?_, ?_⟩
  · intro he; rw [he] at kind; cases kind
  · intro he; rw [he] at kind; cases kind
  · intro he; rw [he] at kind; cases kind
  · have integer : t.kind ≠ .integer := by intro he; rw [he] at h; cases h
    have float : t.kind ≠ .float := by intro he; rw [he] at h; cases h
    simp [startsWithSigned, integer, float]
  · intro op he; rw [he] at kind; cases kind

structure Level.Takes (L : Grammar.Level) (inner : Level) : Prop where
  climb : ∀ least, Reader.Takes (L.climb least) (Free least) (reading (inner.climb least))
  negated : Reader.Takes L.negated Ends (reading inner.negated)
  starts : ∀ least p e, L.climb least p e → (firstKind p).startsExpression

variable {imported : List String} {L : Grammar.Level} {inner : Level}

theorem Level.Takes.expression (h : inner.Takes L) :
    Reader.Takes L.expression (Free 0) (reading inner.expression) := h.climb 0

/-- An expression does not start with a kind that starts none. -/
theorem Level.Takes.firstKind_ne (h : inner.Takes L) {kind : Kind}
    (hk : kind.startsExpression = false) {p : List Token} {e : Expr} (hp : L.expression p e)
    (rest : List Token) : firstKind (p ++ rest) ≠ kind := by
  have starts := h.starts 0 p e hp
  have nonempty : p ≠ [] := by
    intro empty
    subst empty
    cases starts
  rw [firstKind_append nonempty]
  intro same
  rw [← same, starts] at hk
  cases hk

theorem fieldNames_of_fields {p : List Token} {names : List String} (hp : Grammar.Fields p names)
    {rest : List Token} (hrest : firstKind rest ≠ .mark .dot) :
    reading fieldNames (p ++ rest) = .ok (names, rest) := by
  induction hp with
  | nil =>
    rw [reading_fieldNames]
    exact ifNext_of_ne hrest
  | @cons dot t p names hd hw _ ih =>
    have word : reading fieldName (t :: (p ++ rest)) = .ok (t.raw, p ++ rest) := by
      rw [reading_fieldName, take_of_ok (if_pos hw)]
      rfl
    rw [List.cons_append, List.cons_append, reading_fieldNames, ifNext_of_eq hd, bind_of_ok word,
      bind_of_ok ih]
    rfl

theorem inputPath_of_fields {p : List Token} {name : String} {names : List String}
    (hp : Grammar.Fields p (name :: names)) {rest : List Token}
    (hrest : firstKind rest ≠ .mark .dot) :
    reading inputPath (p ++ rest) = .ok (pathExpr (name :: names), rest) := by
  obtain @⟨_, _⟩ | @⟨dot, t, p, _, hd, hw, hp⟩ := hp
  have word : reading fieldName (t :: (p ++ rest)) = .ok (t.raw, p ++ rest) := by
    rw [reading_fieldName, take_of_ok (if_pos hw)]
    rfl
  rw [List.cons_append, List.cons_append, reading_inputPath, ifNext_of_eq hd, bind_of_ok word,
    bind_of_ok (fieldNames_of_fields hp hrest)]
  cases names <;> rfl

theorem keyedArgument_takes (h : inner.Takes L) (earlier : List String) :
    Takes (fun p q => Grammar.Keyed L p q ∧ q.1 ∉ earlier) (Free 0)
      (reading (keyedArgument inner earlier)) := by
  intro _ _ rest hkeyed hrest
  obtain ⟨@⟨key, p, e, _, hp⟩, hfresh⟩ := hkeyed
  rw [reading_keyedArgument, List.cons_append, take_of_ok (if_neg hfresh),
    bind_of_ok (h.expression p e rest hp hrest)]
  rfl

theorem keyed_firstKind {p : List Token} {q : String × Expr} (hp : Grammar.Keyed L p q)
    (rest : List Token) : firstKind (p ++ rest) = .label := by
  cases hp with
  | mk hk _ => exact hk

theorem argument_takes (h : inner.Takes L) (earlier : List Argument) :
    Takes (fun p a => Grammar.Argument L p a ∧ Argument.Allowed earlier a) (Free 0)
      (reading (argument inner earlier)) := by
  intro p a rest hargument hrest
  obtain ⟨hp, hallowed⟩ := hargument
  rw [reading_argument, look_bind]
  cases hp with
  | positional hp =>
    have none : Argument.keys earlier = [] := hallowed
    rw [if_neg (h.firstKind_ne rfl hp rest), none, if_neg (by decide),
      bind_of_ok (h.expression _ _ rest hp hrest)]
    rfl
  | keyed hp =>
    rw [if_pos (keyed_firstKind hp rest),
      bind_of_ok (keyedArgument_takes h _ _ _ rest ⟨hp, hallowed⟩ hrest)]
    rfl

/-- Arguments without keys, and then some with different keys, are each allowed. -/
theorem admits_arguments {earlier : List Argument} {es : List Expr}
    {opts : List (String × Expr)} (hearlier : es ≠ [] → Argument.keys earlier = [])
    (hd : (opts.map Prod.fst).Nodup) (hk : ∀ k ∈ opts.map Prod.fst, k ∉ Argument.keys earlier) :
    Admits Argument.Allowed earlier
      (es.map Argument.positional ++ opts.map fun o => Argument.keyed o.1 o.2) := by
  induction es generalizing earlier with
  | cons e es ih =>
    have none : Argument.keys earlier = [] := hearlier (List.cons_ne_nil _ _)
    exact ⟨none, ih (fun _ => none) hk⟩
  | nil =>
    induction opts generalizing earlier with
    | nil => trivial
    | cons o opts ih =>
      have hd' := List.nodup_cons.mp hd
      refine ⟨hk o.1 (List.mem_cons_self ..), ih hd'.2 (fun hne => absurd rfl hne) ?_⟩
      intro k hm hke
      rcases List.mem_cons.mp (show k ∈ o.1 :: Argument.keys earlier from hke) with rfl | hke
      · exact hd'.1 hm
      · exact hk k (List.mem_cons_of_mem _ hm) hke

theorem admits_keyed {earlier args : List (String × Expr)} (hd : (args.map Prod.fst).Nodup)
    (hk : ∀ k ∈ args.map Prod.fst, k ∉ earlier.map Prod.fst) :
    Admits (fun earlier q => q.1 ∉ earlier.map Prod.fst) earlier args := by
  induction args generalizing earlier with
  | nil => trivial
  | cons q args ih =>
    have hd' := List.nodup_cons.mp hd
    refine ⟨hk q.1 (List.mem_cons_self ..), ih hd'.2 fun k hm hke => ?_⟩
    rcases List.mem_cons.mp hke with rfl | hke
    · exact hd'.1 hm
    · exact hk k (List.mem_cons_of_mem _ hm) hke

/-- What stands after an item ends it. -/
theorem free_of_separator {least : Nat} {close : Kind} (hclose : close.closes) (t : Token)
    (rest : List Token) (h : t.kind = .mark .comma ∨ t.kind = close) : Free least (t :: rest) := by
  rcases h with h | h
  · exact free_of_closes (by rw [h]; rfl) rest
  · exact free_of_closes (by rw [h]; exact hclose) rest

theorem arguments_takes (h : inner.Takes L) {p : List Token} {es : List Expr}
    {opts : List (String × Expr)} (hp : Grammar.Arguments L p (es, opts)) (rest : List Token) :
    reading (arguments inner) (p ++ rest) =
      .ok (es.map Argument.positional ++ opts.map fun o => Argument.keyed o.1 o.2, rest) := by
  obtain @⟨p, close, _, _, hp, hd, hc⟩ := hp
  have start (p : List Token) (a : Argument) (rest : List Token) (hp : Grammar.Argument L p a) :
      firstKind (p ++ rest) ≠ .mark .rightParen := by
    cases hp with
    | positional hp => exact h.firstKind_ne rfl hp rest
    | keyed hp => rw [keyed_firstKind hp rest]; decide
  have admitted : Admits Argument.Allowed []
      (es.map Argument.positional ++ opts.map fun o => Argument.keyed o.1 o.2) :=
    admits_arguments (fun _ => rfl) hd fun _ _ => List.not_mem_nil
  rw [List.append_assoc]
  exact separated_of_items (.mark .rightParen) (argument_takes h) start (free_of_separator rfl)
    (by decide) hp admitted hc rest

theorem importArgument_takes (h : inner.Takes L) (function : String)
    (earlier : List (String × Expr)) :
    Takes (fun p q => Grammar.Keyed L p q ∧ q.1 ∉ earlier.map Prod.fst) (Free 0)
      (reading (importArgument inner function earlier)) := by
  intro p q rest hkeyed hrest
  rw [reading_importArgument, look_bind, if_pos (keyed_firstKind hkeyed.1 rest)]
  exact keyedArgument_takes h _ p q rest hkeyed hrest

theorem hashKey_takes : Takes Grammar.HashKey (fun _ => True) (reading hashKey) := by
  intro p key rest hp _
  rw [reading_hashKey]
  cases hp with
  | label hk => simp only [List.cons_append, List.nil_append, take, hk]; rfl
  | string hk ha =>
    simp only [List.cons_append, List.nil_append, take, hk, arrowAfter]
    exact ifNext_of_eq ha rest
  | symbol hk ha =>
    simp only [List.cons_append, List.nil_append, take, hk, arrowAfter]
    exact ifNext_of_eq ha rest

theorem hashPair_takes (h : inner.Takes L) :
    Takes (Grammar.HashPair L) (Free 0) (reading (hashPair inner)) := by
  intro _ _ rest hpair hrest
  obtain @⟨p, q, key, e, hp, hq⟩ := hpair
  rw [reading_hashPair, List.append_assoc, bind_of_ok (hashKey_takes p key _ hp trivial),
    bind_of_ok (h.expression q e rest hq hrest)]
  rfl

theorem hashPair_firstKind {p : List Token} {q : Literal × Expr} (hp : Grammar.HashPair L p q)
    (rest : List Token) : firstKind (p ++ rest) ≠ .mark .rightBrace := by
  obtain @⟨p, q, key, e, hp, _⟩ := hp
  cases hp with
  | label hk => exact ne_of_eq_of_ne hk (by decide)
  | string hk _ => exact ne_of_eq_of_ne hk (by decide)
  | symbol hk _ => exact ne_of_eq_of_ne hk (by decide)

theorem primary_takes (h : inner.Takes L) :
    Takes (Grammar.Primary imported L) Apart (reading (primary imported inner)) := by
  intro p e rest hp hrest
  rw [reading_primary]
  cases hp with
  | integer hk hn =>
    simp only [List.cons_append, List.nil_append, take, primaryStep, hk, intStep,
      Grammar.denotes_iff.mp hn]
    rfl
  | float hk hx =>
    simp only [List.cons_append, List.nil_append, take, primaryStep, hk, floatStep, hx]
    rfl
  | string hk =>
    simp only [List.cons_append, List.nil_append, take, primaryStep, hk]
    rfl
  | boolean hk =>
    simp only [List.cons_append, List.nil_append, take, primaryStep, hk]
    rfl
  | symbol hk =>
    simp only [List.cons_append, List.nil_append, take, primaryStep, hk]
    rfl
  | infinity hk hi =>
    simp only [List.cons_append, List.nil_append, take, primaryStep, hk, if_pos hi]
    rfl
  | input hk hp =>
    simp only [List.cons_append, take, primaryStep, hk]
    exact inputPath_of_fields hp hrest.dot
  | inputPath hk hp =>
    simp only [List.cons_append, take, primaryStep, hk]
    exact inputPath_of_fields hp hrest.dot
  | reference hk =>
    simp only [List.cons_append, List.nil_append, take, primaryStep, hk, reading_named]
    exact ifNext_of_ne hrest.paren
  | ref hk href ho hn hc =>
    simp only [List.cons_append, List.nil_append, take, primaryStep, hk, reading_named,
      ifNext_of_eq ho, if_pos href, bind_of_ok (symbol_of_kind hn _),
      bind_of_ok (expect_of_kind hc _)]
    rfl
  | @importCall t op close p args hk href hi ho hp hd hc =>
    have start (p : List Token) (q : String × Expr) (rest : List Token)
        (hp : Grammar.Keyed L p q) : firstKind (p ++ rest) ≠ .mark .rightParen := by
      rw [keyed_firstKind hp rest]; decide
    have admitted : Admits (fun earlier q => q.1 ∉ earlier.map Prod.fst) [] args :=
      admits_keyed hd fun _ _ => List.not_mem_nil
    have read := separated_of_items (.mark .rightParen) (importArgument_takes h t.raw) start
      (free_of_separator rfl) (by decide) hp admitted hc rest
    simp only [List.cons_append, List.append_assoc, List.nil_append, take, primaryStep, hk,
      reading_named, ifNext_of_eq ho, if_neg href, if_pos hi, bind_of_ok read]
    rfl
  | @call t op p es opts hk href hi ho hp =>
    simp only [List.cons_append, take, primaryStep, hk, reading_named, ifNext_of_eq ho,
      if_neg href, if_neg hi, bind_of_ok (arguments_takes h hp rest),
      call_positional_append_keyed]
    rfl
  | function hk ho hn hc =>
    have comma : firstKind (_ :: rest) ≠ .mark .comma := ne_of_eq_of_ne hc (by decide)
    simp only [List.cons_append, List.nil_append, take, primaryStep, hk, reading_functionCall,
      bind_of_ok (expect_of_kind ho _), bind_of_ok (symbol_of_kind hn _), ifNext_of_ne comma,
      bind_of_ok (expect_of_kind hc _)]
    rfl
  | functionCall hk ho hn hc hp =>
    simp only [List.cons_append, take, primaryStep, hk, reading_functionCall,
      bind_of_ok (expect_of_kind ho _), bind_of_ok (symbol_of_kind hn _), ifNext_of_eq hc,
      bind_of_ok (arguments_takes h hp rest), call_positional_append_keyed]
    rfl
  | index hk ho hn hc =>
    simp only [List.cons_append, List.nil_append, take, primaryStep, hk, ifNext_of_eq ho,
      bind_of_ok (symbol_of_kind hn _), bind_of_ok (expect_of_kind hc _)]
    rfl
  | @group op close p e hk hp hc =>
    have read := h.expression p e (close :: rest) hp (free_of_closes (by rw [hc]; rfl) rest)
    simp only [List.cons_append, List.append_assoc, List.nil_append, take, primaryStep, hk,
      bind_of_ok read, bind_of_ok (expect_of_kind hc _)]
    rfl
  | array hk hp hc =>
    have read := separated_of_takes (.mark .rightBracket) h.expression
      (fun p e rest hp => h.firstKind_ne rfl hp rest) (free_of_separator rfl) (by decide) hp hc rest
    simp only [List.cons_append, List.append_assoc, List.nil_append, take, primaryStep, hk,
      bind_of_ok read]
    rfl
  | hash hk hp hc =>
    have read := separated_of_takes (.mark .rightBrace) (hashPair_takes h)
      (fun p q rest hp => hashPair_firstKind hp rest) (free_of_separator rfl) (by decide) hp hc rest
    simp only [List.cons_append, List.append_assoc, List.nil_append, take, primaryStep, hk,
      bind_of_ok read]
    rfl

theorem indices_takes (h : inner.Takes L) {e e' : Expr} {p : List Token}
    (hp : Grammar.Indices L e p e') {rest : List Token}
    (hrest : firstKind rest ≠ .mark .leftBracket) :
    reading (indices inner e) (p ++ rest) = .ok (e', rest) := by
  induction hp with
  | nil =>
    rw [reading_indices]
    exact ifNext_of_ne hrest
  | @cons op close p q e i e' ho hp hc _ ih =>
    have read := h.expression p i (close :: (q ++ rest)) hp
      (free_of_closes (by rw [hc]; rfl) _)
    rw [reading_indices, List.append_assoc, List.cons_append, List.cons_append, ifNext_of_eq ho,
      bind_of_ok read, bind_of_ok (expect_of_kind hc _), ih]

theorem operand_takes (h : inner.Takes L) :
    Takes (Grammar.Operand imported L) Ends (reading (operand imported inner)) := by
  intro p e rest hp hrest
  cases hp with
  | @negation t p e hk hp =>
    rw [List.cons_append, reading_operand_of_minus hk,
      bind_of_ok (h.negated p e rest hp hrest), reading_indices]
    exact ifNext_of_ne hrest.bracket
  | @mk p q e e' hp hq =>
    have between : Apart (q ++ rest) := by
      cases hq with
      | nil => exact hrest.toApart
      | cons ho _ _ _ =>
        exact ⟨ne_of_eq_of_ne ho (by decide), ne_of_eq_of_ne ho (by decide)⟩
    rw [reading_operand, List.append_assoc, bind_of_ok (primary_takes h p e _ hp between)]
    exact indices_takes h hq hrest.bracket

theorem Free.mono {least least' : Nat} {ts : List Token} (h : Free least ts)
    (hle : least ≤ least') : Free least' ts :=
  ⟨h.ends, h.unsigned, fun op hop => Nat.lt_of_lt_of_le (h.below op hop) hle⟩

theorem free_of_operator {least : Nat} {t : Token} {op : Operator} (h : t.kind = .operator op)
    (hlt : op.precedence < least) (rest : List Token) : Free least (t :: rest) := by
  refine ⟨ends_of_operator h rest, by simp [startsWithSigned, h], fun other ho => ?_⟩
  cases h.symm.trans ho
  exact hlt

theorem chain_takes (h : inner.Takes L) {least ceiling : Nat} {left e : Expr} {p : List Token}
    (hp : Grammar.Links L least ceiling left p e) {rest : List Token} (hrest : Free least rest) :
    reading (chain inner least left) (p ++ rest) = .ok (e, rest) := by
  induction hp with
  | nil => exact reading_chain_of_below hrest.below
  | @cons ceiling t op p q left right e ht hle _ hp hq ih =>
    -- The next operator, here or after the chain, is not one that the right side would take.
    have between : Free op.rightPrecedence (q ++ rest) := by
      cases hq with
      | nil => exact hrest.mono (Nat.le_trans hle op.precedence_le_rightPrecedence)
      | cons hu _ hlt _ _ => exact free_of_operator hu hlt _
    rw [List.append_assoc, List.cons_append, reading_chain_of_tight ht hle,
      bind_of_ok (h.climb _ p right _ hp between), ← op.callee_eq_function, ih]

theorem climb_takes (h : inner.Takes L) (least : Nat) :
    Takes (Grammar.Binary imported L least) (Free least)
      (reading (climb imported inner least)) := by
  intro p e rest hp hrest
  obtain ⟨q, r, first, rfl, hq, hr⟩ := Grammar.binary_iff_links.mp hp
  have between : Ends (r ++ rest) := by
    cases hr with
    | nil => exact hrest.ends
    | cons ht _ _ _ _ => exact ends_of_operator ht _
  rw [reading_climb, List.append_assoc, bind_of_ok (operand_takes h q first _ hq between),
    bind_of_ok (chain_takes h hr hrest), look_bind, hrest.unsigned]
  rfl

/-- A reader one level out takes the phrases one level out. -/
theorem Level.Takes.next (h : inner.Takes L) :
    Level.Takes ⟨Grammar.Binary imported L, Grammar.Operand imported L⟩
      ⟨Reader.climb imported inner, operand imported inner⟩ where
  climb := climb_takes h
  negated := operand_takes h
  starts _ _ _ hp := hp.starts

/-- Readers take the phrases of as many levels. -/
theorem levels_takes (imported : List String) (room : Nat) :
    (levels imported room).Takes (Grammar.levels imported room) := by
  induction room with
  | zero => exact ⟨fun _ _ _ _ hp => hp.elim, fun _ _ _ hp => hp.elim, fun _ _ _ hp => hp.elim⟩
  | succ room ih => exact ih.next

end Reader

end SchemaLang
