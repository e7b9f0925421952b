import SchemaLang.Proofs.Grammar.Levels
import SchemaLang.Proofs.Writing.Literal

namespace SchemaLang

open Text Lexical

namespace Operator

/-- The operators that are written between their operands. -/
def comparisons : List Operator := [.eq, .ne, .gt, .lt, .ge, .le]

/-- The comparison that a function is. -/
def comparison? (function : String) : Option Operator :=
  comparisons.find? (·.spelling = function)

end Operator

/-- The pieces of a call, given those of its arguments. -/
def callPieces (function : String) (args opts : List (List Piece)) : List Piece :=
  match Operator.comparison? function, args, opts with
  | some op, [left, right], [] =>
    .mark .leftParen :: (left ++ .operator op :: right) ++ [.mark .rightParen]
  | _, _, _ =>
    .keyword .fn :: .mark .leftParen :: commas ([.symbol function] :: (args ++ opts)) ++
      [.mark .rightParen]

/-- The levels that a call opens, given those of its arguments. The right side of a comparison is
one level further in than the left side. -/
def callLevels (function : String) (args opts : List Nat) : Nat :=
  match Operator.comparison? function, args, opts with
  | some _, [left, right], [] => 1 + max left (1 + right)
  | _, _, _ => 1 + deepest (args ++ opts)

namespace Expr

section

variable (spell : Float → FloatForm)

mutual

def pieces : Expr → List Piece
  | .literal value => value.pieces spell
  | .input name => [.keyword .input, .mark .dot, .word name]
  | .inputPath path => .keyword .input :: path.flatMap fun name => [.mark .dot, .word name]
  | .reference name => [.word "ref", .mark .leftParen, .symbol name, .mark .rightParen]
  | .call function args opts => callPieces function (listPieces args) (keyedPieces opts)
  | .array elements => .mark .leftBracket :: commas (listPieces elements) ++ [.mark .rightBracket]
  | .hash pairs => .mark .leftBrace :: commas (pairPieces pairs) ++ [.mark .rightBrace]
  | .cascade _ => []
  | .index name => [.type .index, .mark .leftParen, .symbol name, .mark .rightParen]
  | .importCall name args =>
    .word name :: .mark .leftParen :: commas (keyedPieces args) ++ [.mark .rightParen]

def listPieces : List Expr → List (List Piece)
  | [] => []
  | e :: es => pieces e :: listPieces es

def keyedPieces : List (String × Expr) → List (List Piece)
  | [] => []
  | (key, e) :: more => (.label key :: pieces e) :: keyedPieces more

def pairPieces : List (Literal × Expr) → List (List Piece)
  | [] => []
  | (key, e) :: more => (key.pieces spell ++ .mark .arrow :: pieces e) :: pairPieces more

end

end

mutual

/-- The levels that an expression opens, one inside the other. -/
def levels : Expr → Nat
  | .call function args opts => callLevels function (listLevels args) (keyedLevels opts)
  | .array elements => 1 + deepest (listLevels elements)
  | .hash pairs => 1 + deepest (pairLevels pairs)
  | .importCall _ args => 1 + deepest (keyedLevels args)
  | _ => 1

def listLevels : List Expr → List Nat
  | [] => []
  | e :: es => levels e :: listLevels es

def keyedLevels : List (String × Expr) → List Nat
  | [] => []
  | (_, e) :: more => levels e :: keyedLevels more

def pairLevels : List (Literal × Expr) → List Nat
  | [] => []
  | (_, e) :: more => levels e :: pairLevels more

end

/-- Expressions that can be written: names are words, keys are distinct, and the functions that are
called by a bare name are the imported ones. -/
inductive WellFormed (spell : Float → FloatForm) (imported : List String) : Expr → Prop
  | literal {value : Literal} : value.WellFormed spell → WellFormed spell imported (.literal value)
  | infinity : spell (1.0 / 0.0) = .infinity false →
    WellFormed spell imported (.float (1.0 / 0.0))
  | input {name : String} : Word name.toList → WellFormed spell imported (.input name)
  | inputPath {path : List String} : 2 ≤ path.length → (∀ name ∈ path, Word name.toList) →
    WellFormed spell imported (.inputPath path)
  | reference {name : String} : Word name.toList → WellFormed spell imported (.reference name)
  | comparison {op : Operator} {left right : Expr} : op ∈ Operator.comparisons →
    WellFormed spell imported left → WellFormed spell imported right →
    WellFormed spell imported (.call op.spelling [left, right] [])
  | call {function : String} {args : List Expr} {opts : List (String × Expr)} :
    Word function.toList → (∀ e ∈ args, WellFormed spell imported e) →
    (∀ o ∈ opts, Word o.1.toList) → (∀ o ∈ opts, WellFormed spell imported o.2) →
    (opts.map Prod.fst).Nodup → WellFormed spell imported (.call function args opts)
  | array {elements : List Expr} : (∀ e ∈ elements, WellFormed spell imported e) →
    WellFormed spell imported (.array elements)
  | hash {pairs : List (Literal × Expr)} :
    (∀ pair ∈ pairs, (∃ s, pair.1 = .string s) ∨ ∃ name, pair.1 = .symbol name ∧ Word name.toList) →
    (∀ pair ∈ pairs, WellFormed spell imported pair.2) → WellFormed spell imported (.hash pairs)
  | index {name : String} : Word name.toList → WellFormed spell imported (.index name)
  | importCall {name : String} {args : List (String × Expr)} : Word name.toList →
    Piece.wordKind name = .identifier → name ≠ "ref" → name ∈ imported →
    (∀ o ∈ args, Word o.1.toList) → (∀ o ∈ args, WellFormed spell imported o.2) →
    (args.map Prod.fst).Nodup → WellFormed spell imported (.importCall name args)

section

variable {spell : Float → FloatForm}

theorem listPieces_eq (es : List Expr) : listPieces spell es = es.map (pieces spell) := by
  induction es with
  | nil => rw [listPieces, List.map_nil]
  | cons e es ih => rw [listPieces, ih, List.map_cons]

theorem keyedPieces_eq (opts : List (String × Expr)) :
    keyedPieces spell opts = opts.map fun o => .label o.1 :: pieces spell o.2 := by
  induction opts with
  | nil => rw [keyedPieces, List.map_nil]
  | cons o opts ih => rw [keyedPieces, ih, List.map_cons]

theorem pairPieces_eq (pairs : List (Literal × Expr)) :
    pairPieces spell pairs =
      pairs.map fun pair => pair.1.pieces spell ++ .mark .arrow :: pieces spell pair.2 := by
  induction pairs with
  | nil => rw [pairPieces, List.map_nil]
  | cons pair pairs ih => rw [pairPieces, ih, List.map_cons]

end

theorem listLevels_eq (es : List Expr) : listLevels es = es.map levels := by
  induction es with
  | nil => rw [listLevels, List.map_nil]
  | cons e es ih => rw [listLevels, ih, List.map_cons]

theorem keyedLevels_eq (opts : List (String × Expr)) :
    keyedLevels opts = opts.map fun o => levels o.2 := by
  induction opts with
  | nil => rw [keyedLevels, List.map_nil]
  | cons o opts ih => rw [keyedLevels, ih, List.map_cons]

theorem pairLevels_eq (pairs : List (Literal × Expr)) :
    pairLevels pairs = pairs.map fun pair => levels pair.2 := by
  induction pairs with
  | nil => rw [pairLevels, List.map_nil]
  | cons pair pairs ih => rw [pairLevels, ih, List.map_cons]

theorem one_le_levels (e : Expr) : 1 ≤ e.levels := by
  cases e with
  | call function args opts =>
    rw [levels]
    unfold callLevels
    split <;> omega
  | array elements => rw [levels]; omega
  | hash pairs => rw [levels]; omega
  | importCall name args => rw [levels]; omega
  | _ => exact Nat.le_refl 1

end Expr

namespace Operator

theorem comparison?_spelling {op : Operator} (h : op ∈ comparisons) :
    comparison? op.spelling = some op ∧ op.function = op.spelling := by
  have table : ∀ op ∈ comparisons,
      comparison? op.spelling = some op ∧ op.function = op.spelling := by
    decide
  exact table op h

/-- No comparison is spelt as a word. -/
theorem comparison?_of_word {function : String} (h : Word function.toList) :
    comparison? function = none := by
  have table : ∀ op ∈ comparisons, ¬Word op.spelling.toList := by decide
  refine List.find?_eq_none.mpr fun op hop he => ?_
  have same : op.spelling = function := by simpa using he
  exact table op hop (same ▸ h)

end Operator

theorem callPieces_comparison {op : Operator} (h : op ∈ Operator.comparisons)
    (left right : List Piece) :
    callPieces op.spelling [left, right] [] =
      .mark .leftParen :: (left ++ .operator op :: right) ++ [.mark .rightParen] := by
  simp only [callPieces, (Operator.comparison?_spelling h).1]

theorem callPieces_of_word {function : String} (h : Word function.toList)
    (args opts : List (List Piece)) :
    callPieces function args opts =
      .keyword .fn :: .mark .leftParen :: commas ([.symbol function] :: (args ++ opts)) ++
        [.mark .rightParen] := by
  simp only [callPieces, Operator.comparison?_of_word h]

theorem callLevels_comparison {op : Operator} (h : op ∈ Operator.comparisons) (left right : Nat) :
    callLevels op.spelling [left, right] [] = 1 + max left (1 + right) := by
  simp only [callLevels, (Operator.comparison?_spelling h).1]

theorem callLevels_of_word {function : String} (h : Word function.toList) (args opts : List Nat) :
    callLevels function args opts = 1 + deepest (args ++ opts) := by
  simp only [callLevels, Operator.comparison?_of_word h]

theorem hasWordKind_of_kind {t u : Token} (h : t.kind = u.kind) (hu : u.kind ≠ .constant) :
    t.hasWordKind = u.hasWordKind := by
  unfold Token.hasWordKind
  rw [h]
  split <;> first | rfl | contradiction

/-- A bare word is a token that may name a field. -/
theorem isWord_of_spells {t : Token} {name : String} (hw : Word name.toList)
    (h : Piece.Spells t (.word name)) : t.isWord := by
  have reserved : ∀ entry ∈ Kind.reserved, entry.2 ≠ .constant ∧
      (Token.mk entry.2 "" .start none).hasWordKind = true := by decide
  have kind : t.kind = Piece.wordKind name := h.1
  have raw : t.raw = name := h.2
  have start : starts isWordStart name.toList = true := (word_iff.mp hw).1
  have wordKind : t.hasWordKind = true := by
    rw [Piece.wordKind] at kind
    split at kind
    · have part : ∀ c ∈ name.toList, c ≠ ':' := by
        have colon : Text.isWordPart ':' = false := by decide
        intro c hc he
        have hpart := hw.part c hc
        rw [he, colon] at hpart
        cases hpart
      have apart : (':', ':') ∉ name.toList.zip name.toList.tail := by
        intro hmem
        exact part ':' (List.of_mem_zip hmem).1 rfl
      simp [Token.hasWordKind, kind, raw, apart]
    · cases hlook : Kind.ofReserved? name with
      | none =>
        rw [hlook] at kind
        simp [Token.hasWordKind, kind]
      | some k =>
        obtain ⟨before, after, htable, _⟩ := List.lookup_eq_some_iff.mp hlook
        obtain ⟨other, hk⟩ := reserved (name, k) (by rw [htable]; simp)
        rw [hlook] at kind
        rw [hasWordKind_of_kind (u := ⟨k, "", .start, none⟩) kind other, hk]
  rw [Token.isWord, wordKind, raw]
  exact start

section Phrases

open Grammar

variable {spell : Float → FloatForm} {imported : List String} {inner : Level}

theorem writes_fields {path : List String} (h : ∀ name ∈ path, Word name.toList) :
    Writes (path.flatMap fun name => [.mark .dot, .word name]) Fields path := by
  induction path with
  | nil => exact .nil .nil
  | cons name path ih =>
    have hname := h name (by simp)
    have more := ih fun other hother => h other (by simp [hother])
    have field : Writes [.mark .dot, .word name]
        (After (.mark .dot) fun ts field => ∃ t : Token, ts = [t] ∧ t.isWord ∧ t.raw = field)
        name :=
      .after (.single hname fun t ht => ⟨t, rfl, isWord_of_spells hname ht, ht.2⟩) (by simp)
    rw [List.flatMap_cons]
    apply field.append more
    intro ts us hts hus
    obtain ⟨hdot, t, rfl, hword, rfl⟩ := hts
    exact .cons hdot hword hus

theorem writes_keyed {key : String} {ps : List Piece} {e : Expr} (hkey : Word key.toList)
    (h : Writes ps inner.expression e) : Writes (.label key :: ps) (Keyed inner) (key, e) := by
  refine .cons hkey h fun t ts ht hts => ?_
  have keyed := Keyed.mk ht.1 hts
  rwa [ht.2] at keyed

/-- The pieces of an argument, given those of expressions. -/
def argumentPieces (write : Expr → List Piece) : Reader.Argument → List Piece
  | .positional e => write e
  | .keyed key e => .label key :: write e

/-- Arguments by position, then by key, with commas between them all. -/
theorem writes_arguments {args : List Expr} {opts : List (String × Expr)}
    {write : Expr → List Piece} (hargs : ∀ e ∈ args, Writes (write e) inner.expression e)
    (hkeys : ∀ o ∈ opts, Word o.1.toList)
    (hopts : ∀ o ∈ opts, Writes (write o.2) inner.expression o.2) :
    Writes (commas (args.map write ++ opts.map fun o => .label o.1 :: write o.2))
      (Items (Argument inner))
      (args.map Reader.Argument.positional ++ opts.map fun o => Reader.Argument.keyed o.1 o.2) := by
  have each : ∀ a ∈ args.map Reader.Argument.positional ++
      opts.map fun o => Reader.Argument.keyed o.1 o.2,
      Writes (argumentPieces write a) (Argument inner) a := by
    intro a ha
    rcases List.mem_append.mp ha with ha | ha
    · obtain ⟨e, he, rfl⟩ := List.mem_map.mp ha
      exact (hargs e he).imp fun ts hts => Argument.positional hts
    · obtain ⟨o, ho, rfl⟩ := List.mem_map.mp ha
      exact (writes_keyed (hkeys o ho) (hopts o ho)).imp fun ts hts => Argument.keyed hts
  have all := Writes.items each
  rw [List.map_append, List.map_map, List.map_map] at all
  exact all

theorem primary_of_literal {ts : List Token} {value : Literal} (h : DomainLiteral ts value) :
    Primary imported inner ts (.literal value) := by
  cases h with
  | integer hk hn => exact .integer hk hn
  | float hk hx => exact .float hk hx
  | string hk => exact .string hk
  | symbol hk => exact .symbol hk
  | boolean hk => exact .boolean hk

theorem writes_input {path : List String} (h : ∀ name ∈ path, Word name.toList) {e : Expr}
    (hread : ∀ t ts, t.kind = .keyword .input → Fields ts path →
      Primary imported inner (t :: ts) e) :
    Writes (.keyword .input :: path.flatMap fun name => [.mark .dot, .word name])
      (Primary imported inner) e :=
  .cons (by simp) (writes_fields h) fun t ts ht hts => hread t ts ht.1 hts

/-- A name between parentheses, after a token that tells what is named. -/
theorem writes_named {p : Piece} {name : String} {e : Expr} (hp : p.Valid)
    (hname : Word name.toList)
    (hread : ∀ t op u close, Piece.Spells t p → op.kind = .mark .leftParen → u.kind = .symbol →
      u.raw = name → close.kind = .mark .rightParen → Primary imported inner [t, op, u, close] e) :
    Writes [p, .mark .leftParen, .symbol name, .mark .rightParen] (Primary imported inner) e := by
  refine ⟨?_, fun ts hts => ?_⟩
  · simpa [hp] using hname
  · obtain _ | ⟨ht, hts⟩ := hts
    obtain _ | ⟨hop, hts⟩ := hts
    obtain _ | ⟨hu, hts⟩ := hts
    obtain _ | ⟨hclose, hts⟩ := hts
    cases hts
    exact hread _ _ _ _ ht hop.1 hu.1 hu.2 hclose.1

/-- A function with its arguments, none or some. -/
theorem writes_call {function : String} {args : List Expr} {opts : List (String × Expr)}
    {write : Expr → List Piece} (hname : Word function.toList)
    (hargs : ∀ e ∈ args, Writes (write e) inner.expression e)
    (hkeys : ∀ o ∈ opts, Word o.1.toList)
    (hopts : ∀ o ∈ opts, Writes (write o.2) inner.expression o.2)
    (hnodup : (opts.map Prod.fst).Nodup) :
    Writes (.keyword .fn :: .mark .leftParen :: commas ([.symbol function] ::
        (args.map write ++ opts.map fun o => .label o.1 :: write o.2)) ++ [.mark .rightParen])
      (Primary imported inner) (.call function args opts) := by
  have arguments := writes_arguments hargs hkeys hopts
  cases hall : args.map write ++ opts.map fun o => Piece.label o.1 :: write o.2 with
  | nil =>
    obtain ⟨hargs, hopts⟩ := List.append_eq_nil_iff.mp hall
    rw [List.map_eq_nil_iff.mp hargs, List.map_eq_nil_iff.mp hopts, commas_singleton]
    apply writes_named (by simp) hname
    intro t op u close ht hop hu hraw hclose
    rw [← hraw]
    exact .function ht.1 hop hu hclose
  | cons first more =>
    rw [hall] at arguments
    rw [commas_cons_cons]
    refine ⟨?_, fun ts hts => ?_⟩
    · simpa [hname, or_imp, forall_and] using arguments.valid
    · obtain _ | ⟨ht, hts⟩ := hts
      obtain _ | ⟨hop, hts⟩ := hts
      obtain _ | ⟨hu, hts⟩ := hts
      obtain _ | ⟨hcomma, hts⟩ := hts
      obtain ⟨us, vs, rfl, hus, hvs⟩ := spells_append hts
      obtain _ | ⟨hclose, hvs⟩ := hvs
      cases hvs
      have items := Arguments.mk (arguments.spells us hus) hnodup hclose.1
      have call : Primary imported inner _ _ := .functionCall ht.1 hop.1 hu.1 hcomma.1 items
      rwa [hu.2] at call

theorem writes_importCall {name : String} {args : List (String × Expr)}
    {write : Expr → List Piece} (hname : Word name.toList)
    (hkind : Piece.wordKind name = .identifier) (href : name ≠ "ref") (himported : name ∈ imported)
    (hkeys : ∀ o ∈ args, Word o.1.toList)
    (hargs : ∀ o ∈ args, Writes (write o.2) inner.expression o.2)
    (hnodup : (args.map Prod.fst).Nodup) :
    Writes (.word name :: .mark .leftParen ::
        commas (args.map fun o => .label o.1 :: write o.2) ++ [.mark .rightParen])
      (Primary imported inner) (.importCall name args) := by
  have each : ∀ o ∈ args, Writes (.label o.1 :: write o.2) (Keyed inner) o :=
    fun o ho => writes_keyed (hkeys o ho) (hargs o ho)
  have items := Writes.items each
  have valid : (Piece.word name).Valid := hname
  refine ⟨?_, fun ts hts => ?_⟩
  · simpa [valid, or_imp, forall_and] using items.valid
  · obtain _ | ⟨ht, hts⟩ := hts
    obtain _ | ⟨hop, hts⟩ := hts
    obtain ⟨us, vs, rfl, hus, hvs⟩ := spells_append hts
    obtain _ | ⟨hclose, hvs⟩ := hvs
    cases hvs
    have raw := ht.2
    change _ = name at raw
    have call : Primary imported inner _ _ := .importCall (ht.1.trans hkind) (by rwa [raw])
      (by rwa [raw]) hop.1 (items.spells us hus) hnodup hclose.1
    rwa [raw] at call

theorem writes_array {elements : List Expr} {write : Expr → List Piece}
    (h : ∀ e ∈ elements, Writes (write e) inner.expression e) :
    Writes (.mark .leftBracket :: commas (elements.map write) ++ [.mark .rightBracket])
      (Primary imported inner) (.array elements) :=
  .between (by simp) (Writes.items h) (by simp) fun _ _ _ ht hts hu => .array ht.1 hts hu.1

theorem writes_hash {pairs : List (Literal × Expr)} {write : Expr → List Piece}
    (hkeys : ∀ pair ∈ pairs,
      (∃ s, pair.1 = .string s) ∨ ∃ name, pair.1 = .symbol name ∧ Word name.toList)
    (h : ∀ pair ∈ pairs, Writes (write pair.2) inner.expression pair.2) :
    Writes (.mark .leftBrace ::
        commas (pairs.map fun pair => pair.1.pieces spell ++ .mark .arrow :: write pair.2) ++
        [.mark .rightBrace])
      (Primary imported inner) (.hash pairs) := by
  have each : ∀ pair ∈ pairs,
      Writes (pair.1.pieces spell ++ .mark .arrow :: write pair.2) (HashPair inner) pair := by
    intro ⟨key, e⟩ hpair
    have value := (h _ hpair).after (p := .mark .arrow) (by simp)
    rcases hkeys _ hpair with ⟨s, rfl⟩ | ⟨name, rfl, hname⟩
    · refine .cons trivial value fun t ts ht hts => ?_
      obtain ⟨harrow, hts⟩ := hts
      have key := HashKey.string ht.1 harrow
      rw [ht.2] at key
      exact .mk key hts
    · refine .cons hname value fun t ts ht hts => ?_
      obtain ⟨harrow, hts⟩ := hts
      have key := HashKey.symbol ht.1 harrow
      rw [ht.2] at key
      exact .mk key hts
  exact .between (by simp) (Writes.items each) (by simp) fun _ _ _ ht hts hu => .hash ht.1 hts hu.1

/-- An operand is an expression of the level around it, whatever the operators beside it. -/
theorem Writes.climb {ps : List Piece} {e : Expr} {room : Nat}
    (h : Writes ps (Primary imported (levels imported room)) e) (least : Nat) :
    Writes ps ((levels imported (room + 1)).climb least) e := by
  refine h.imp fun ts hts => .operand ?_
  have operand := Operand.mk hts .nil
  rwa [List.append_nil] at operand

theorem writes_comparison {op : Operator} (hop : op ∈ Operator.comparisons) {room : Nat}
    {left right : Expr} {lefts rights : List Piece}
    (hl : Writes lefts ((levels imported (room + 1)).climb op.leftPrecedence) left)
    (hr : Writes rights ((levels imported room).climb op.rightPrecedence) right) :
    Writes (.mark .leftParen :: (lefts ++ .operator op :: rights) ++ [.mark .rightParen])
      (Primary imported (levels imported (room + 1))) (.call op.spelling [left, right] []) := by
  have valid : (Piece.operator op).Valid := by
    have table : ∀ op ∈ Operator.comparisons, op ≠ .and ∧ op ≠ .or := by decide
    exact table op hop
  have inside : Writes (lefts ++ .operator op :: rights) (levels imported (room + 1)).expression
      (.call op.spelling [left, right] []) := by
    rw [← (Operator.comparison?_spelling hop).2, ← op.callee_eq_function]
    apply hl.append (hr.after valid)
    intro ts us hts hus
    obtain ⟨ht, hus⟩ := hus
    exact .operator ht (Nat.zero_le _) hts hus
  exact .between (by simp) inside (by simp) fun _ _ _ ht hts hu => .group ht.1 hts hu.1

end Phrases

namespace Expr

open Grammar

variable {spell : Float → FloatForm} {imported : List String}

/-- What is said of each expression: within enough levels it is read back from its pieces. -/
def Read (spell : Float → FloatForm) (imported : List String) (e : Expr) : Prop :=
  ∀ room, e.levels ≤ room + 1 →
    Writes (e.pieces spell) (Primary imported (Grammar.levels imported room)) e

theorem Read.climb {e : Expr} (h : e.Read spell imported) {room : Nat} (hroom : e.levels ≤ room)
    (least : Nat) : Writes (e.pieces spell) ((Grammar.levels imported room).climb least) e := by
  have one := one_le_levels e
  cases room with
  | zero => omega
  | succ room => exact (h room hroom).climb least

/-- Each expression that can be written is read back. -/
theorem WellFormed.read {e : Expr} (h : e.WellFormed spell imported) : e.Read spell imported := by
  induction h with
  | literal hvalue =>
    intro room _
    rw [pieces]
    exact hvalue.writes.imp fun ts hts => primary_of_literal hts
  | infinity hform =>
    intro room _
    rw [Expr.float, pieces, Literal.pieces, hform]
    exact .single valid_infinity fun t ht => .infinity ht.1 ht.2
  | @input name hname =>
    intro room _
    have fields : ∀ other ∈ [name], Word other.toList := by simpa using hname
    rw [pieces]
    exact writes_input fields fun t ts ht hts => .input ht hts
  | @inputPath path hlength hnames =>
    intro room _
    rw [pieces]
    rcases path with - | ⟨first, - | ⟨second, more⟩⟩
    · simp at hlength
    · simp at hlength
    · exact writes_input hnames fun t ts ht hts => .inputPath ht hts
  | reference hname =>
    intro room _
    have valid : (Piece.word "ref").Valid := by
      have word : Word "ref".toList := by decide
      exact word
    have kind : Piece.wordKind "ref" = .identifier := by decide
    rw [pieces]
    apply writes_named valid hname
    intro t op u close ht hop hu hraw hclose
    rw [← hraw]
    exact .ref (ht.1.trans kind) ht.2 hop hu hclose
  | comparison hop _ _ ihl ihr =>
    intro room hroom
    rw [levels, listLevels, listLevels, listLevels, keyedLevels, callLevels_comparison hop] at hroom
    rw [pieces, listPieces, listPieces, listPieces, keyedPieces, callPieces_comparison hop]
    cases room with
    | zero => omega
    | succ room => exact writes_comparison hop (ihl.climb (by omega) _) (ihr.climb (by omega) _)
  | @call function args opts hname _ hkeys _ hnodup ihargs ihopts =>
    intro room hroom
    rw [levels, listLevels_eq, keyedLevels_eq, callLevels_of_word hname] at hroom
    rw [pieces, listPieces_eq, keyedPieces_eq, callPieces_of_word hname]
    refine writes_call hname (fun e he => (ihargs e he).climb ?_ 0) hkeys
      (fun o ho => (ihopts o ho).climb ?_ 0) hnodup
    · have deep : e.levels ≤ deepest (args.map levels ++ opts.map fun o => levels o.2) :=
        le_deepest (List.mem_append_left _ (List.mem_map_of_mem he))
      omega
    · have deep : o.2.levels ≤ deepest (args.map levels ++ opts.map fun o => levels o.2) :=
        le_deepest (List.mem_append_right _ (List.mem_map_of_mem ho))
      omega
  | @array elements _ ih =>
    intro room hroom
    rw [levels, listLevels_eq] at hroom
    rw [pieces, listPieces_eq]
    refine writes_array fun e he => (ih e he).climb ?_ 0
    have deep : e.levels ≤ deepest (elements.map levels) := le_deepest (List.mem_map_of_mem he)
    omega
  | @hash pairs hkeys _ ih =>
    intro room hroom
    rw [levels, pairLevels_eq] at hroom
    rw [pieces, pairPieces_eq]
    refine writes_hash hkeys fun pair hpair => (ih pair hpair).climb ?_ 0
    have deep : pair.2.levels ≤ deepest (pairs.map fun pair => levels pair.2) :=
      le_deepest (List.mem_map_of_mem hpair)
    omega
  | index hname =>
    intro room _
    rw [pieces]
    apply writes_named (by simp) hname
    intro t op u close ht hop hu hraw hclose
    rw [← hraw]
    exact .index ht.1 hop hu hclose
  | @importCall name args hname hkind href himported hkeys _ hnodup ih =>
    intro room hroom
    rw [levels, keyedLevels_eq] at hroom
    rw [pieces, keyedPieces_eq]
    refine writes_importCall hname hkind href himported hkeys ?_ hnodup
    intro o ho
    refine (ih o ho).climb ?_ 0
    have deep : o.2.levels ≤ deepest (args.map fun o => levels o.2) :=
      le_deepest (List.mem_map_of_mem ho)
    omega

end Expr

end SchemaLang
