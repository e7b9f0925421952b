import SchemaLang.Proofs.Complete.Schema
import SchemaLang.Proofs.Grammar.Levels

namespace SchemaLang

namespace Reader

open Reading

theorem schemaReading_rest {limit : Nat} {ts rest : List Token} {s : Schema}
    (h : schemaReading limit ts = .ok (s, rest)) : rest = [] := by
  rw [schemaReading] at h
  obtain ⟨_, _, _, h⟩ := bind_eq_ok h
  obtain ⟨_, _, _, h⟩ := bind_eq_ok h
  obtain ⟨_, _, _, h⟩ := bind_eq_ok h
  obtain ⟨_, _, _, h⟩ := bind_eq_ok h
  obtain ⟨_, _, _, h⟩ := bind_eq_ok h
  rw [look_bind] at h
  split at h
  · next hempty =>
    cases h
    exact List.isEmpty_iff.mp hempty
  · cases h

theorem schema_eq_ok_iff_reading {limit : Nat} {ts : List Token} {s : Schema} :
    schema limit ts = .ok s ↔ schemaReading limit ts = .ok (s, []) := by
  rw [schema_eq_schemaReading]
  constructor
  · intro h
    cases hr : schemaReading limit ts with
    | error fault => rw [hr] at h; cases h
    | ok r =>
      obtain ⟨s', rest⟩ := r
      rw [hr] at h
      cases h
      rw [schemaReading_rest hr]
  · intro h
    rw [h]
    rfl

/-- A list of tokens is read as a schema just when the grammar derives that schema from it. -/
theorem schema_eq_ok_iff {limit : Nat} {ts : List Token} {s : Schema} :
    schema limit ts = .ok s ↔ Grammar.Schema limit ts s := by
  rw [schema_eq_ok_iff_reading]
  refine ⟨fun h => ?_, schemaReading_of_schema⟩
  have follows : Predicts False (Grammar.Schema limit) (schemaReading limit) ts :=
    predicts_schema (fun imported => levels_predicts imported limit) (inputs_predicts limit) ts
  obtain ⟨p, hp, hs, _⟩ := follows.ok s [] h
  rw [hp, List.append_nil]
  exact hs

end Reader

/-- A result that is seen to be good through a view of it. -/
theorem exists_ok_of_map {ε α β : Type} (x : Except ε α) (view : α → β) (b : β)
    (h : x.toOption.map view = some b) : ∃ a, x = .ok a ∧ view a = b := by
  cases x with
  | error e => cases h
  | ok a => exact ⟨a, rfl, Option.some.inj h⟩

theorem Schema.ofTokensWithin_eq_ok_iff {limit : Nat} {tokens : List Token} {s : Schema} :
    Schema.ofTokensWithin limit tokens = .ok s ↔
      Reader.schema limit (Tokens.ofList tokens).body = .ok s := by
  rw [Schema.ofTokensWithin]
  cases Reader.schema limit (Tokens.ofList tokens).body with
  | error fault => simp [Except.mapError]
  | ok s' => simp [Except.mapError]

/-- Without comments, and up to the first token for the end, a list of tokens is accepted just when
the grammar derives it with at most `limit` levels, and the schema is the one it derives. Levels
apart, the expressions of the grammar are operands with operators between them. -/
theorem Schema.ofTokensWithin_eq_ok_iff_derives (limit : Nat) (tokens : List Token) (s : Schema) :
    (Schema.ofTokensWithin limit tokens = .ok s ↔
      Grammar.Schema limit
        ((tokens.filter (·.kind ≠ .comment)).takeWhile (·.kind ≠ .eof)) s) ∧
    ∀ imported p, (∃ room e, Grammar.Expression imported room p e) ↔
      ∃ room, Grammar.Sequence (Grammar.Operand imported (Grammar.levels imported room)) p := by
  refine ⟨?_, fun imported p => Grammar.exists_expression_iff⟩
  rw [Schema.ofTokensWithin_eq_ok_iff, Reader.schema_eq_ok_iff]
  rfl

namespace Grammar

def word (column : Nat) (kind : Kind) (raw : String) : Token := ⟨kind, raw, ⟨1, column⟩, none⟩

theorem word_kind (column : Nat) (kind : Kind) (raw : String) :
    (word column kind raw).kind = kind := rfl

def orderImport : List Token := [
  word 4 (.keyword .importWord) "import", word 5 .symbol "tax", word 6 (.mark .comma) ",",
  word 7 .symbol "duty", word 8 .label "from", word 9 .constant "Rates"]

theorem orderImport_derived : Import orderImport ⟨["tax", "duty"], "Rates", ⟨1, 4⟩⟩ :=
  .mk (word_kind 4 _ "import") (.cons (.mk (word_kind 5 _ "tax")) (word_kind 6 _ ",")
    (.last (.mk (word_kind 7 _ "duty")))) (by simp) (word_kind 8 _ "from") rfl
    (word_kind 9 _ "Rates")

def orderInputs : List Token := [
  word 10 (.keyword .input) "input", word 11 (.keyword .doWord) "do",
  word 12 (.type .array) "array", word 13 .symbol "rows", word 14 (.mark .comma) ",",
  word 15 .label "index", word 16 .symbol "row", word 17 (.keyword .doWord) "do",
  word 18 (.type .element) "element", word 19 .symbol "float", word 20 (.mark .comma) ",",
  word 21 .symbol "price", word 22 (.mark .comma) ",", word 23 .label "domain",
  word 24 .integer "0", word 25 (.mark .dotDotDot) "...", word 26 .constant "Float::INFINITY",
  word 27 (.keyword .endWord) "end",
  word 28 (.type .array) "array", word 29 .symbol "names", word 30 (.keyword .endWord) "end"]

theorem orderInputs_derived : InputSection 4 orderInputs [
    { name := "rows", type := .array, domain := none, accessMode := some .element,
      index := some "row", location := ⟨1, 12⟩
      children := [
        ⟨"price", .element (.primitive .float),
          some (.range (.int 0) (.float (1.0 / 0.0)) true), [], none, none, ⟨1, 18⟩⟩] },
    ⟨"names", .array, none, [], some .field, none, ⟨1, 28⟩⟩] := by
  have zero : Denotes (word 24 .integer "0") 0 := denotes_iff.mpr (by decide +kernel)
  have range : Domain _ (.range (.int 0) (.float (1.0 / 0.0)) true) :=
    .range (.integer (word_kind 24 _ "0") zero) (word_kind 25 _ "...")
      (.infinity (word_kind 26 _ "Float::INFINITY") rfl)
      (.inr (.inr ⟨_, .inr rfl, by decide⟩))
  have float : InputType.ofElementName? "float" = some (.primitive .float) := by decide
  have price : InputDecl (Inputs 2) true _ _ := .mk
    (.element (word_kind 18 _ "element") (word_kind 19 _ "float") float (word_kind 20 _ ",")
      (word_kind 21 _ "price"))
    (.cons (word_kind 22 _ ",") (.domain (word_kind 23 _ "domain") rfl range) .nil) .none
    (.none (by decide))
  have inside : Inputs 3 true _ _ := ⟨.cons price .nil, fun _ => uniform_singleton _⟩
  have rows : InputDecl (Inputs 3) false _ _ := .mk
    (.array (word_kind 12 _ "array") (word_kind 13 _ "rows"))
    (.cons (word_kind 14 _ ",")
      (.index (.inl rfl) (word_kind 15 _ "index") rfl (word_kind 16 _ "row")) .nil)
    (.some (.inl (.inl rfl)) (word_kind 17 _ "do") inside (word_kind 27 _ "end"))
    (.element (.inl rfl) ⟨_, List.mem_singleton_self _, _, rfl⟩)
  have names : InputDecl (Inputs 3) false _ _ := .mk
    (.array (word_kind 28 _ "array") (word_kind 29 _ "names")) .nil .none
    (.field (.inl rfl) (by simp))
  have both : Inputs 4 false _ _ := ⟨.cons rows (.cons names .nil), by simp⟩
  exact .mk (word_kind 10 _ "input") (word_kind 11 _ "do") both (word_kind 30 _ "end")

def orderTotal : List Token := [
  word 31 (.keyword .value) "value", word 32 .symbol "total", word 33 (.mark .comma) ",",
  word 34 .identifier "tax", word 35 (.mark .leftParen) "(", word 36 .label "on",
  word 37 (.keyword .input) "input", word 38 (.mark .dot) ".", word 39 .identifier "rows",
  word 40 (.mark .dot) ".", word 41 .identifier "price", word 42 (.mark .rightParen) ")",
  word 43 (.mark .leftBracket) "[", word 44 .integer "0", word 45 (.mark .rightBracket) "]",
  word 46 (.operator .add) "+", word 47 .float "2.5", word 48 (.operator .exponent) "**",
  word 49 .integer "1_000", word 50 (.operator .exponent) "**", word 51 .identifier "duties"]

theorem orderTotal_derived : Declaration (Expression ["tax", "duty"] 4) orderTotal
    (.value ⟨"total",
      .call "add" [
        .call "at" [
          .importCall "tax" [("on", .inputPath ["rows", "price"])], .literal (.integer 0)] [],
        .call "power" [
          .literal (.float (.ofBits 0x4004000000000000)),
          .call "power" [.literal (.integer 1000), .reference "duties"] []] []] [],
      false, ⟨1, 31⟩⟩) := by
  have zero : Denotes (word 44 .integer "0") 0 := denotes_iff.mpr (by decide +kernel)
  have half : Decimal.readFloat? (Reader.digits (word 47 .float "2.5")) =
      some (.ofBits 0x4004000000000000) := by decide +kernel
  have thousand : Denotes (word 49 .integer "1_000") 1000 := denotes_iff.mpr (by decide +kernel)
  have rows : (word 39 .identifier "rows").isWord := by decide +kernel
  have price : (word 41 .identifier "price").isWord := by decide +kernel
  have path : Primary ["tax", "duty"] (levels ["tax", "duty"] 2) _ _ :=
    .inputPath (word_kind 37 _ "input")
      (.cons (word_kind 38 _ ".") rows (.cons (word_kind 40 _ ".") price .nil))
  have taxed : Primary ["tax", "duty"] (levels ["tax", "duty"] 3) _ _ :=
    .importCall (word_kind 34 _ "tax") (by decide) (by decide) (word_kind 35 _ "(")
      (.last (.mk (word_kind 36 _ "on") (.operand (.mk path .nil)))) (by decide)
      (word_kind 42 _ ")")
  have item : Operand ["tax", "duty"] (levels ["tax", "duty"] 3) _ _ :=
    .mk taxed (.cons (word_kind 43 _ "[")
      (.operand (.mk (.integer (word_kind 44 _ "0") zero) .nil)) (word_kind 45 _ "]") .nil)
  have thousands : (levels ["tax", "duty"] 2).climb 7 _ _ :=
    .operator (word_kind 50 (.operator .exponent) "**") (by decide)
      (.operand (.mk (.integer (word_kind 49 _ "1_000") thousand) .nil))
      (.operand (.mk (.reference (word_kind 51 _ "duties")) .nil))
  have power : (levels ["tax", "duty"] 3).climb 6 _ _ :=
    .operator (word_kind 48 (.operator .exponent) "**") (by decide)
      (.operand (.mk (.float (word_kind 47 _ "2.5") half) .nil)) thousands
  exact .value (word_kind 31 _ "value") (word_kind 32 _ "total") (.expression (word_kind 33 _ ",")
    (.operator (word_kind 46 (.operator .add) "+") (Nat.zero_le _) (.operand item) power))

def orderLarge : List Token := [
  word 52 (.keyword .trait) "trait", word 53 .symbol "large", word 54 (.mark .comma) ",",
  word 55 .identifier "total", word 56 (.operator .subtract) "-", word 57 .integer "1",
  word 58 (.operator .subtract) "-", word 59 .integer "2", word 60 (.operator .gt) ">",
  word 61 .integer "9"]

theorem orderLarge_derived : Declaration (Expression ["tax", "duty"] 4) orderLarge
    (.trait ⟨"large",
      .call ">" [
        .call "subtract" [
          .call "subtract" [.reference "total", .literal (.integer 1)] [],
          .literal (.integer 2)] [],
        .literal (.integer 9)] [], ⟨1, 52⟩⟩) := by
  have one : Denotes (word 57 .integer "1") 1 := denotes_iff.mpr (by decide +kernel)
  have two : Denotes (word 59 .integer "2") 2 := denotes_iff.mpr (by decide +kernel)
  have nine : Denotes (word 61 .integer "9") 9 := denotes_iff.mpr (by decide +kernel)
  have less : Binary ["tax", "duty"] (levels ["tax", "duty"] 3) 5 _ _ :=
    .operator (word_kind 56 (.operator .subtract) "-") (by decide)
      (.operand (.mk (.reference (word_kind 55 _ "total")) .nil))
      (.operand (.mk (.integer (word_kind 57 _ "1") one) .nil))
  have lesser : Binary ["tax", "duty"] (levels ["tax", "duty"] 3) 4 _ _ :=
    .operator (word_kind 58 (.operator .subtract) "-") (by decide) less
      (.operand (.mk (.integer (word_kind 59 _ "2") two) .nil))
  exact .trait (word_kind 52 _ "trait") (word_kind 53 _ "large") (word_kind 54 _ ",")
    (.operator (word_kind 60 (.operator .gt) ">") (Nat.zero_le _) lesser
      (.operand (.mk (.integer (word_kind 61 _ "9") nine) .nil)))

def orderGrade : List Token := [
  word 62 (.keyword .letWord) "let", word 63 .symbol "grade", word 64 (.keyword .doWord) "do",
  word 65 (.keyword .on) "on", word 66 .symbol "large", word 67 (.mark .comma) ",",
  word 68 .boolean "true", word 69 (.mark .comma) ",", word 70 .symbol "A",
  word 71 (.keyword .base) "base", word 72 (.keyword .fn) "fn", word 73 (.mark .leftParen) "(",
  word 74 .symbol "pick", word 75 (.mark .comma) ",", word 76 .string "B",
  word 77 (.mark .comma) ",", word 78 .label "else", word 79 (.operator .subtract) "-",
  word 80 .identifier "total", word 81 (.mark .rightParen) ")", word 82 (.keyword .endWord) "end"]

theorem orderGrade_derived : Declaration (Expression ["tax", "duty"] 4) orderGrade
    (.value ⟨"grade",
      .cascade [
        (.call "cascade_and" [.reference "large", .literal (.boolean true)] [],
          .literal (.symbol "A")),
        (.literal (.boolean true),
          .call "pick" [.literal (.string "B")]
            [("else", .call "subtract" [.literal (.integer 0), .reference "total"] [])])],
      true, ⟨1, 62⟩⟩) := by
  have whole {room : Nat} {t : Token} {e : Expr}
      (h : Primary ["tax", "duty"] (levels ["tax", "duty"] room) [t] e) :
      Expression ["tax", "duty"] (room + 1) [t] e := .operand (.mk h .nil)
  have large : Expression ["tax", "duty"] 4 _ _ := whole (.symbol (word_kind 66 _ "large"))
  have always : Expression ["tax", "duty"] 4 _ _ := whole (.boolean (word_kind 68 _ "true"))
  have first : Case (Expression ["tax", "duty"] 4) _ _ := .on (word_kind 65 _ "on")
    (.cons (.named large) (word_kind 67 _ ",")
      (.one (.plain always (by simp [Expr.boolean, Expr.symbol])) (word_kind 69 _ ",")))
    (whole (.symbol (word_kind 70 _ "A")))
  have negated : Expression ["tax", "duty"] 3 _ _ := .operand (.negation (word_kind 79 _ "-")
    (.mk (.reference (word_kind 80 _ "total")) .nil))
  have arguments : Arguments (levels ["tax", "duty"] 3) _
      ([.literal (.string "B")],
        [("else", .call "subtract" [.literal (.integer 0), .reference "total"] [])]) :=
    .mk (.cons (.positional (whole (.string (word_kind 76 _ "B")))) (word_kind 77 _ ",")
      (.last (.keyed (.mk (word_kind 78 _ "else") negated)))) (by simp) (word_kind 81 _ ")")
  have pick : Primary ["tax", "duty"] (levels ["tax", "duty"] 3) _ _ :=
    .functionCall (word_kind 72 _ "fn") (word_kind 73 _ "(") (word_kind 74 _ "pick")
      (word_kind 75 _ ",") arguments
  have last : Case (Expression ["tax", "duty"] 4) _ _ :=
    .base (word_kind 71 _ "base") (.operand (.mk pick .nil))
  exact .letValue (word_kind 62 _ "let") (word_kind 63 _ "grade")
    (.cascade (word_kind 64 _ "do") (.cons first (.cons last .nil)) (word_kind 82 _ "end"))

end Grammar

open Grammar in
/-- The words of a schema, with a comment among them and one word more after the end. -/
def orderTokens : List Token :=
  [word 1 (.keyword .schema) "schema", word 2 (.keyword .doWord) "do", word 3 .comment "orders"] ++
    orderImport ++ orderInputs ++ orderTotal ++ orderLarge ++ orderGrade ++
    [word 83 (.keyword .endWord) "end", word 84 .eof "", word 85 (.keyword .endWord) "end"]

def orders : Schema where
  inputs := [
    { name := "rows", type := .array, domain := none, accessMode := some .element,
      index := some "row", location := ⟨1, 12⟩
      children := [
        ⟨"price", .element (.primitive .float),
          some (.range (.int 0) (.float (1.0 / 0.0)) true), [], none, none, ⟨1, 18⟩⟩] },
    ⟨"names", .array, none, [], some .field, none, ⟨1, 28⟩⟩]
  values := [
    ⟨"total",
      .call "add" [
        .call "at" [
          .importCall "tax" [("on", .inputPath ["rows", "price"])], .literal (.integer 0)] [],
        .call "power" [
          .literal (.float (.ofBits 0x4004000000000000)),
          .call "power" [.literal (.integer 1000), .reference "duties"] []] []] [],
      false, ⟨1, 31⟩⟩,
    ⟨"grade",
      .cascade [
        (.call "cascade_and" [.reference "large", .literal (.boolean true)] [],
          .literal (.symbol "A")),
        (.literal (.boolean true),
          .call "pick" [.literal (.string "B")]
            [("else", .call "subtract" [.literal (.integer 0), .reference "total"] [])])],
      true, ⟨1, 62⟩⟩]
  traits := [
    ⟨"large",
      .call ">" [
        .call "subtract" [
          .call "subtract" [.reference "total", .literal (.integer 1)] [],
          .literal (.integer 2)] [],
        .literal (.integer 9)] [], ⟨1, 52⟩⟩]
  imports := [⟨["tax", "duty"], "Rates", ⟨1, 4⟩⟩]

open Grammar in
theorem orders_accepted : Schema.ofTokensWithin 4 orderTokens = .ok orders := by
  have derived := Grammar.Schema.mk (word_kind 1 _ "schema") (word_kind 2 _ "do")
    (.cons orderImport_derived .nil) orderInputs_derived
    (.cons orderTotal_derived (.cons orderLarge_derived (.cons orderGrade_derived .nil)))
    (word_kind 83 _ "end") (.value (.trait (.value .nil)))
  exact (Schema.ofTokensWithin_eq_ok_iff_derives 4 orderTokens orders).1.mpr derived

end SchemaLang
