import SchemaLang.Proofs.Complete.Expr
import SchemaLang.Proofs.Grammar.Levels
import SchemaLang.Proofs.Nesting.Expr

namespace SchemaLang

namespace Operator

/-- Whether another operator may group its operands first on a side of this one: it binds more
tightly, or as tightly where such operators group first on that side. -/
def Holds (op : Operator) (side : Side) (inner : Operator) : Prop :=
  op.precedence < inner.precedence ∨ op.precedence = inner.precedence ∧ inner.associativity = side

instance (op : Operator) (side : Side) (inner : Operator) : Decidable (op.Holds side inner) :=
  inferInstanceAs (Decidable (_ ∨ _))

theorem holds_left_iff (op inner : Operator) :
    op.Holds .left inner ↔ op.leftPrecedence ≤ inner.precedence := by
  cases op <;> cases inner <;> decide

theorem holds_right_iff (op inner : Operator) :
    op.Holds .right inner ↔ op.rightPrecedence ≤ inner.precedence := by
  cases op <;> cases inner <;> decide

theorem Holds.precedence_le {op inner : Operator} {side : Side} (h : op.Holds side inner) :
    op.precedence ≤ inner.precedence := by
  rcases h with h | ⟨h, _⟩ <;> omega

/-- An operator that does not take the one before it as its left side belongs to its right side. -/
theorem holds_right_of_not_left {op inner : Operator} (h : ¬inner.Holds .left op) :
    op.Holds .right inner := by
  rw [holds_left_iff, leftPrecedence_le_iff, Nat.not_lt] at h
  exact (holds_right_iff op inner).mpr h

theorem not_holds_left_of_right {op inner : Operator} (h : op.Holds .right inner) :
    ¬inner.Holds .left op := by
  rw [holds_left_iff, leftPrecedence_le_iff, Nat.not_lt]
  exact (holds_right_iff op inner).mp h

end Operator

/-- Operands that are grouped by two, each time around an operator. -/
inductive Grouping where
  | operand (e : Expr)
  | node (op : Operator) (left right : Grouping)

namespace Grouping

def first : Grouping → Expr
  | .operand e => e
  | .node _ left _ => left.first

/-- The operators from left to right, each with the operand after it. -/
def links : Grouping → List (Operator × Expr)
  | .operand _ => []
  | .node op left right => left.links ++ (op, right.first) :: right.links

def root? : Grouping → Option Operator
  | .operand _ => none
  | .node op _ _ => some op

/-- Each operator as a call on its two sides. -/
def expr : Grouping → Expr
  | .operand e => e
  | .node op left right => .call op.callee [left.expr, right.expr] []

/-- Whether the operators on both sides of each operator may group their operands first. -/
def Ordered : Grouping → Prop
  | .operand _ => True
  | .node op left right =>
    (∀ inner ∈ left.root?, op.Holds .left inner) ∧
      (∀ inner ∈ right.root?, op.Holds .right inner) ∧ left.Ordered ∧ right.Ordered

/-- One more operator and operand on the right. The operator takes as its left side all that may
group first there. -/
def snoc (op : Operator) (e : Expr) : Grouping → Grouping
  | .operand a => .node op (.operand a) (.operand e)
  | .node other left right =>
    if op.Holds .left other then .node op (.node other left right) (.operand e)
    else .node other left (right.snoc op e)

/-- The grouping of an operand and of the operators and operands after it. -/
def ofLinks (tree : Grouping) (links : List (Operator × Expr)) : Grouping :=
  links.foldl (fun tree link => tree.snoc link.1 link.2) tree

theorem snoc_of_holds {tree : Grouping} {op : Operator} (e : Expr)
    (h : ∀ inner ∈ tree.root?, op.Holds .left inner) :
    tree.snoc op e = .node op tree (.operand e) := by
  cases tree with
  | operand a => rfl
  | node other left right => exact if_pos (h other rfl)

theorem snoc_of_right {other op : Operator} (h : other.Holds .right op) (left right : Grouping)
    (e : Expr) : (node other left right).snoc op e = .node other left (right.snoc op e) :=
  if_neg (Operator.not_holds_left_of_right h)

theorem first_snoc (tree : Grouping) (op : Operator) (e : Expr) :
    (tree.snoc op e).first = tree.first := by
  induction tree with
  | operand a => rfl
  | node other left right _ _ =>
    rw [snoc]
    split <;> rfl

theorem links_snoc (tree : Grouping) (op : Operator) (e : Expr) :
    (tree.snoc op e).links = tree.links ++ [(op, e)] := by
  induction tree with
  | operand a => rfl
  | node other left right _ ih =>
    rw [snoc]
    split
    · rfl
    · simp [links, ih, first_snoc]

theorem root?_snoc (tree : Grouping) (op : Operator) (e : Expr) :
    (tree.snoc op e).root? = some op ∨ (tree.snoc op e).root? = tree.root? := by
  cases tree with
  | operand a => exact .inl rfl
  | node other left right =>
    rw [snoc]
    split
    · exact .inl rfl
    · exact .inr rfl

theorem Ordered.snoc {tree : Grouping} (h : tree.Ordered) (op : Operator) (e : Expr) :
    (tree.snoc op e).Ordered := by
  induction tree with
  | operand a => simp [Grouping.snoc, Ordered, root?]
  | node other left right _ ih =>
    by_cases hop : op.Holds .left other
    · have top :
          (node other left right).snoc op e = .node op (.node other left right) (.operand e) :=
        if_pos hop
      rw [top]
      refine ⟨?_, by simp [root?], h, trivial⟩
      rintro inner ⟨⟩
      exact hop
    · obtain ⟨hleft, hright, hl, hr⟩ := h
      have inside := Operator.holds_right_of_not_left hop
      rw [snoc_of_right inside]
      refine ⟨hleft, fun inner hinner => ?_, hl, ih hr⟩
      rcases right.root?_snoc op e with hroot | hroot
      · rw [hroot] at hinner
        cases hinner
        exact inside
      · exact hright inner (hroot ▸ hinner)

theorem Ordered.ofLinks {tree : Grouping} (h : tree.Ordered) (more : List (Operator × Expr)) :
    (tree.ofLinks more).Ordered := by
  induction more generalizing tree with
  | nil => exact h
  | cons link more ih => exact ih (h.snoc link.1 link.2)

theorem first_ofLinks (tree : Grouping) (more : List (Operator × Expr)) :
    (tree.ofLinks more).first = tree.first := by
  induction more generalizing tree with
  | nil => rfl
  | cons link more ih => exact (ih _).trans (tree.first_snoc link.1 link.2)

theorem links_ofLinks (tree : Grouping) (more : List (Operator × Expr)) :
    (tree.ofLinks more).links = tree.links ++ more := by
  induction more generalizing tree with
  | nil => exact (List.append_nil _).symm
  | cons link more ih =>
    have next := ih (tree.snoc link.1 link.2)
    rw [links_snoc, List.append_assoc] at next
    exact next

/-- No operator of an ordered grouping binds less tightly than the one that is applied last. -/
theorem Ordered.le_precedence {tree : Grouping} (h : tree.Ordered) {least : Nat}
    (hroot : ∀ op ∈ tree.root?, least ≤ op.precedence) :
    ∀ link ∈ tree.links, least ≤ link.1.precedence := by
  induction tree with
  | operand e => simp [links]
  | node op left right ihl ihr =>
    obtain ⟨hleft, hright, hl, hr⟩ := h
    have top : least ≤ op.precedence := hroot op rfl
    have inLeft := ihl hl fun inner hi => Nat.le_trans top (hleft inner hi).precedence_le
    have inRight := ihr hr fun inner hi => Nat.le_trans top (hright inner hi).precedence_le
    intro link hlink
    rcases List.mem_append.mp hlink with hlink | hlink
    · exact inLeft link hlink
    · rcases List.mem_cons.mp hlink with rfl | hlink
      · exact top
      · exact inRight link hlink

/-- Operators that may all group first on the right side of another are added to that side. -/
theorem ofLinks_node {op : Operator} {more : List (Operator × Expr)}
    (h : ∀ link ∈ more, op.Holds .right link.1) (left right : Grouping) :
    (node op left right).ofLinks more = .node op left (right.ofLinks more) := by
  induction more generalizing right with
  | nil => rfl
  | cons link more ih =>
    have step := snoc_of_right (h link (by simp)) left right link.2
    calc (node op left right).ofLinks (link :: more)
        = ((node op left right).snoc link.1 link.2).ofLinks more := rfl
      _ = (node op left (right.snoc link.1 link.2)).ofLinks more := by rw [step]
      _ = .node op left ((right.snoc link.1 link.2).ofLinks more) :=
        ih (fun other ho => h other (by simp [ho])) _

/-- An ordered grouping is found again from its operands and operators. -/
theorem Ordered.ofLinks_eq {tree : Grouping} (h : tree.Ordered) :
    (operand tree.first).ofLinks tree.links = tree := by
  induction tree with
  | operand e => rfl
  | node op left right ihl ihr =>
    obtain ⟨hleft, hright, hl, hr⟩ := h
    have tight : ∀ link ∈ right.links, op.Holds .right link.1 := by
      intro link hlink
      rw [Operator.holds_right_iff]
      refine hr.le_precedence (fun inner hi => ?_) link hlink
      exact (Operator.holds_right_iff op inner).mp (hright inner hi)
    calc (operand left.first).ofLinks (left.links ++ (op, right.first) :: right.links)
        = ((operand left.first).ofLinks left.links).ofLinks ((op, right.first) :: right.links) :=
          List.foldl_append
      _ = left.ofLinks ((op, right.first) :: right.links) := by rw [ihl hl]
      _ = (left.snoc op right.first).ofLinks right.links := rfl
      _ = (node op left (.operand right.first)).ofLinks right.links := by
        rw [snoc_of_holds right.first hleft]
      _ = .node op left ((operand right.first).ofLinks right.links) := ofLinks_node tight _ _
      _ = .node op left right := by rw [ihr hr]

/-- Operands and operators have one ordered grouping. -/
theorem Ordered.unique {tree other : Grouping} (h : tree.Ordered) (ho : other.Ordered)
    (hfirst : other.first = tree.first) (hlinks : other.links = tree.links) : other = tree := by
  rw [← ho.ofLinks_eq, hfirst, hlinks, h.ofLinks_eq]

end Grouping

namespace Grammar

variable {imported : List String}

/-- Operands with operators between them: the first operand, and the operators from left to right,
each with the operand after it. -/
inductive Chain (operand : Phrase Expr) : Phrase (Expr × List (Operator × Expr))
  | one {p : List Token} {e : Expr} : operand p e → Chain operand p (e, [])
  | cons {t : Token} {op : Operator} {p q : List Token} {e next : Expr}
    {more : List (Operator × Expr)} : operand p e → t.kind = .operator op →
    Chain operand q (next, more) → Chain operand (p ++ t :: q) (e, (op, next) :: more)

theorem Chain.mono {operand operand' : Phrase Expr} (h : ∀ p e, operand p e → operand' p e)
    {p : List Token} {chain : Expr × List (Operator × Expr)} (hp : Chain operand p chain) :
    Chain operand' p chain := by
  induction hp with
  | one ha => exact .one (h _ _ ha)
  | cons ha ht _ ih => exact .cons (h _ _ ha) ht ih

/-- A chain falls into two at each of its operators. -/
theorem Chain.split {operand : Phrase Expr} {p : List Token} {first e : Expr} {op : Operator}
    {before after : List (Operator × Expr)}
    (hp : Chain operand p (first, before ++ (op, e) :: after)) :
    ∃ q t r, p = q ++ t :: r ∧ t.kind = .operator op ∧ Chain operand q (first, before) ∧
      Chain operand r (e, after) := by
  induction before generalizing p first with
  | nil =>
    cases hp with
    | cons ha ht hr => exact ⟨_, _, _, rfl, ht, .one ha, hr⟩
  | cons link before ih =>
    cases hp with
    | @cons u _ p q _ _ _ ha hu hq =>
      obtain ⟨q₁, t, r, rfl, ht, hq₁, hr⟩ := ih hq
      exact ⟨p ++ u :: q₁, t, r, by simp, ht, .cons ha hu hq₁, hr⟩

/-- Operands that each keep to a number of levels keep to the greatest of them. -/
theorem Chain.exists_room {p : List Token} {chain : Expr × List (Operator × Expr)}
    (hp : Chain (fun p e => ∃ room, Operand imported (levels imported room) p e) p chain) :
    ∃ room, Chain (Operand imported (levels imported room)) p chain := by
  induction hp with
  | one ha =>
    obtain ⟨room, ha⟩ := ha
    exact ⟨room, .one ha⟩
  | cons ha ht _ ih =>
    obtain ⟨room, ha⟩ := ha
    obtain ⟨room', hq⟩ := ih
    have first := Operand.mono (levels_le (Nat.le_max_left room room')) _ _ ha
    have more := hq.mono (Operand.mono (levels_le (Nat.le_max_right room room')))
    exact ⟨max room room', .cons first ht more⟩

/-- With enough levels, a chain of operands is a phrase for its ordered grouping. -/
theorem Chain.exists_binary {room : Nat} {tree : Grouping} (h : tree.Ordered) {p : List Token}
    (hp : Chain (Operand imported (levels imported room)) p (tree.first, tree.links)) :
    ∃ room', ∀ least, (∀ op ∈ tree.root?, least ≤ op.precedence) →
      Binary imported (levels imported room') least p tree.expr := by
  induction tree generalizing p with
  | operand e =>
    cases hp with
    | one ha => exact ⟨room, fun _ _ => .operand ha⟩
  | node op left right ihl ihr =>
    obtain ⟨hleft, hright, hl, hr⟩ := h
    obtain ⟨q, t, r, rfl, ht, hq, hr'⟩ := hp.split
    obtain ⟨room₁, first⟩ := ihl hl hq
    obtain ⟨room₂, second⟩ := ihr hr hr'
    have leftSide := first op.leftPrecedence fun inner hi =>
      (op.holds_left_iff inner).mp (hleft inner hi)
    have rightSide : (levels imported (room₂ + 1)).climb op.rightPrecedence r right.expr :=
      second op.rightPrecedence fun inner hi => (op.holds_right_iff inner).mp (hright inner hi)
    -- the right side is read one level further in
    refine ⟨max room₁ (room₂ + 1), fun least hleast => .operator ht (hleast op rfl) ?_ ?_⟩
    · exact Binary.mono (levels_le (Nat.le_max_left _ _)) _ _ _ leftSide
    · exact (levels_le (Nat.le_max_right _ _)).climb _ _ _ rightSide

end Grammar

namespace Reader

open Reading

/-- Tokens that are taken as an operand, all of them and no others, when some tokens follow. -/
def Whole (imported : List String) : Phrase Expr := fun p e =>
  ∃ room rest, reading (operand imported (levels imported room)) (p ++ rest) = .ok (e, rest)

theorem Whole.operand {imported : List String} {p : List Token} {e : Expr}
    (h : Whole imported p e) :
    ∃ room, Grammar.Operand imported (Grammar.levels imported room) p e := by
  obtain ⟨room, rest, hread⟩ := h
  have follows : Predicts False (Grammar.Operand imported (Grammar.levels imported room))
      (reading (Reader.operand imported (levels imported room))) (p ++ rest) :=
    predicts_operand (levels_predicts imported room) (p ++ rest)
  obtain ⟨q, hq, hphrase, _⟩ := follows.ok e rest hread
  rw [List.append_cancel_right hq]
  exact ⟨room, hphrase⟩

/-- With fewer levels an expression is read as with more, or refused as nested too deeply. -/
theorem expression_fewer {imported : List String} {room room' : Nat} (hlt : room < room')
    (ts : List Token) :
    reading (expression imported room) ts = reading (expression imported room') ts ∨
      ∃ fault, reading (expression imported room) ts = .error fault ∧ fault.cause.isDeep := by
  have own := (levels_follow imported (Nat.zero_add room)).climb 0 ts
  have more := (levels_follow imported (Nat.zero_add room')).climb 0 ts
  obtain ⟨_, hown⟩ := own
  obtain ⟨peak, hmore⟩ := more
  by_cases hpeak : peak ≤ room
  · exact .inl (hown.unique (hmore.of_peak_le hlt hpeak)).1
  · obtain ⟨token, nesting, hdeep⟩ :=
      hmore.of_lt_peak hlt (Nat.zero_le room) (Nat.not_le.mp hpeak)
    exact .inr ⟨_, (hown.unique hdeep).1, rfl⟩

/-- Operands of any sort with operators between them are read as the one grouping in which each
operator on a side of another binds more tightly, or as tightly on the side where such operators
group first. All of their tokens are taken, unless they nest too deeply, which they do not if there
are enough levels. -/
theorem expression_groups {imported : List String} {p rest : List Token} {first : Expr}
    {links : List (Operator × Expr)} (hp : Grammar.Chain (Whole imported) p (first, links))
    (hrest : Free 0 rest) :
    ∃ tree : Grouping, tree.Ordered ∧ tree.first = first ∧ tree.links = links ∧
      (∀ other : Grouping, other.Ordered → other.first = first → other.links = links →
        other = tree) ∧
      (∀ room, reading (expression imported room) (p ++ rest) = .ok (tree.expr, rest) ∨
        ∃ fault, reading (expression imported room) (p ++ rest) = .error fault ∧
          fault.cause.isDeep) ∧
      ∃ enough, ∀ room, enough ≤ room →
        reading (expression imported room) (p ++ rest) = .ok (tree.expr, rest) := by
  obtain ⟨tree, ordered, rfl, rfl⟩ : ∃ tree : Grouping, tree.Ordered ∧ tree.first = first ∧
      tree.links = links := by
    have single : (Grouping.operand first).Ordered := trivial
    exact ⟨_, single.ofLinks links, Grouping.first_ofLinks _ links, Grouping.links_ofLinks _ links⟩
  obtain ⟨room, hchain⟩ := (hp.mono fun _ _ => Whole.operand).exists_room
  obtain ⟨enough, hbinary⟩ := hchain.exists_binary ordered
  have read (room : Nat) (hle : enough + 1 ≤ room) :
      reading (expression imported room) (p ++ rest) = .ok (tree.expr, rest) := by
    have phrase : (Grammar.levels imported (enough + 1)).climb 0 p tree.expr :=
      hbinary 0 fun op _ => Nat.zero_le _
    exact (levels_takes imported room).climb 0 p tree.expr rest
      ((Grammar.levels_le hle).climb 0 p tree.expr phrase) hrest
  refine ⟨tree, ordered, rfl, rfl, fun other ho hf hl => ordered.unique ho hf hl, fun room => ?_,
    enough + 1, read⟩
  by_cases hle : enough + 1 ≤ room
  · exact .inl (read room hle)
  · rcases expression_fewer (Nat.not_le.mp hle) (p ++ rest) with same | deep
    · exact .inl (same.trans (read (enough + 1) (Nat.le_refl _)))
    · exact .inr deep

/-- Each operator with the name after it, in
`a or b and c == d + e * f ** g ** h / i % j - k != l > m < n >= o <= p and q or r`. -/
def mixedLinks : List (Operator × String) :=
  [(.or, "b"), (.and, "c"), (.eq, "d"), (.add, "e"), (.multiply, "f"), (.exponent, "g"),
    (.exponent, "h"), (.divide, "i"), (.modulo, "j"), (.subtract, "k"), (.ne, "l"), (.gt, "m"),
    (.lt, "n"), (.ge, "o"), (.le, "p"), (.and, "q"), (.or, "r")]

/-- The tokens of a name and of the operators and names after it. -/
def chainTokens (first : String) (links : List (Operator × String)) : List Token :=
  sample .identifier first ::
    links.flatMap fun link => [sample (.operator link.1) "", sample .identifier link.2]

/-- What the names say: powers from the right, and then products, sums, comparisons, `and` and `or`,
each from the left. -/
def mixedExpr : Expr :=
  .call "or" [
    .call "or" [.reference "a",
      .call "and" [
        .call "and" [.reference "b",
          .call "<=" [
            .call ">=" [
              .call "<" [
                .call ">" [
                  .call "!=" [
                    .call "==" [.reference "c",
                      .call "subtract" [
                        .call "add" [.reference "d",
                          .call "modulo" [
                            .call "divide" [
                              .call "multiply" [.reference "e",
                                .call "power" [.reference "f",
                                  .call "power" [.reference "g", .reference "h"] []] []] [],
                              .reference "i"] [],
                            .reference "j"] []] [],
                        .reference "k"] []] [],
                    .reference "l"] [],
                  .reference "m"] [],
                .reference "n"] [],
              .reference "o"] [],
            .reference "p"] []] [],
        .reference "q"] []] [],
    .reference "r"] []

theorem mixedLinks_group :
    Grammar.Chain (Whole []) (chainTokens "a" mixedLinks)
        (.reference "a", mixedLinks.map fun link => (link.1, .reference link.2)) ∧
      Free 0 [sample (.mark .comma) ","] ∧
      ∃ enough, ∀ room, enough ≤ room →
        reading (expression [] room) (chainTokens "a" mixedLinks ++ [sample (.mark .comma) ","]) =
          .ok (mixedExpr, [sample (.mark .comma) ","]) := by
  have name (text : String) : Whole [] [sample .identifier text] (.reference text) := by
    refine ⟨0, [], operand_takes (levels_takes [] 0) _ _ [] (.mk (.reference rfl) .nil) ?_⟩
    exact ⟨⟨by decide, by decide⟩, by decide⟩
  have chain (first : String) (links : List (Operator × String)) :
      Grammar.Chain (Whole []) (chainTokens first links)
        (.reference first, links.map fun link => (link.1, .reference link.2)) := by
    induction links generalizing first with
    | nil => exact .one (name first)
    | cons link links ih => exact .cons (name first) rfl (ih link.2)
  have stop : Free 0 [sample (.mark .comma) ","] := free_of_closes rfl []
  obtain ⟨tree, ordered, hfirst, hlinks, _, _, read⟩ :=
    expression_groups (chain "a" mixedLinks) stop
  have found := ordered.ofLinks_eq
  rw [hfirst, hlinks] at found
  rw [← found] at read
  exact ⟨chain "a" mixedLinks, stop, read⟩

end Reader

end SchemaLang
