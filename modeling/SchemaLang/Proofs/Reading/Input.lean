import SchemaLang.Proofs.Grammar.Input
import SchemaLang.Proofs.Reading.Basic

namespace SchemaLang.Reader

open Reading

/-- What follows the token of a literal in a domain. -/
def domainStep (t : Token) : Except Cause (Reading Literal) :=
  match t.kind with
  | .integer => intStep t .integer
  | .float => floatStep t .float
  | .string => .ok (pure (.string t.raw))
  | .symbol => .ok (pure (.symbol t.raw))
  | .boolean => .ok (pure (.boolean (t.raw = "true")))
  | _ => .error .expectedDomainLiteral

theorem reading_domainLiteral :
    reading domainLiteral = take .expectedDomainLiteral domainStep := by
  funext ts
  cases ts with
  | nil => rfl
  | cons t rest =>
    rw [reading, domainLiteral, take]
    split
    · next h =>
      simp only [domainStep, h, intValue, intStep]
      cases Decimal.readInt64? (digits t) <;> rfl
    · next h =>
      simp only [domainStep, h, floatValue, floatStep]
      cases Decimal.readFloat? (digits t) <;> rfl
    · next h => simp only [domainStep, h]; rfl
    · next h => simp only [domainStep, h]; rfl
    · next h => simp only [domainStep, h]; rfl
    · simp only [domainStep, *]; rfl

def infinite (negative : Bool) : Bound := .float (if negative then -(1.0 / 0.0) else 1.0 / 0.0)

def isInfinity (t : Token) : Prop := t.kind = .constant ∧ t.raw = "Float::INFINITY"

instance (t : Token) : Decidable (isInfinity t) := inferInstanceAs (Decidable (_ ∧ _))

theorem reading_infinity (negative : Bool) :
    reading (infinity negative) = take .expectedBound fun t =>
      if isInfinity t then .ok (pure (infinite negative)) else .error .expectedBound := by
  funext ts
  cases ts with
  | nil => rfl
  | cons t rest =>
    by_cases h : t.kind = .constant ∧ t.raw = "Float::INFINITY"
    · simp only [reading, infinity, take, if_pos h, if_pos (show isInfinity t from h)]
      rfl
    · simp only [reading, infinity, take, if_neg h, if_neg (show ¬isInfinity t from h)]
      rfl

/-- What follows the token that starts an end of a range. -/
def boundStep (t : Token) : Except Cause (Reading Bound) :=
  match t.kind with
  | .integer => intStep t .int
  | .float => floatStep t .float
  | .operator .subtract => .ok do
    let kind ← look firstKind
    if kind = .constant then reading (infinity true) else refuseAt (some t) .expectedBound
  | _ => if isInfinity t then .ok (pure (infinite false)) else .error .expectedBound

theorem reading_bound : reading bound = take .expectedBound boundStep := by
  funext ts
  cases ts with
  | nil => rfl
  | cons t rest =>
    rw [reading, bound, take]
    split
    · next h =>
      simp only [boundStep, h, intValue, intStep]
      cases Decimal.readInt64? (digits t) <;> rfl
    · next h =>
      simp only [boundStep, h, floatValue, floatStep]
      cases Decimal.readFloat? (digits t) <;> rfl
    · next h =>
      simp only [boundStep, h, look_bind]
      by_cases hc : firstKind rest = .constant
      · simp only [if_pos hc]
        exact reading_last fun p => rfl
      · simp only [if_neg hc]
        rfl
    · simp only [boundStep, *]
      by_cases hi : isInfinity t
      · simp only [infinity, if_pos hi, if_pos (show t.kind = .constant ∧ _ from hi)]
        rfl
      · simp only [infinity, if_neg hi, if_neg (show ¬(t.kind = .constant ∧ _) from hi)]
        rfl

theorem reading_dots :
    reading dots = take .expectedDots fun t =>
      if t.kind = .mark .dotDot then .ok (pure false)
      else if t.kind = .mark .dotDotDot then .ok (pure true)
      else .error .expectedDots := by
  funext ts
  cases ts with
  | nil => rfl
  | cons t rest =>
    rw [reading, dots, take]
    split
    · next h => simp only [h, if_true]; rfl
    · next h => simp only [h]; rfl
    · next h₁ h₂ => simp only [if_neg h₁, if_neg h₂]; rfl

theorem reading_domain :
    reading domain = ifNext (.mark .leftBracket) (fun _ => do
      let values ← reading (separated (.mark .rightBracket) (fun _ => domainLiteral) [])
      pure (.values values)) (do
      let first ← look List.head?
      let min ← reading bound
      let exclusive ← reading dots
      let max ← reading bound
      if min.agree max then pure (.range min max exclusive)
      else refuseAt first .mixedRange) := by
  funext ts
  rw [reading, domain]
  by_cases h : ∃ t rest, ts = t :: rest ∧ t.kind = .mark .leftBracket
  · obtain ⟨t, rest, rfl, hk⟩ := h
    simp only [accept?, ifNext, if_pos hk]
    exact reading_bind fun p => rfl
  · have other : firstKind ts ≠ .mark .leftBracket := by
      cases ts with
      | nil => decide
      | cons t rest => exact fun hk => h ⟨t, rest, rfl, hk⟩
    rw [accept?_of_ne other, ifNext_of_ne other, look_bind]
    apply reading_bind
    intro p
    apply reading_bind
    intro q
    apply reading_bind
    intro r
    obtain ⟨max, rest, _⟩ := r
    by_cases agree : p.value.agree max = true
    · simp only [if_pos agree]
      rfl
    · simp only [if_neg agree]
      rfl

theorem reading_elementType :
    reading elementType = take .expectedSymbol fun t =>
      if t.kind = .symbol then
        match InputType.ofElementName? t.raw with
        | some type => .ok (pure type)
        | none => .error .unknownElementType
      else .error (if t.isWord then .missingColon else .expectedSymbol) := by
  funext ts
  cases ts with
  | nil => rfl
  | cons t rest =>
    by_cases h : t.kind = .symbol
    · simp only [reading, elementType, symbol, take, if_pos h, InputType.ofElementName?]
      by_cases ha : t.raw = "array"
      · simp only [ha, bind, Except.bind]
        rfl
      · by_cases hh : t.raw = "hash"
        · simp only [hh, bind, Except.bind]
          rfl
        · simp only [if_neg ha, if_neg hh, bind, Except.bind]
          cases Primitive.ofName? t.raw <;> rfl
    · simp only [reading, elementType, symbol, take, if_neg h]
      rfl

/-- What follows the word that starts a declaration of an input. -/
def headStep (inArray : Bool) (t : Token) : Except Cause (Reading (InputType × String)) :=
  let named (type : InputType) : Reading (InputType × String) := do
    let name ← reading symbol
    pure (type, name)
  match t.kind with
  | .type .array => .ok (named .array)
  | .type .hash => .ok (named .hash)
  | .type (.primitive type) => .ok (named (.primitive type))
  | .type .index => if inArray then .ok (named .index) else .error .indexOutsideArray
  | .type .element =>
    if inArray then .ok do
      let type ← reading elementType
      let _ ← reading (expect (.mark .comma))
      let name ← reading symbol
      pure (.element type, name)
    else .error .elementOutsideArray
  | _ => .error .expectedInputType

theorem reading_inputHead (inArray : Bool) :
    reading (inputHead inArray) = take .expectedInputType (headStep inArray) := by
  funext ts
  cases ts with
  | nil => rfl
  | cons t rest =>
    rw [reading, inputHead, take]
    split
    · next h => simp only [headStep, h]; exact reading_bind fun p => rfl
    · next h => simp only [headStep, h]; exact reading_bind fun p => rfl
    · next h => simp only [headStep, h]; exact reading_bind fun p => rfl
    · next h =>
      cases inArray with
      | false => simp only [headStep, h]; rfl
      | true => simp only [headStep, h]; exact reading_bind fun p => rfl
    · next h =>
      cases inArray with
      | false => simp only [headStep, h]; rfl
      | true =>
        simp only [headStep, h]
        apply reading_bind
        intro p
        apply reading_bind
        intro q
        exact reading_bind fun r => rfl
    · simp only [headStep, *]; rfl

/-- What follows the label of an option. -/
def optionStep (type : InputType) (options : InputOptions) (t : Token) :
    Except Cause (Reading InputOptions) :=
  if t.kind ≠ .label then .error .expectedOption
  else if t.raw = "domain" then .ok do
    let d ← reading domain
    pure { options with domain := some d }
  else if t.raw = "index" then
    if type.isArray then .ok do
      let name ← reading symbol
      pure { options with index := some name }
    else .error .indexOption
  else .error .unknownOption

theorem reading_inputOption (type : InputType) (options : InputOptions) :
    reading (inputOption type options) = take .expectedOption (optionStep type options) := by
  funext ts
  cases ts with
  | nil => rfl
  | cons t rest =>
    rw [reading, inputOption, take, optionStep]
    by_cases hl : t.kind ≠ .label
    · simp only [if_pos hl]; rfl
    by_cases hd : t.raw = "domain"
    · simp only [if_neg hl, if_pos hd]
      exact reading_bind fun p => rfl
    by_cases hi : t.raw = "index"
    · by_cases ha : type.isArray = true
      · simp only [if_neg hl, if_neg hd, if_pos hi, if_pos ha]
        exact reading_bind fun p => rfl
      · simp only [if_neg hl, if_neg hd, if_pos hi, if_neg ha]
        rfl
    · simp only [if_neg hl, if_neg hd, if_neg hi]
      rfl

theorem reading_inputOptions (type : InputType) (options : InputOptions) :
    reading (inputOptions type options) = ifNext (.mark .comma) (fun _ => do
      let options ← reading (inputOption type options)
      reading (inputOptions type options)) (pure options) := by
  funext ts
  rw [reading, inputOptions]
  cases ts with
  | nil => rfl
  | cons t rest =>
    by_cases h : t.kind = .mark .comma
    · simp only [accept?, ifNext, if_pos h]
      apply reading_bind
      intro p
      exact reading_last fun q => rfl
    · simp only [accept?, ifNext, if_neg h]
      rfl

def styleNext (array : Option String) (style : Option AccessMode) : Reading (Option AccessMode) :=
  fun ts => (array.elim (pure style) fun name => nextStyle name style ts).map fun s => (s, ts)

theorem styleNext_of_none {name : String} {style : Option AccessMode} {ts : List Token}
    (h : (firstKind ts).style? = none) : styleNext (some name) style ts = .ok (style, ts) := by
  have index : firstKind ts = .type .index := by
    unfold Kind.style? at h
    split at h
    · assumption
    · cases h
    · cases h
  simp only [styleNext, Option.elim, nextStyle, index]
  rfl

theorem nextStyle_of_some {name : String} {style : Option AccessMode} {mode : AccessMode}
    {ts : List Token} (h : (firstKind ts).style? = some mode) :
    nextStyle name style ts = if style.isSome ∧ style ≠ some mode then
      fail ts (.mixedArray name) else .ok (some mode) := by
  unfold nextStyle Kind.style? at *
  split at h
  · cases h
  · next he => cases h; simp only [he, if_true]
  · next hi he =>
    cases h
    split
    · next hi' => exact absurd hi' hi
    · simp only [if_neg he]

theorem styleNext_of_mixed {name : String} {style : Option AccessMode} {mode : AccessMode}
    {ts : List Token} (h : (firstKind ts).style? = some mode)
    (hm : style.isSome ∧ style ≠ some mode) :
    styleNext (some name) style ts = .error ⟨ts.head?, .mixedArray name⟩ := by
  simp only [styleNext, Option.elim, nextStyle_of_some h, if_pos hm]
  rfl

theorem styleNext_of_some {name : String} {style : Option AccessMode} {mode : AccessMode}
    {ts : List Token} (h : (firstKind ts).style? = some mode)
    (hm : ¬(style.isSome ∧ style ≠ some mode)) :
    styleNext (some name) style ts = .ok (some mode, ts) := by
  simp only [styleNext, Option.elim, nextStyle_of_some h, if_neg hm]
  rfl

theorem styleNext_rest {array : Option String} {style style' : Option AccessMode}
    {ts rest : List Token} (h : styleNext array style ts = .ok (style', rest)) : rest = ts := by
  rw [styleNext] at h
  cases hs : array.elim (pure style) fun name => nextStyle name style ts with
  | error fault =>
    rw [hs] at h
    cases h
  | ok next =>
    rw [hs] at h
    cases h
    rfl

theorem reading_inputList (decl : Bool → Reader Input) (array : Option String)
    (style : Option AccessMode) :
    reading (inputList decl array style) = (do
      let first ← look List.head?
      match first with
      | none => pure []
      | some t =>
        if t.kind = .keyword .endWord then pure []
        else do
          let style ← styleNext array style
          let input ← reading (decl array.isSome)
          let inputs ← reading (inputList decl array style)
          pure (input :: inputs)) := by
  funext ts
  rw [look_bind, reading]
  cases ts with
  | nil => rw [inputList]; rfl
  | cons t rest =>
    rw [inputList]
    by_cases h : t.kind = .keyword .endWord
    · simp only [List.head?_cons, if_pos h]
      rfl
    · simp only [List.head?_cons, if_neg h]
      rw [bind_apply, styleNext]
      cases array.elim (pure style) fun name => nextStyle name style (t :: rest) with
      | error e => rfl
      | ok style =>
        simp only [Except.map, Reading.ok_bind]
        apply reading_bind
        intro p
        exact reading_bind fun q => rfl

theorem reading_inputBlock (nested : Option String → Tail (List Input)) (type : InputType)
    (name : String) :
    reading (inputBlock nested type name) = (do
      let kind ← look firstKind
      if kind = .keyword .doWord ∧ type.isContainer = false then refuse (.notContainer name)
      else ifNext (.keyword .doWord) (fun _ => do
        let children ← reading (nested (if type.isArray then some name else none))
        let _ ← reading (expect (.keyword .endWord))
        pure children) (pure [])) := by
  funext ts
  rw [look_bind, reading, inputBlock]
  cases ts with
  | nil => rfl
  | cons t rest =>
    by_cases h : t.kind = .keyword .doWord
    · cases hc : type.isContainer with
      | false =>
        simp only [accept?, firstKind, h, and_self, if_true]
        rfl
      | true =>
        simp only [accept?, firstKind, ifNext, h, if_true, Bool.not_true, Bool.false_eq_true,
          if_false, reduceCtorEq, and_false]
        apply reading_bind
        intro p
        exact reading_bind fun q => rfl
    · simp only [accept?, firstKind, ifNext, h, false_and, if_false]
      rfl

def firstLocation (ts : List Token) : Location := (ts.head?.map Token.location).getD .start

theorem reading_input (nested : Option String → Tail (List Input)) (inArray : Bool) :
    reading (input nested inArray) = (do
      let location ← look firstLocation
      let head ← reading (inputHead inArray)
      let options ← reading (inputOptions head.1 ⟨none, none⟩)
      let children ← reading (inputBlock nested head.1 head.2)
      pure {
        name := head.2
        type := head.1
        children
        domain := options.domain
        accessMode := accessMode head.1 children
        index := options.index
        location }) := by
  funext ts
  rw [look_bind, reading, input]
  apply reading_bind
  intro p
  apply reading_bind
  intro q
  exact reading_bind fun r => rfl

/-- The readers of the blocks inside declarations that may open `room` of them. -/
def nestedInputs : Nat → Option String → Tail (List Input)
  | 0, _ => fun ts => fail ts (.tooDeep .input)
  | room + 1, array => inputs room array

theorem inputs_eq (room : Nat) (array : Option String) :
    inputs room array = inputList (input (nestedInputs room)) array none := by
  cases room <;> rw [inputs] <;> rfl

end SchemaLang.Reader
