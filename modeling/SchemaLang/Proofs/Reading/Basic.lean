import SchemaLang.Reader.Basic

namespace SchemaLang

variable {α β : Type}

/-- What was read, without the bound on what is left over. -/
def Parsed.pair {n : Nat} (p : Parsed α n) : α × List Token := (p.value, p.rest)

namespace Reader

/-- A reader that does not say how many tokens it leaves over. -/
abbrev Reading (α : Type) := StateT (List Token) (Except Fault) α

/-- A reader without the bound on what it leaves over. -/
def reading {n : List Token → Nat}
    (f : (ts : List Token) → Except Fault (Parsed α (n ts))) : Reading α := fun ts =>
  (f ts).map Parsed.pair

namespace Reading

/-- Refuses a token that was seen earlier, or the end. -/
def refuseAt (token : Option Token) (cause : Cause) : Reading α := fun _ => .error ⟨token, cause⟩

def refuse (cause : Cause) : Reading α := fun ts => .error ⟨ts.head?, cause⟩

def look (view : List Token → α) : Reading α := fun ts => .ok (view ts, ts)

/-- Takes the first token and goes on as it tells, unless it is refused. -/
def take (atEnd : Cause) (step : Token → Except Cause (Reading α)) : Reading α
  | [] => .error ⟨none, atEnd⟩
  | t :: rest =>
    match step t with
    | .error cause => .error ⟨some t, cause⟩
    | .ok next => next rest

/-- Takes a token of the given kind if one stands first. -/
def ifNext (kind : Kind) (yes : Token → Reading α) (no : Reading α) : Reading α
  | [] => no []
  | t :: rest => if t.kind = kind then yes t rest else no (t :: rest)

theorem bind_apply (x : Reading α) (k : α → Reading β) (ts : List Token) :
    (x >>= k) ts = x ts >>= fun q => k q.1 q.2 := rfl

theorem ok_bind {ε : Type} (a : α) (k : α → Except ε β) : (Except.ok a >>= k) = k a := rfl

theorem bind_of_ok {x : Reading α} {k : α → Reading β} {ts rest : List Token} {a : α}
    (h : x ts = .ok (a, rest)) : (x >>= k) ts = k a rest := by
  rw [bind_apply, h]
  rfl

theorem bind_of_error {x : Reading α} {k : α → Reading β} {ts : List Token} {fault : Fault}
    (h : x ts = .error fault) : (x >>= k) ts = .error fault := by
  rw [bind_apply, h]
  rfl

theorem bind_eq_ok {x : Reading α} {k : α → Reading β} {ts rest : List Token} {b : β}
    (h : (x >>= k) ts = .ok (b, rest)) :
    ∃ a mid, x ts = .ok (a, mid) ∧ k a mid = .ok (b, rest) := by
  rw [bind_apply] at h
  cases hx : x ts with
  | error fault => rw [hx] at h; cases h
  | ok q => exact ⟨q.1, q.2, rfl, by rw [hx] at h; exact h⟩

theorem look_bind (view : List Token → α) (k : α → Reading β) (ts : List Token) :
    (look view >>= k) ts = k (view ts) ts := rfl

theorem take_of_ok {atEnd : Cause} {step : Token → Except Cause (Reading α)} {t : Token}
    {next : Reading α} (h : step t = .ok next) (rest : List Token) :
    take atEnd step (t :: rest) = next rest := by
  simp only [take, h]

theorem ifNext_of_eq {kind : Kind} {yes : Token → Reading α} {no : Reading α} {t : Token}
    (h : t.kind = kind) (rest : List Token) :
    ifNext kind yes no (t :: rest) = yes t rest := by
  simp only [ifNext, if_pos h]

theorem ifNext_of_ne {kind : Kind} {yes : Token → Reading α} {no : Reading α}
    {ts : List Token} (h : firstKind ts ≠ kind) :
    ifNext kind yes no ts = no ts := by
  cases ts with
  | nil => rfl
  | cons t rest => simp only [ifNext, if_neg (show ¬t.kind = kind from h)]

end Reading

theorem accept?_of_ne {kind : Kind} {ts : List Token} (h : firstKind ts ≠ kind) :
    accept? kind ts = none := by
  cases ts with
  | nil => rfl
  | cons t rest => exact if_neg h

/-- What a successful reader leaves over is as short as the reader says. -/
theorem reading_length {n : List Token → Nat}
    {f : (ts : List Token) → Except Fault (Parsed α (n ts))} {ts rest : List Token} {a : α}
    (h : reading f ts = .ok (a, rest)) : rest.length < n ts := by
  rw [reading] at h
  cases hf : f ts with
  | error e => rw [hf] at h; cases h
  | ok p =>
    rw [hf] at h
    cases h
    exact p.shorter

theorem reading_bind {m : List Token → Nat} {n : Nat}
    {f : (ts : List Token) → Except Fault (Parsed α (m ts))} {ts : List Token}
    {g : Parsed α (m ts) → Except Fault (Parsed β n)} {k : α → Reading β}
    (h : ∀ p, (g p).map Parsed.pair = k p.value p.rest) :
    (f ts >>= g).map Parsed.pair = (reading f >>= k) ts := by
  simp only [Reading.bind_apply, reading]
  cases f ts with
  | error e => rfl
  | ok p => exact h p

theorem reading_last {m : List Token → Nat} {n : Nat}
    {f : (ts : List Token) → Except Fault (Parsed α (m ts))} {ts : List Token}
    {g : Parsed α (m ts) → Except Fault (Parsed α n)}
    (h : ∀ p, (g p).map Parsed.pair = .ok p.pair) :
    (f ts >>= g).map Parsed.pair = reading f ts := by
  simp only [reading]
  cases f ts with
  | error e => rfl
  | ok p => exact h p

open Reading

theorem reading_expect (kind : Kind) :
    reading (expect kind) = take (.missing kind) fun t =>
      if t.kind = kind then .ok (pure t) else .error (.missing kind) := by
  funext ts
  cases ts with
  | nil => rfl
  | cons t rest =>
    by_cases h : t.kind = kind
    · simp only [reading, expect, take, if_pos h]
      rfl
    · simp only [reading, expect, take, if_neg h]
      rfl

theorem reading_symbol :
    reading symbol = take .expectedSymbol fun t =>
      if t.kind = .symbol then .ok (pure t.raw)
      else .error (if t.isWord then .missingColon else .expectedSymbol) := by
  funext ts
  cases ts with
  | nil => rfl
  | cons t rest =>
    by_cases h : t.kind = .symbol
    · simp only [reading, symbol, take, if_pos h]
      rfl
    · simp only [reading, symbol, take, if_neg h]
      rfl

def intStep (t : Token) (result : Int64 → α) : Except Cause (Reading α) :=
  match Decimal.readInt64? (digits t) with
  | some n => .ok (pure (result n))
  | none => .error .integerRange

def floatStep (t : Token) (result : Float → α) : Except Cause (Reading α) :=
  match Decimal.readFloat? (digits t) with
  | some x => .ok (pure (result x))
  | none => .error .invalidFloat

theorem reading_separated (close : Kind) (item : List α → Reader α) (earlier : List α) :
    reading (separated close item earlier) = (do
      let kind ← look firstKind
      if kind = close then do
        let _ ← reading (expect close)
        pure earlier.reverse
      else do
        let a ← reading (item earlier)
        ifNext (.mark .comma) (fun _ => reading (separated close item (a :: earlier))) (do
          let _ ← reading (expect close)
          pure (a :: earlier).reverse)) := by
  funext ts
  rw [look_bind, reading, separated]
  by_cases hc : firstKind ts = close
  · simp only [if_pos hc]
    exact reading_bind fun p => rfl
  · simp only [if_neg hc]
    apply reading_bind
    intro p
    obtain ⟨a, rest, _⟩ := p
    cases rest with
    | nil => exact reading_bind fun p => rfl
    | cons t rest =>
      by_cases hk : t.kind = .mark .comma
      · simp only [accept?, if_pos hk, ifNext]
        exact reading_last fun p => rfl
      · simp only [accept?, if_neg hk, ifNext]
        exact reading_bind fun p => rfl

end Reader

end SchemaLang
