import SchemaLang.Proofs.Cursor.Walk

namespace SchemaLang

open Reader

namespace Track

variable (track : Track)

/-- The tokens from a position up to the next token for the end. -/
def ahead (pos : Nat) : List Token := (track.tokens.drop pos).takeWhile (·.kind ≠ .eof)

/-- The next token for the end, from a position on. -/
def stopAt (pos : Nat) : Token :=
  ((track.tokens.drop pos).find? (·.kind = .eof)).getD track.stop

/-- The steps that are to spare when sixteen are set aside for each token ahead. -/
def spare (c : Cursor) : Int := c.steps - 16 * (track.ahead c.pos).length

theorem tokenAt_eq_head (pos : Nat) :
    track.tokenAt pos = (track.tokens.drop pos).head?.getD track.stop := by
  rw [List.head?_drop]
  rfl

theorem tokenAt_eq (pos : Nat) :
    track.tokenAt pos = (track.ahead pos).head?.getD (track.stopAt pos) := by
  rw [tokenAt_eq_head, ahead, stopAt]
  cases track.tokens.drop pos with
  | nil => rfl
  | cons t rest => by_cases h : t.kind = .eof <;> simp [h]

variable {track} {pos : Nat}

theorem kind_tokenAt : (track.tokenAt pos).kind = firstKind (track.ahead pos) := by
  rw [tokenAt_eq_head, ahead]
  cases track.tokens.drop pos with
  | nil => exact track.stop_kind
  | cons t rest => by_cases h : t.kind = .eof <;> simp [h, firstKind]

theorem kind_of_ahead_nil (h : track.ahead pos = []) : (track.tokenAt pos).kind = .eof := by
  rw [kind_tokenAt, h]
  rfl

theorem ahead_of_kind_ne (h : (track.tokenAt pos).kind ≠ .eof) :
    track.ahead pos = track.tokenAt pos :: track.ahead (pos + 1) := by
  rw [tokenAt_eq_head] at h ⊢
  rw [ahead, ahead, ← List.tail_drop]
  cases hd : track.tokens.drop pos with
  | nil =>
    rw [hd] at h
    exact absurd track.stop_kind h
  | cons t rest =>
    rw [hd] at h
    have hk : t.kind ≠ .eof := h
    simp [hk]

theorem stopAt_succ (h : (track.tokenAt pos).kind ≠ .eof) :
    track.stopAt (pos + 1) = track.stopAt pos := by
  rw [tokenAt_eq_head] at h
  rw [stopAt, stopAt, ← List.tail_drop]
  cases hd : track.tokens.drop pos with
  | nil => rfl
  | cons t rest =>
    rw [hd] at h
    have hk : t.kind ≠ .eof := h
    simp [hk]

theorem kind_ne_of_ahead {t : Token} {rest : List Token} (h : track.ahead pos = t :: rest) :
    (track.tokenAt pos).kind ≠ .eof := by
  have all : (track.ahead pos).all (·.kind ≠ .eof) = true := List.all_takeWhile
  rw [h, List.all_cons, Bool.and_eq_true] at all
  rw [kind_tokenAt, h]
  exact of_decide_eq_true all.1

/-- The tokens ahead, once the first of them is passed. -/
theorem ahead_of_cons {t : Token} {rest : List Token} (h : track.ahead pos = t :: rest) :
    track.tokenAt pos = t ∧ track.ahead (pos + 1) = rest := by
  have hcons := ahead_of_kind_ne (kind_ne_of_ahead h)
  rw [h] at hcons
  exact ⟨(List.cons.inj hcons).1.symm, (List.cons.inj hcons).2.symm⟩

theorem exists_cons_of_kind {kind : Kind} (h : firstKind (track.ahead pos) = kind)
    (hkind : kind ≠ .eof) : ∃ t rest, track.ahead pos = t :: rest ∧ t.kind = kind := by
  cases hc : track.ahead pos with
  | nil =>
    rw [hc] at h
    exact absurd h.symm hkind
  | cons t rest =>
    rw [hc] at h
    exact ⟨t, rest, rfl, h⟩

theorem lt_length_of_kind_ne (h : (track.tokenAt pos).kind ≠ .eof) :
    pos < track.tokens.length := by
  refine Nat.lt_of_not_le fun hge => h ?_
  rw [tokenAt, List.getElem?_eq_none hge]
  exact track.stop_kind

end Track

/-- Where a walk has come to from where it set out, with some levels opened and not yet closed. It
has passed no token for the end and has won no steps. -/
structure Reached (track : Track) (start : Cursor) (level : Nat) (c : Cursor) : Prop where
  pos : start.pos ≤ c.pos
  clear : ∀ pos, start.pos ≤ pos → pos < c.pos → (track.tokenAt pos).kind ≠ .eof
  stop : track.stopAt c.pos = track.stopAt start.pos
  depth : c.depth = start.depth + level
  steps : c.steps ≤ start.steps

/-- Where a walk stands that has passed a number of tokens or more, and has some more steps to spare
than it set out with. -/
structure Stands (track : Track) (start : Cursor) (level taken : Nat) (gain : Int) (c : Cursor) :
    Prop extends Reached track start level c where
  taken : start.pos + taken ≤ c.pos
  spare : track.spare start + gain ≤ track.spare c

/-- A walk ends as a reader does. When both have read a value, the cursor stands before what the
reader leaves over. -/
inductive Follows {α : Type} (track : Track) (start : Cursor) (level taken : Nat) (gain : Int)
    (x : Walk α) (c : Cursor) : Except Fault (α × List Token) → Prop
  | read {a : α} (c' : Cursor) : x track c = .ok a c' → Stands track start level taken gain c' →
    Follows track start level taken gain x c (.ok (a, track.ahead c'.pos))
  | refused {fault : Fault} {c' : Cursor} :
    x track c = .error (.refused (fault.refusal (track.stopAt start.pos))) c' →
    Reached track start level c' → Follows track start level taken gain x c (.error fault)

/-- A token tells a walk what it tells a reader. The walk stands behind it when it goes on, and
perhaps when it refuses it. -/
inductive Agree {α : Type} (track : Track) (start : Cursor) (level taken : Nat) (gain : Int)
    (taken' : Nat) (gain' : Int) (t : Token) :
    Except Cause (Walk α) → Except Cause (Reading α) → Prop
  | refused {cause : Cause} : Agree track start level taken gain taken' gain' t (.error cause)
    (.error cause)
  | passed {cause : Cause} : Agree track start level taken gain taken' gain' t
    (.ok (Walk.refuseAt t cause)) (.error cause)
  | next {x : Walk α} {m : Reading α} :
    (∀ c, Stands track start level (taken + 1) (gain + 16) c →
      Follows track start level taken' gain' x c (m (track.ahead c.pos))) →
    Agree track start level taken gain taken' gain' t (.ok x) (.ok m)

variable {α β : Type} {track : Track} {start c c' : Cursor} {level level' taken taken' : Nat}
variable {gain gain' : Int}

theorem Reached.trans (h : Reached track start level c) (h' : Reached track c level' c') :
    Reached track start (level + level') c' where
  pos := Nat.le_trans h.pos h'.pos
  clear pos hs hp := by
    by_cases hc : pos < c.pos
    · exact h.clear pos hs hc
    · exact h'.clear pos (Nat.not_lt.mp hc) hp
  stop := h'.stop.trans h.stop
  depth := by rw [h'.depth, h.depth, Nat.add_assoc]
  steps := Nat.le_trans h'.steps h.steps

theorem Reached.pos_le_length (h : Reached track start level c)
    (hs : start.pos ≤ track.tokens.length) : c.pos ≤ track.tokens.length := by
  refine Nat.le_of_not_lt fun hlt => ?_
  have hk := h.clear (c.pos - 1) (by omega) (by omega)
  have hlast := Track.lt_length_of_kind_ne hk
  omega

namespace Stands

theorem refl (track : Track) (start : Cursor) : Stands track start 0 0 0 start where
  pos := Nat.le_refl _
  clear pos hs hp := absurd hs (Nat.not_le.mpr hp)
  stop := rfl
  depth := rfl
  steps := Nat.le_refl _
  taken := Nat.le_refl _
  spare := by omega

theorem trans (h : Stands track start level taken gain c)
    (h' : Stands track c level' taken' gain' c') :
    Stands track start (level + level') (taken + taken') (gain + gain') c' where
  toReached := h.toReached.trans h'.toReached
  taken := by
    have := h.taken
    have := h'.taken
    omega
  spare := by
    have := h.spare
    have := h'.spare
    omega

theorem weaken (h : Stands track start level taken gain c)
    (less : taken' ≤ taken ∧ gain' ≤ gain) : Stands track start level taken' gain' c where
  toReached := h.toReached
  taken := by
    have := h.taken
    omega
  spare := by
    have := h.spare
    omega

theorem advance (h : Stands track start level taken gain c)
    (hk : (track.tokenAt c.pos).kind ≠ .eof) :
    Stands track start level (taken + 1) (gain + 16) { c with pos := c.pos + 1 } := by
  have step : Stands track c 0 1 16 { c with pos := c.pos + 1 } := by
    refine ⟨⟨Nat.le_succ _, ?_, Track.stopAt_succ hk, rfl, Nat.le_refl _⟩, Nat.le_refl _, ?_⟩
    · intro pos hs hp
      have hpos : pos = c.pos := Nat.le_antisymm (Nat.le_of_lt_succ hp) hs
      rw [hpos]
      exact hk
    · simp only [Track.spare, Track.ahead_of_kind_ne hk, List.length_cons]
      omega
  exact h.trans step

theorem descend (h : Stands track start level taken gain c) :
    Stands track start (level + 1) taken gain { c with depth := c.depth + 1 } :=
  { h with depth := congrArg (· + 1) h.depth }

end Stands

namespace Walk

theorem bind_of_ok {x : Walk α} {k : α → Walk β} {a : α} (h : x track c = .ok a c') :
    (x >>= k) track c = k a track c' := by
  show EStateM.bind (x track) (fun a => k a track) c = _
  rw [EStateM.bind, h]

theorem bind_of_error {x : Walk α} {k : α → Walk β} {halt : Halt}
    (h : x track c = .error halt c') : (x >>= k) track c = .error halt c' := by
  show EStateM.bind (x track) (fun a => k a track) c = _
  rw [EStateM.bind, h]

theorem advance_bind {x : Walk α} (h : (track.tokenAt c.pos).kind ≠ .eof) :
    (advance >>= fun _ => x) track c = x track { c with pos := c.pos + 1 } :=
  bind_of_ok (if_neg h)

section Within

variable {x : Walk α} {nesting : Nesting} {depth : Nat}

theorem descend_of_lt (h : c.depth < track.limit) :
    descend nesting track c = .ok () { c with depth := c.depth + 1 } :=
  if_neg (Nat.not_le.mpr h)

theorem ascend_of_depth (h : c.depth = depth + 1) :
    ascend track c = .ok () { c with depth } := by
  simp only [ascend, h]

theorem within_of_ok {a : α} (hd : c.depth < track.limit)
    (hx : x track { c with depth := c.depth + 1 } = .ok a c') (hc : c'.depth = depth + 1) :
    within nesting x track c = .ok a { c' with depth } := by
  have run : x.outcome track { c with depth := c.depth + 1 } = .ok (.ok a) c' := by
    simp only [outcome, hx]
  rw [within, bind_of_ok (descend_of_lt hd), bind_of_ok run, bind_of_ok (ascend_of_depth hc)]
  rfl

theorem within_of_error {halt : Halt} (hd : c.depth < track.limit)
    (hx : x track { c with depth := c.depth + 1 } = .error halt c') (hc : c'.depth = depth + 1) :
    within nesting x track c = .error halt { c' with depth } := by
  have run : x.outcome track { c with depth := c.depth + 1 } = .ok (.error halt) c' := by
    simp only [outcome, hx]
  rw [within, bind_of_ok (descend_of_lt hd), bind_of_ok run, bind_of_ok (ascend_of_depth hc)]
  rfl

theorem within_of_full (hd : track.limit ≤ c.depth) :
    within nesting x track c = refuse (.tooDeep nesting) track c :=
  bind_of_error (show descend nesting track c = _ from if_pos hd)

end Within

end Walk

theorem Reader.Reading.expect_bind {kind : Kind} {m : Token → Reading α} {t : Token}
    (h : t.kind = kind) (rest : List Token) :
    (reading (expect kind) >>= m) (t :: rest) = m t rest := by
  have first : reading (expect kind) (t :: rest) = .ok (t, rest) := by
    simp only [reading_expect, take, if_pos h]
    rfl
  exact bind_of_ok first

theorem Reader.Reading.bind_eq_bind {x y : Reading α} {ts us : List Token} (h : x ts = y us)
    (k : α → Reading β) : (x >>= k) ts = (y >>= k) us := by
  rw [bind_apply, bind_apply, h]

namespace Follows

variable {x : Walk α} {m : Reading α} {outcome : Except Fault (α × List Token)}

theorem weaken (h : Follows track start level taken gain x c outcome)
    (less : taken' ≤ taken ∧ gain' ≤ gain) :
    Follows track start level taken' gain' x c outcome := by
  cases h with
  | read _ hx stands => exact .read _ hx (stands.weaken less)
  | refused hx reached => exact .refused hx reached

theorem of_eq {y : Walk α} (hx : Follows track start level taken gain x c' outcome)
    (h : y track c = x track c') : Follows track start level taken gain y c outcome := by
  cases hx with
  | read _ hx stands => exact .read _ (h.trans hx) stands
  | refused hx reached => exact .refused (h.trans hx) reached

/-- A walk that follows a reader from where another one stands. -/
theorem after (h : Stands track start level taken gain c)
    (hx : Follows track c 0 taken' gain' x c outcome) :
    Follows track start level (taken + taken') (gain + gain') x c outcome := by
  cases hx with
  | read _ hx stands => exact .read _ hx (h.trans stands)
  | refused hx reached =>
    rw [h.stop] at hx
    exact .refused hx (h.toReached.trans reached)

theorem value {a : α} {ts : List Token} (h : Stands track start level taken gain c)
    (hc : track.ahead c.pos = ts) (less : taken' ≤ taken ∧ gain' ≤ gain) :
    Follows track start level taken' gain' (pure a : Walk α) c (.ok (a, ts)) :=
  hc ▸ .read c rfl (h.weaken less)

protected theorem pure {a : α} (h : Stands track start level taken gain c)
    (less : taken' ≤ taken ∧ gain' ≤ gain) :
    Follows track start level taken' gain' (pure a : Walk α) c
      ((pure a : Reading α) (track.ahead c.pos)) :=
  value h rfl less

protected theorem bind {k : α → Walk β} {n : α → Reading β} {taken' : Nat} {gain' : Int}
    (hx : Follows track start level taken gain x c (m (track.ahead c.pos)))
    (hk : ∀ a c', Stands track start level taken gain c' →
      Follows track start level taken' gain' (k a) c' (n a (track.ahead c'.pos))) :
    Follows track start level taken' gain' (x >>= k) c ((m >>= n) (track.ahead c.pos)) := by
  rw [Reading.bind_apply]
  generalize m (track.ahead c.pos) = outcome at hx
  cases hx with
  | @read a c' hx stands => exact (hk a c' stands).of_eq (Walk.bind_of_ok hx)
  | refused hx reached => exact .refused (Walk.bind_of_error hx) reached

theorem bind_of_error {k : α → Walk β} {fault : Fault} {taken' : Nat} {gain' : Int}
    (hx : Follows track start level taken gain x c (.error fault)) :
    Follows track start level taken' gain' (x >>= k) c (.error fault) := by
  cases hx with
  | refused hx reached => exact .refused (Walk.bind_of_error hx) reached

theorem current {k : Token → Walk α}
    (h : Follows track start level taken gain (k (track.tokenAt c.pos)) c outcome) :
    Follows track start level taken gain (Walk.current >>= k) c outcome :=
  h.of_eq rfl

theorem kindAfter {k : Kind → Walk α}
    (h : Follows track start level taken gain (k (firstKind (track.ahead (c.pos + 1)))) c outcome) :
    Follows track start level taken gain (Walk.kindAfter >>= k) c outcome := by
  rw [← Track.kind_tokenAt] at h
  exact h.of_eq rfl

theorem advance {t : Token} {rest : List Token} {taken' : Nat} {gain' : Int}
    (h : Stands track start level taken gain c) (hc : track.ahead c.pos = t :: rest)
    (next : ∀ c', track.ahead c'.pos = rest →
      Stands track start level (taken + 1) (gain + 16) c' →
      Follows track start level taken' gain' x c' outcome) :
    Follows track start level taken' gain' (Walk.advance >>= fun _ => x) c outcome := by
  have hk := Track.kind_ne_of_ahead hc
  have hx := next { c with pos := c.pos + 1 } (Track.ahead_of_cons hc).2 (h.advance hk)
  exact hx.of_eq (Walk.advance_bind hk)

theorem pass {t : Token} {rest : List Token} {taken' : Nat} {gain' : Int}
    (h : Stands track start level taken gain c) (hc : track.ahead c.pos = t :: rest)
    (next : ∀ c', Stands track start level (taken + 1) (gain + 16) c' →
      Follows track start level taken' gain' x c' (m (track.ahead c'.pos))) :
    Follows track start level taken' gain' (Walk.advance >>= fun _ => x) c (m rest) :=
  advance h hc fun c' hc' h' => hc' ▸ next c' h'

theorem refuseAt {t : Token} {cause : Cause} (h : Reached track start level c) :
    Follows track start level taken gain (Walk.refuseAt t cause : Walk α) c
      (.error ⟨some t, cause⟩) :=
  .refused rfl h

/-- A refusal of the token that the walk set out from. -/
theorem refuseStart {cause : Cause} (h : Reached track start level c) :
    Follows track start level taken gain
      (Walk.refuseAt (track.tokenAt start.pos) cause : Walk α) c
      (.error ⟨(track.ahead start.pos).head?, cause⟩) := by
  rw [Track.tokenAt_eq]
  exact .refused rfl h

theorem refuse {cause : Cause} {ts : List Token} (h : Reached track start level c)
    (hc : track.ahead c.pos = ts) :
    Follows track start level taken gain (Walk.refuse cause : Walk α) c
      (.error ⟨ts.head?, cause⟩) := by
  refine .refused ?_ h
  show EStateM.Result.error (Halt.refused ⟨track.tokenAt c.pos, cause⟩) c = _
  rw [Track.tokenAt_eq, h.stop, hc]
  rfl

theorem ifNext {kind : Kind} {yes : Token → Walk α} {no : Walk α} {yes' : Token → Reading α}
    {no' : Reading α} {taken' : Nat} {gain' : Int} (h : Stands track start level taken gain c)
    (hkind : kind ≠ .eof)
    (hyes : ∀ t c', Stands track start level (taken + 1) (gain + 16) c' →
      Follows track start level taken' gain' (yes t) c' (yes' t (track.ahead c'.pos)))
    (hno : firstKind (track.ahead c.pos) ≠ kind →
      Follows track start level taken' gain' no c (no' (track.ahead c.pos))) :
    Follows track start level taken' gain' (Walk.ifNext kind yes no) c
      (Reading.ifNext kind yes' no' (track.ahead c.pos)) := by
  refine current ?_
  rw [Track.kind_tokenAt]
  by_cases hk : firstKind (track.ahead c.pos) = kind
  · obtain ⟨t, rest, hc, ht⟩ := Track.exists_cons_of_kind hk hkind
    rw [if_pos hk, hc, Reading.ifNext_of_eq ht, (Track.ahead_of_cons hc).1]
    exact pass h hc fun c' h' => hyes t c' h'
  · rw [if_neg hk, Reading.ifNext_of_ne hk]
    exact hno hk

section Take

variable {atEnd : Cause} {step : Token → Except Cause (Walk α)}
variable {step' : Token → Except Cause (Reading α)} {taken' : Nat} {gain' : Int}

theorem take_of_cons {t : Token} {rest : List Token} (h : Stands track start level taken gain c)
    (hc : track.ahead c.pos = t :: rest)
    (agree : Agree track start level taken gain taken' gain' t (step t) (step' t)) :
    Follows track start level taken' gain' (Walk.take step) c
      (Reading.take atEnd step' (track.ahead c.pos)) := by
  refine current ?_
  rw [(Track.ahead_of_cons hc).1, hc, Reading.take]
  generalize step t = x, step' t = m at agree
  cases agree with
  | refused => exact refuse h.toReached hc
  | passed => exact advance h hc fun _ _ h => refuseAt h.toReached
  | next hx => exact pass h hc hx

theorem take_of_nil (h : Stands track start level taken gain c) (hc : track.ahead c.pos = [])
    (stop : ∀ t : Token, t.kind = .eof → step t = .error atEnd) :
    Follows track start level taken' gain' (Walk.take step) c
      (Reading.take atEnd step' (track.ahead c.pos)) := by
  refine current ?_
  rw [stop _ (Track.kind_of_ahead_nil hc), hc]
  exact refuse h.toReached hc

theorem take (h : Stands track start level taken gain c)
    (stop : ∀ t : Token, t.kind = .eof → step t = .error atEnd)
    (agree : ∀ t, Agree track start level taken gain taken' gain' t (step t) (step' t)) :
    Follows track start level taken' gain' (Walk.take step) c
      (Reading.take atEnd step' (track.ahead c.pos)) := by
  cases hc : track.ahead c.pos with
  | nil => exact hc ▸ take_of_nil h hc stop
  | cons t rest => exact hc ▸ take_of_cons h hc (agree t)

end Take

theorem expect {kind : Kind} (h : Stands track start level taken gain c) (hkind : kind ≠ .eof) :
    Follows track start level (taken + 1) (gain + 16) (Walk.expect kind) c
      (reading (Reader.expect kind) (track.ahead c.pos)) := by
  rw [reading_expect]
  refine take h (fun t ht => if_neg fun hk => hkind (hk.symm.trans ht)) fun t => ?_
  by_cases hk : t.kind = kind
  · simp only [if_pos hk]
    exact .next fun c h => .pure h (by omega)
  · simp only [if_neg hk]
    exact .refused

theorem symbol (h : Stands track start level taken gain c) :
    Follows track start level (taken + 1) (gain + 16) Walk.symbol c
      (reading Reader.symbol (track.ahead c.pos)) := by
  rw [reading_symbol]
  refine take h (fun t ht => ?_) fun t => ?_
  · simp [ht, Token.isWord, Token.hasWordKind]
  · by_cases hk : t.kind = .symbol
    · simp only [if_pos hk]
      exact .next fun c h => .pure h (by omega)
    · simp only [if_neg hk]
      exact .refused

theorem separated {close : Kind} {item : List α → Walk α} {again : List α → Walk (List α)}
    {item' : List α → Reader α} {earlier : List α} {itemTaken taken' : Nat} {itemGain gain' : Int}
    (h : Stands track start level taken gain c) (hclose : close ≠ .eof)
    (hitem : Follows track start level itemTaken itemGain (item earlier) c
      (reading (item' earlier) (track.ahead c.pos)))
    (hagain : ∀ a c', Stands track start level (itemTaken + 1) (itemGain + 16) c' →
      Follows track start level taken' gain' (again (a :: earlier)) c'
        (reading (Reader.separated close item' (a :: earlier)) (track.ahead c'.pos)))
    (less : taken' ≤ taken + 1 ∧ gain' ≤ gain + 16)
    (itemLess : taken' ≤ itemTaken + 1 ∧ gain' ≤ itemGain + 16) :
    Follows track start level taken' gain' (Walk.separated close item again earlier) c
      (reading (Reader.separated close item' earlier) (track.ahead c.pos)) := by
  rw [reading_separated, Reading.look_bind]
  refine current ?_
  rw [Track.kind_tokenAt]
  by_cases hk : firstKind (track.ahead c.pos) = close
  · rw [if_pos hk, if_pos hk]
    exact .bind (expect h hclose) fun _ _ h => .pure h less
  · rw [if_neg hk, if_neg hk]
    refine .bind hitem fun a c' h' => ?_
    refine ifNext h' (by decide) (fun _ c' h' => hagain a c' h') fun _ => ?_
    exact .bind (expect h' hclose) fun _ _ h => .pure h itemLess

/-- A walk on a level of its own. Where no level is left, the reader refuses as well. -/
theorem within {nesting : Nesting} {taken' : Nat} {gain' : Int}
    (h : Stands track start level taken gain c)
    (full : track.limit ≤ c.depth → outcome = .error ⟨(track.ahead c.pos).head?, .tooDeep nesting⟩)
    (inner : c.depth < track.limit →
      Stands track start (level + 1) taken gain { c with depth := c.depth + 1 } →
      Follows track start (level + 1) taken' gain' x { c with depth := c.depth + 1 } outcome) :
    Follows track start level taken' gain' (Walk.within nesting x) c outcome := by
  rcases Nat.lt_or_ge c.depth track.limit with hd | hd
  · cases inner hd h.descend with
    | @read a c' hx stands =>
      have run : Walk.within nesting x track c = .ok a { c' with depth := start.depth + level } :=
        Walk.within_of_ok hd hx stands.depth
      exact .read { c' with depth := start.depth + level } run { stands with depth := rfl }
    | @refused fault c' hx reached =>
      have run : Walk.within nesting x track c =
          .error (.refused (fault.refusal (track.stopAt start.pos)))
            { c' with depth := start.depth + level } :=
        Walk.within_of_error hd hx reached.depth
      exact .refused run { reached with depth := rfl }
  · rw [full hd]
    exact (refuse h.toReached rfl).of_eq (Walk.within_of_full hd)

/-- A walk that passes a token which is known to stand at the cursor. -/
theorem skip {kind : Kind} {m : Token → Reading α} {taken' : Nat} {gain' : Int}
    (h : Stands track start level taken gain c) (hkind : kind ≠ .eof)
    (hk : firstKind (track.ahead c.pos) = kind)
    (next : ∀ c', Stands track start level (taken + 1) (gain + 16) c' →
      Follows track start level taken' gain' x c' (m (track.tokenAt c.pos) (track.ahead c'.pos))) :
    Follows track start level taken' gain' (Walk.advance >>= fun _ => x) c
      ((reading (Reader.expect kind) >>= m) (track.ahead c.pos)) := by
  obtain ⟨t, rest, hc, ht⟩ := Track.exists_cons_of_kind hk hkind
  rw [hc, Reading.expect_bind ht]
  rw [(Track.ahead_of_cons hc).1] at next
  exact pass h hc next

end Follows

end SchemaLang
