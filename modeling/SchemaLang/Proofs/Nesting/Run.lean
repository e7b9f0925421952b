import SchemaLang.Proofs.Nesting.Leaves
import SchemaLang.Proofs.Nesting.Plan

namespace SchemaLang.Reader

open Reading

variable {α β : Type}

/-- A run of a plan on some tokens, with some levels open at its start: its outcome, and the most
levels that are open at once during it. -/
inductive Runs (limit : Nat) : {α : Type} → Nat → Plan α → List Token →
    Except Fault (α × List Token) → Nat → Prop
  | read {α : Type} {depth : Nat} {x : Reading α} {ts : List Token}
    {out : Except Fault (α × List Token)} :
    Shallow x ts → x ts = out → Runs limit depth (.read x) ts out depth
  | look {α : Type} {depth peak : Nat} {next : List Token → Plan α} {ts : List Token}
    {out : Except Fault (α × List Token)} :
    Runs limit depth (next ts) ts out peak → Runs limit depth (.look next) ts out peak
  | refused {α β : Type} {depth peak : Nat} {x : Plan α} {next : α → Plan β} {ts : List Token}
    {fault : Fault} :
    Runs limit depth x ts (.error fault) peak →
    Runs limit depth (.bind x next) ts (.error fault) peak
  | bind {α β : Type} {depth peak peak' : Nat} {x : Plan α} {next : α → Plan β}
    {ts rest : List Token} {a : α} {out : Except Fault (β × List Token)} :
    Runs limit depth x ts (.ok (a, rest)) peak → Runs limit depth (next a) rest out peak' →
    Runs limit depth (.bind x next) ts out (max peak peak')
  | call {α : Type} {depth peak : Nat} {proc : Proc α} {ts : List Token}
    {out : Except Fault (α × List Token)} :
    Runs limit depth proc.body ts out peak → Runs limit depth (.call proc) ts out peak
  | enter {α : Type} {depth peak : Nat} {nesting : Nesting} {proc : Proc α} {ts : List Token}
    {out : Except Fault (α × List Token)} :
    depth < limit → Runs limit (depth + 1) proc.body ts out peak →
    Runs limit depth (.enter nesting proc) ts out peak
  | full {α : Type} {depth : Nat} {nesting : Nesting} {proc : Proc α} {ts : List Token} :
    limit ≤ depth →
    Runs limit depth (.enter nesting proc) ts (.error ⟨ts.head?, .tooDeep nesting⟩) depth

namespace Runs

variable {limit depth peak : Nat} {plan : Plan α} {ts : List Token}
  {out : Except Fault (α × List Token)}

theorem depth_le (h : Runs limit depth plan ts out peak) : depth ≤ peak := by
  induction h with
  | read _ _ => exact Nat.le_refl _
  | look _ ih => exact ih
  | refused _ ih => exact ih
  | bind _ _ ih _ => exact Nat.le_trans ih (Nat.le_max_left _ _)
  | call _ ih => exact ih
  | enter _ _ ih => exact Nat.le_of_succ_le ih
  | full _ => exact Nat.le_refl _

theorem peak_le (h : Runs limit depth plan ts out peak) (hdepth : depth ≤ limit) :
    peak ≤ limit := by
  induction h with
  | read _ _ => exact hdepth
  | look _ ih => exact ih hdepth
  | refused _ ih => exact ih hdepth
  | bind _ _ ih ih' => exact Nat.max_le.mpr ⟨ih hdepth, ih' hdepth⟩
  | call _ ih => exact ih hdepth
  | enter hlt _ ih => exact ih hlt
  | full _ => exact hdepth

/-- Tokens are refused for their depth only with all levels open. -/
theorem peak_of_isDeep {fault : Fault} (h : Runs limit depth plan ts (.error fault) peak)
    (hdepth : depth ≤ limit) (hdeep : fault.cause.isDeep) : peak = limit := by
  generalize hout : (Except.error fault : Except Fault (α × List Token)) = out at h
  induction h with
  | read hshallow hx =>
    rw [hshallow fault (hx.trans hout.symm)] at hdeep
    cases hdeep
  | look _ ih => exact ih hdepth hout
  | refused _ ih =>
    cases hout
    exact ih hdepth rfl
  | bind hx _ _ ih =>
    rw [ih hdepth hout]
    exact Nat.max_eq_right (hx.peak_le hdepth)
  | call _ ih => exact ih hdepth hout
  | enter hlt _ ih => exact ih hlt hout
  | full hle => exact Nat.le_antisymm hdepth hle

/-- Tokens have one run. -/
theorem unique {out' : Except Fault (α × List Token)} {peak' : Nat}
    (h : Runs limit depth plan ts out peak) (h' : Runs limit depth plan ts out' peak') :
    out = out' ∧ peak = peak' := by
  induction h generalizing peak' with
  | read _ hx =>
    cases h' with
    | read _ hx' => exact ⟨hx.symm.trans hx', rfl⟩
  | look _ ih =>
    cases h' with
    | look h' => exact ih h'
  | refused _ ih =>
    cases h' with
    | refused h' =>
      obtain ⟨he, rfl⟩ := ih h'
      cases he
      exact ⟨rfl, rfl⟩
    | bind h' _ => cases (ih h').1
  | bind _ _ ih ih' =>
    cases h' with
    | refused h' => cases (ih h').1
    | bind hx hk =>
      obtain ⟨he, rfl⟩ := ih hx
      cases he
      obtain ⟨rfl, rfl⟩ := ih' hk
      exact ⟨rfl, rfl⟩
  | call _ ih =>
    cases h' with
    | call h' => exact ih h'
  | enter hlt _ ih =>
    cases h' with
    | enter _ h' => exact ih h'
    | full hle => omega
  | full hle =>
    cases h' with
    | enter hlt _ => omega
    | full _ => exact ⟨rfl, rfl⟩

/-- With fewer levels, a run that keeps to them is the same. -/
theorem of_peak_le {limit' : Nat} (h : Runs limit' depth plan ts out peak) (hlt : limit < limit')
    (hpeak : peak ≤ limit) : Runs limit depth plan ts out peak := by
  induction h with
  | read hshallow hx => exact .read hshallow hx
  | look _ ih => exact .look (ih hpeak)
  | refused _ ih => exact .refused (ih hpeak)
  | bind _ _ ih ih' =>
    obtain ⟨hx, hk⟩ := Nat.max_le.mp hpeak
    exact .bind (ih hx) (ih' hk)
  | call _ ih => exact .call (ih hpeak)
  | enter _ h ih => exact .enter (Nat.lt_of_lt_of_le h.depth_le hpeak) (ih hpeak)
  | full hle => omega

/-- With fewer levels, a run that goes beyond them is refused for its depth. -/
theorem of_lt_peak {limit' : Nat} (h : Runs limit' depth plan ts out peak) (hlt : limit < limit')
    (hdepth : depth ≤ limit) (hpeak : limit < peak) :
    ∃ token nesting, Runs limit depth plan ts (.error ⟨token, .tooDeep nesting⟩) limit := by
  induction h with
  | read _ _ => omega
  | look _ ih =>
    obtain ⟨token, nesting, h⟩ := ih hdepth hpeak
    exact ⟨token, nesting, .look h⟩
  | refused _ ih =>
    obtain ⟨token, nesting, h⟩ := ih hdepth hpeak
    exact ⟨token, nesting, .refused h⟩
  | @bind _ _ _ peak _ _ _ _ _ _ _ hx _ ih ih' =>
    by_cases hfirst : limit < peak
    · obtain ⟨token, nesting, h⟩ := ih hdepth hfirst
      exact ⟨token, nesting, .refused h⟩
    · have first := hx.of_peak_le hlt (Nat.not_lt.mp hfirst)
      obtain ⟨token, nesting, h⟩ := ih' hdepth (by omega)
      have both := first.bind h
      rw [Nat.max_eq_right (Nat.not_lt.mp hfirst)] at both
      exact ⟨token, nesting, both⟩
  | call _ ih =>
    obtain ⟨token, nesting, h⟩ := ih hdepth hpeak
    exact ⟨token, nesting, .call h⟩
  | @enter _ depth _ nesting _ ts _ _ _ ih =>
    by_cases hopen : depth < limit
    · obtain ⟨token, nesting, h⟩ := ih hopen hpeak
      exact ⟨token, nesting, .enter hopen h⟩
    · have all : depth = limit := Nat.le_antisymm hdepth (Nat.not_lt.mp hopen)
      subst all
      exact ⟨ts.head?, nesting, .full (Nat.le_refl _)⟩
  | full hle => omega

end Runs

/-- A level that a run opens itself, and not inside another one: what it reads there, and from which
tokens. A run may open any number of them, one after the other. -/
inductive Enters (limit depth : Nat) :
    {α β : Type} → Plan α → List Token → Proc β → List Token → Prop
  | here {α : Type} {nesting : Nesting} {proc : Proc α} {ts : List Token} :
    depth < limit → Enters limit depth (.enter nesting proc) ts proc ts
  | look {α β : Type} {next : List Token → Plan α} {ts us : List Token} {proc : Proc β} :
    Enters limit depth (next ts) ts proc us → Enters limit depth (.look next) ts proc us
  | first {α β γ : Type} {x : Plan α} {next : α → Plan γ} {ts us : List Token} {proc : Proc β} :
    Enters limit depth x ts proc us → Enters limit depth (.bind x next) ts proc us
  | next {α β γ : Type} {peak : Nat} {x : Plan α} {next : α → Plan γ} {ts rest us : List Token}
    {a : α} {proc : Proc β} :
    Runs limit depth x ts (.ok (a, rest)) peak → Enters limit depth (next a) rest proc us →
    Enters limit depth (.bind x next) ts proc us
  | call {α β : Type} {name : Proc α} {ts us : List Token} {proc : Proc β} :
    Enters limit depth name.body ts proc us → Enters limit depth (.call name) ts proc us

/-- A run keeps to a number of levels just when each level that it opens itself does so, however
many there are. -/
theorem Runs.peak_le_iff {limit depth peak bound : Nat} {plan : Plan α} {ts : List Token}
    {out : Except Fault (α × List Token)} (h : Runs limit depth plan ts out peak)
    (hdepth : depth ≤ bound) :
    peak ≤ bound ↔ ∀ (β : Type) (proc : Proc β) us, Enters limit depth plan ts proc us →
      ∀ out' peak', Runs limit (depth + 1) proc.body us out' peak' → peak' ≤ bound := by
  induction h with
  | read _ _ =>
    refine ⟨fun _ β proc us henters => ?_, fun _ => hdepth⟩
    cases henters
  | look _ ih =>
    rw [ih hdepth]
    constructor
    · intro h β proc us henters
      cases henters with
      | look henters => exact h β proc us henters
    · exact fun h β proc us henters => h β proc us (.look henters)
  | refused hx ih =>
    rw [ih hdepth]
    constructor
    · intro h β proc us henters
      cases henters with
      | first henters => exact h β proc us henters
      | next hx' _ => cases (hx.unique hx').1
    · exact fun h β proc us henters => h β proc us (.first henters)
  | bind hx _ ih ih' =>
    rw [Nat.max_le, ih hdepth, ih' hdepth]
    constructor
    · rintro ⟨h, h'⟩ β proc us henters
      cases henters with
      | first henters => exact h β proc us henters
      | next hx' henters =>
        cases (hx.unique hx').1
        exact h' β proc us henters
    · intro h
      exact ⟨fun β proc us henters => h β proc us (.first henters),
        fun β proc us henters => h β proc us (.next hx henters)⟩
  | call _ ih =>
    rw [ih hdepth]
    constructor
    · intro h β proc us henters
      cases henters with
      | call henters => exact h β proc us henters
    · exact fun h β proc us henters => h β proc us (.call henters)
  | enter hlt hrun _ =>
    constructor
    · intro h β proc us henters out' peak' hrun'
      cases henters with
      | here _ =>
        obtain ⟨-, rfl⟩ := hrun.unique hrun'
        exact h
    · exact fun h => h _ _ _ (.here hlt) _ _ hrun
  | full hle =>
    refine ⟨fun _ β proc us henters => ?_, fun _ => hdepth⟩
    cases henters with
    | here hlt => omega

/-- A run of a plan gives what a reading gives. -/
def Follows (limit depth : Nat) (plan : Plan α) (x : Reading α) (ts : List Token) : Prop :=
  ∃ peak, Runs limit depth plan ts (x ts) peak

/-- The same of what follows a token, which both take or both refuse. -/
inductive StepFollows (limit depth : Nat) (rest : List Token) :
    Except Cause (Plan α) → Except Cause (Reading α) → Prop
  | error {cause : Cause} : cause.isDeep = false →
    StepFollows limit depth rest (.error cause) (.error cause)
  | ok {plan : Plan α} {x : Reading α} : Follows limit depth plan x rest →
    StepFollows limit depth rest (.ok plan) (.ok x)

namespace Follows

variable {limit depth : Nat} {ts : List Token}

theorem read {x : Reading α} (h : Shallow x ts) : Follows limit depth (.read x) x ts :=
  ⟨depth, .read h rfl⟩

theorem pure (a : α) : Follows limit depth (pure a) (pure a) ts := read (.pure a)

theorem refuse {cause : Cause} (h : cause.isDeep = false) :
    Follows limit depth (.read (Reading.refuse cause) : Plan α) (Reading.refuse cause) ts :=
  read (.refuse h)

theorem bind {plan : Plan α} {next : α → Plan β} {x : Reading α} {k : α → Reading β}
    (h : Follows limit depth plan x ts)
    (hk : ∀ a rest, x ts = .ok (a, rest) → Follows limit depth (next a) (k a) rest) :
    Follows limit depth (plan >>= next) (x >>= k) ts := by
  obtain ⟨peak, hrun⟩ := h
  cases hx : x ts with
  | error fault =>
    rw [hx] at hrun
    refine ⟨peak, ?_⟩
    rw [bind_of_error hx]
    exact .refused hrun
  | ok q =>
    obtain ⟨a, rest⟩ := q
    obtain ⟨peak', hnext⟩ := hk a rest hx
    rw [hx] at hrun
    refine ⟨max peak peak', ?_⟩
    rw [bind_of_ok hx]
    exact .bind hrun hnext

theorem map {plan : Plan α} {x : Reading α} {f : α → β} (h : Follows limit depth plan x ts) :
    Follows limit depth (do let a ← plan; Pure.pure (f a)) (do let a ← x; Pure.pure (f a)) ts :=
  h.bind fun _ _ _ => pure _

theorem call {proc : Proc α} {x : Reading α} (h : Follows limit depth proc.body x ts) :
    Follows limit depth (.call proc) x ts := by
  obtain ⟨peak, hrun⟩ := h
  exact ⟨peak, .call hrun⟩

theorem enter {nesting : Nesting} {proc : Proc α} {x : Reading α} (hlt : depth < limit)
    (h : Follows limit (depth + 1) proc.body x ts) :
    Follows limit depth (.enter nesting proc) x ts := by
  obtain ⟨peak, hrun⟩ := h
  exact ⟨peak, .enter hlt hrun⟩

theorem full {nesting : Nesting} {proc : Proc α} (hle : limit ≤ depth) :
    Follows limit depth (.enter nesting proc) (Reading.refuse (.tooDeep nesting)) ts :=
  ⟨depth, .full hle⟩

theorem look {next : List Token → Plan β} {view : List Token → α} {k : α → Reading β}
    (h : Follows limit depth (next ts) (k (view ts)) ts) :
    Follows limit depth (.look next) (Reading.look view >>= k) ts := by
  obtain ⟨peak, hrun⟩ := h
  exact ⟨peak, .look hrun⟩

theorem skip {t : Token} {rest : List Token} {next : Plan α} {x : Reading α}
    (h : Follows limit depth next x rest) :
    ∃ peak, Runs limit depth (.bind .skip fun _ => next) (t :: rest) (x rest) peak := by
  obtain ⟨peak, hrun⟩ := h
  exact ⟨_, .bind (.read (fun _ hfault => nomatch hfault) rfl) hrun⟩

theorem ifNext {kind : Kind} {yes : Token → Plan α} {no : Plan α} {yes' : Token → Reading α}
    {no' : Reading α} (hyes : ∀ t rest, ts = t :: rest → Follows limit depth (yes t) (yes' t) rest)
    (hno : Follows limit depth no no' ts) :
    Follows limit depth (.ifNext kind yes no) (Reading.ifNext kind yes' no') ts := by
  cases ts with
  | nil =>
    obtain ⟨peak, hrun⟩ := hno
    exact ⟨peak, .look hrun⟩
  | cons t rest =>
    by_cases hk : t.kind = kind
    · obtain ⟨peak, hrun⟩ := (hyes t rest rfl).skip
      refine ⟨peak, .look ?_⟩
      rw [ifNext_of_eq hk]
      simp only [if_pos hk]
      exact hrun
    · obtain ⟨peak, hrun⟩ := hno
      refine ⟨peak, .look ?_⟩
      rw [ifNext_of_ne (show firstKind (t :: rest) ≠ kind from hk)]
      simp only [if_neg hk]
      exact hrun

theorem take {atEnd : Cause} {step : Token → Except Cause (Plan α)}
    {step' : Token → Except Cause (Reading α)} (hend : atEnd.isDeep = false)
    (h : ∀ t rest, ts = t :: rest → StepFollows limit depth rest (step t) (step' t)) :
    Follows limit depth (.take atEnd step) (Reading.take atEnd step') ts := by
  cases ts with
  | nil => exact ⟨depth, .look (.read (.refuseAt hend) rfl)⟩
  | cons t rest =>
    have next := h t rest rfl
    generalize hx : step t = x, hy : step' t = y at next
    cases next with
    | @error cause hcause =>
      refine ⟨depth, .look ?_⟩
      simp only [hx, Reading.take, hy]
      exact .read (.refuseAt hcause) rfl
    | ok next =>
      obtain ⟨peak, hrun⟩ := next.skip
      refine ⟨peak, .look ?_⟩
      simp only [hx, Reading.take, hy]
      exact hrun

end Follows

end SchemaLang.Reader
