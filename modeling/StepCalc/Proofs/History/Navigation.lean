import StepCalc.Proofs.History.Snapshots

/-!
# Moving over a history

A replay is asked to run and to move. The first run fixes the history and the outcome,
also if the evaluation fails; from then on a request changes nothing but the position, which
stays inside the history. Hence a replay is always as it began, or stands somewhere in the
history of its one run.
-/

namespace StepCalc

/-- What a replay can be asked to do. -/
inductive Request where
  | run
  | forward
  | backward
  | rewind
  | toEnd
  deriving DecidableEq, Repr

namespace Replay

/-- The replay at another position. -/
def moveTo (r : Replay) (position : Nat) : Replay :=
  { r with position }

/-- The answer to a move and the replay after it. A move that fails leaves the replay as
it is. -/
def moved (r : Replay) : Except EvalError Replay → Except EvalError (Option Value) × Replay
  | .ok r' => (.ok none, r')
  | .error err => (.error err, r)

/-- The answer to a request and the replay after it. Only a run answers with a value. -/
def ask (r : Replay) : Request → Except EvalError (Option Value) × Replay
  | .run => (r.run.1.map some, r.run.2)
  | .forward => r.moved r.forward
  | .backward => r.moved r.backward
  | .rewind => r.moved r.rewind
  | .toEnd => (.ok none, r.toEnd)

/-- The replay after some requests. -/
def asked (r : Replay) (requests : List Request) : Replay :=
  requests.foldl (fun r q => (r.ask q).2) r

variable {r r' : Replay} {e : Expr} {limit : Nat} {requests : List Request}

@[simp] theorem moveTo_self (r : Replay) : r.moveTo r.position = r := rfl

@[simp] theorem asked_cons (r : Replay) (q : Request) (requests : List Request) :
    r.asked (q :: requests) = (r.ask q).2.asked requests := rfl

theorem asked_append (r : Replay) (first next : List Request) :
    r.asked (first ++ next) = (r.asked first).asked next :=
  List.foldl_append

section Moves

/-- The request succeeds exactly under `condition`, and then only the position changes.
Otherwise nothing does. -/
def Moves (r : Replay) (q : Request) (condition : Prop) (position : Nat) : Prop :=
  (condition → r.ask q = (.ok none, r.moveTo position)) ∧
    (¬ condition → ∃ message, r.ask q = (.error (.historyBoundary message), r))

theorem moves_forward (r : Replay) :
    r.Moves .forward (r.position + 1 < r.total) (r.position + 1) := by
  constructor
  · intro h
    rw [ask, forward_eq_ok_iff.2 ⟨h, rfl⟩]
    rfl
  · intro h
    rw [ask, forward, if_neg h]
    exact ⟨_, rfl⟩

theorem moves_backward (r : Replay) : r.Moves .backward (0 < r.position) (r.position - 1) := by
  constructor
  · intro h
    rw [ask, backward_eq_ok_iff.2 ⟨h, rfl⟩]
    rfl
  · intro h
    rw [ask, backward, if_pos (Nat.eq_zero_of_not_pos h)]
    exact ⟨_, rfl⟩

theorem moves_rewind (r : Replay) : r.Moves .rewind (0 < r.total) 0 := by
  constructor
  · intro h
    rw [ask, rewind_eq_ok_iff.2 ⟨h, rfl⟩]
    rfl
  · intro h
    rw [ask, rewind, if_pos (Nat.eq_zero_of_not_pos h)]
    exact ⟨_, rfl⟩

theorem last_eq (r : Replay) : r.last = max r.total 1 - 1 := by
  unfold last
  omega

theorem moves_toEnd (r : Replay) : r.Moves .toEnd True (max r.total 1 - 1) := by
  rw [← r.last_eq]
  exact ⟨fun _ => rfl, fun h => absurd trivial h⟩

/-- A request that is granted moves; one that is not leaves the replay where it is. -/
theorem Moves.exists_eq_moveTo {q : Request} {condition : Prop} {position : Nat}
    (h : r.Moves q condition position) (hr : r.position ≤ r.last)
    (hposition : condition → position ≤ r.last) :
    ∃ p, p ≤ r.last ∧ (r.ask q).2 = r.moveTo p := by
  by_cases hc : condition
  · exact ⟨position, hposition hc, by rw [h.1 hc]⟩
  · obtain ⟨message, hask⟩ := h.2 hc
    exact ⟨r.position, hr, by rw [hask, moveTo_self]⟩

theorem Moves.snd_of_error {q : Request} {condition : Prop} {position : Nat} {err : EvalError}
    (h : r.Moves q condition position) (herr : (r.ask q).1 = .error err) : (r.ask q).2 = r := by
  by_cases hc : condition
  · rw [h.1 hc] at herr
    cases herr
  · obtain ⟨message, hask⟩ := h.2 hc
    rw [hask]

theorem backward_of_forward (h : r.forward = .ok r') : r'.backward = .ok r := by
  obtain ⟨-, rfl⟩ := forward_eq_ok_iff.1 h
  exact backward_eq_ok_iff.2 ⟨Nat.succ_pos _, rfl⟩

/-- Inside the history a step back can be taken again. -/
theorem forward_of_backward (hr : r.position = 0 ∨ r.position < r.total)
    (h : r.backward = .ok r') : r'.forward = .ok r := by
  obtain ⟨hpos, rfl⟩ := backward_eq_ok_iff.1 h
  have hposition : r.position - 1 + 1 = r.position := Nat.sub_add_cancel hpos
  apply forward_eq_ok_iff.2
  constructor
  · change r.position - 1 + 1 < r.total
    omega
  · change r = { r with position := r.position - 1 + 1 }
    rw [hposition]

end Moves

section Requests

/-- After the first run a request moves inside the history and does nothing else. -/
theorem exists_ask_eq_moveTo (hrun : r.finished = true) (hr : r.position ≤ r.last) (q : Request) :
    ∃ p, p ≤ r.last ∧ (r.ask q).2 = r.moveTo p := by
  have hlast : r.last = r.total - 1 := rfl
  cases q with
  | run =>
      obtain ⟨outcome, ho⟩ := Option.isSome_iff_exists.1 hrun
      exact ⟨r.position, hr, by rw [ask, run_of_outcome ho, moveTo_self]⟩
  | forward => exact r.moves_forward.exists_eq_moveTo hr (by omega)
  | backward => exact r.moves_backward.exists_eq_moveTo hr (by omega)
  | rewind => exact r.moves_rewind.exists_eq_moveTo hr (by omega)
  | toEnd => exact r.moves_toEnd.exists_eq_moveTo hr (by omega)

theorem exists_asked_eq_moveTo (hrun : r.finished = true) (hr : r.position ≤ r.last)
    (requests : List Request) : ∃ p, p ≤ r.last ∧ r.asked requests = r.moveTo p := by
  induction requests generalizing r with
  | nil => exact ⟨r.position, hr, rfl⟩
  | cons q requests ih =>
      obtain ⟨p, hp, hask⟩ := exists_ask_eq_moveTo hrun hr q
      rw [asked_cons, hask]
      exact ih (r := r.moveTo p) hrun hp

/-- What fails has no effect, the first run excepted. -/
theorem ask_of_error {q : Request} {err : EvalError} (h : (r.ask q).1 = .error err) :
    (r.ask q).2 = r ∨ q = .run ∧ r.outcome = none := by
  cases q with
  | run =>
      cases ho : r.outcome with
      | none => exact .inr ⟨rfl, rfl⟩
      | some outcome => exact .inl (by rw [ask, run_of_outcome ho])
  | forward => exact .inl (r.moves_forward.snd_of_error h)
  | backward => exact .inl (r.moves_backward.snd_of_error h)
  | rewind => exact .inl (r.moves_rewind.snd_of_error h)
  | toEnd => exact .inl (r.moves_toEnd.snd_of_error h)

/-- Before the first run there is nowhere to go. -/
theorem ask_ofExpr {q : Request} (hq : q ≠ .run) : ((ofExpr e limit).ask q).2 = ofExpr e limit := by
  cases q with
  | run => exact absurd rfl hq
  | _ => rfl

theorem exists_ask_ofExpr_eq_error {q : Request} (hrun : q ≠ .run) (hend : q ≠ .toEnd) :
    ∃ err, (ofExpr e limit).ask q = (.error err, ofExpr e limit) := by
  cases q with
  | run => exact absurd rfl hrun
  | toEnd => exact absurd rfl hend
  | _ => exact ⟨_, rfl⟩

theorem asked_of_not_mem (h : .run ∉ requests) :
    (ofExpr e limit).asked requests = ofExpr e limit := by
  induction requests with
  | nil => rfl
  | cons q requests ih =>
      obtain ⟨hq, hrest⟩ := not_or.1 (mt List.mem_cons.2 h)
      rw [asked_cons, ask_ofExpr (Ne.symm hq), ih hrest]

/-- Whatever comes before and after it, the first run decides all but the position. -/
theorem exists_asked_of_mem (e : Expr) (limit : Nat) (h : .run ∈ requests) :
    ∃ p, p ≤ (ofExpr e limit).run.2.last ∧
      (ofExpr e limit).asked requests = (ofExpr e limit).run.2.moveTo p := by
  obtain ⟨before, after, rfl, hbefore⟩ := List.eq_append_cons_of_mem h
  rw [asked_append, asked_of_not_mem hbefore, asked_cons]
  exact exists_asked_eq_moveTo (r := (ofExpr e limit).run.2) rfl (Nat.le_refl _) after

theorem asked_cases (e : Expr) (limit : Nat) (requests : List Request) :
    (.run ∉ requests ∧ (ofExpr e limit).asked requests = ofExpr e limit) ∨
      .run ∈ requests ∧ ∃ p, p ≤ (ofExpr e limit).run.2.last ∧
        (ofExpr e limit).asked requests = (ofExpr e limit).run.2.moveTo p := by
  by_cases h : .run ∈ requests
  · exact .inr ⟨h, exists_asked_of_mem e limit h⟩
  · exact .inl ⟨h, asked_of_not_mem h⟩

theorem expr_asked (e : Expr) (limit : Nat) (requests : List Request) :
    ((ofExpr e limit).asked requests).expr = e := by
  obtain ⟨-, h⟩ | ⟨-, p, -, h⟩ := asked_cases e limit requests
  · rw [h]
    rfl
  · rw [h]
    rfl

theorem position_asked_le (e : Expr) (limit : Nat) (requests : List Request) :
    ((ofExpr e limit).asked requests).position ≤ ((ofExpr e limit).asked requests).last := by
  obtain ⟨-, h⟩ | ⟨-, p, hp, h⟩ := asked_cases e limit requests
  · rw [h]
    exact Nat.le_refl 0
  · rw [h]
    exact hp

/-- There is no outcome as long as there has been no run. -/
theorem not_mem_of_outcome_asked (h : ((ofExpr e limit).asked requests).outcome = none) :
    .run ∉ requests := by
  intro hmem
  obtain ⟨p, -, hasked⟩ := exists_asked_of_mem e limit hmem
  rw [hasked] at h
  cases h

/-- A run that comes to a value has kept a snapshot. -/
theorem total_run_pos {v : Value} (h : (ofExpr e limit).run.1 = .ok v) :
    0 < (ofExpr e limit).run.2.total := by
  obtain ⟨-, hkept⟩ | ⟨used, j, hstopped, -⟩ := run_cases e limit
  · obtain ⟨n, hlength, -⟩ := e.exists_length_record
    calc
      0 < n + 1 := Nat.succ_pos n
      _ = e.record.1.length := hlength.symm
      _ = (ofExpr e limit).run.2.history.snapshots.toList.length := by rw [hkept]
      _ = (ofExpr e limit).run.2.total := Array.length_toList
  · rw [hstopped] at h
    cases h

theorem total_asked_pos {v : Value}
    (h : ((ofExpr e limit).asked requests).outcome = some (.ok v)) :
    0 < ((ofExpr e limit).asked requests).total := by
  obtain ⟨-, hasked⟩ | ⟨-, p, -, hasked⟩ := asked_cases e limit requests
  · rw [hasked] at h
    cases h
  · rw [hasked] at h ⊢
    exact total_run_pos (Option.some.inj h)

theorem result?_eq_some_iff {v : Value} (hlast : r.position ≤ r.last)
    (hr : r.outcome = some (.ok v) → 0 < r.total) :
    r.result? = some v ↔ r.outcome = some (.ok v) ∧ r.position + 1 = r.total := by
  have hle : r.position ≤ r.total - 1 := hlast
  constructor
  · intro h
    unfold result? at h
    split at h
    · rename_i w hw
      split at h
      · rename_i hend
        obtain rfl := Option.some.inj h
        have hend : r.total ≤ r.position + 1 := of_decide_eq_true hend
        have := hr hw
        exact ⟨hw, by omega⟩
      · cases h
    · cases h
  · rintro ⟨ho, hposition⟩
    have hend : r.atEnd = true := decide_eq_true (Nat.le_of_eq hposition.symm)
    simp [result?, ho, hend]

end Requests

/-- What is known of a replay of `e` after some requests. -/
structure Navigated (e : Expr) (limit : Nat) (requests : List Request) (r : Replay) : Prop where
  expr : r.expr = e
  /-- Before the first run there is no history to move in. -/
  before : .run ∉ requests → r = ofExpr e limit ∧ r.total = 0 ∧ r.position = 0 ∧
    ∀ q ∈ [.forward, .backward, .rewind], ∃ err, r.ask q = (.error err, r)
  /-- The first run decides the history and the outcome, and a later one changes nothing. -/
  after : .run ∈ requests → r.history = (ofExpr e limit).run.2.history ∧
    r.outcome = some (ofExpr e limit).run.1 ∧ r.run = ((ofExpr e limit).run.1, r)
  inside : r.position = 0 ∨ r.position < r.total
  forward : r.Moves .forward (r.position + 1 < r.total) (r.position + 1)
  backward : r.Moves .backward (0 < r.position) (r.position - 1)
  rewind : r.Moves .rewind (0 < r.total) 0
  toEnd : r.Moves .toEnd True (max r.total 1 - 1)
  /-- A request that fails has no effect, unless it is the first run. -/
  failed : ∀ q err, (r.ask q).1 = .error err → (r.ask q).2 = r ∨ q = .run ∧ .run ∉ requests
  /-- The first run is recorded however it ends. -/
  first : .run ∉ requests → r.run.2.outcome = some r.run.1 ∧
    r.run.2.position = max r.run.2.total 1 - 1 ∧ r.run.2.run = r.run
  result : ∀ v, r.result? = some v ↔ r.outcome = some (.ok v) ∧ r.position + 1 = r.total
  forward_backward : ∀ r', r.forward = .ok r' → r'.backward = .ok r
  backward_forward : ∀ r', r.backward = .ok r' → r'.forward = .ok r

/-- Requests move a cursor over a history that the first run fixes. The cursor never leaves
the history, a request that would lead out of it is refused, and steps in opposite
directions undo each other. -/
theorem navigation_is_clamped (e : Expr) (limit : Nat) (requests : List Request) :
    Navigated e limit requests ((ofExpr e limit).asked requests) := by
  have hlast := position_asked_le e limit requests
  have hinside : ((ofExpr e limit).asked requests).position = 0 ∨
      ((ofExpr e limit).asked requests).position < ((ofExpr e limit).asked requests).total := by
    rw [last] at hlast
    omega
  constructor
  case expr => exact expr_asked e limit requests
  case before =>
    intro h
    rw [asked_of_not_mem h]
    refine ⟨rfl, rfl, rfl, fun q hq => exists_ask_ofExpr_eq_error ?_ ?_⟩
    · rintro rfl
      simp at hq
    · rintro rfl
      simp at hq
  case after =>
    intro h
    obtain ⟨p, -, hasked⟩ := exists_asked_of_mem e limit h
    rw [hasked]
    exact ⟨rfl, rfl, rfl⟩
  case inside => exact hinside
  case forward => exact moves_forward _
  case backward => exact moves_backward _
  case rewind => exact moves_rewind _
  case toEnd => exact moves_toEnd _
  case failed =>
    intro q err herr
    obtain h | ⟨hq, h⟩ := ask_of_error herr
    · exact .inl h
    · exact .inr ⟨hq, not_mem_of_outcome_asked h⟩
  case first =>
    intro h
    rw [asked_of_not_mem h]
    exact ⟨rfl, last_eq (ofExpr e limit).run.2, run_run _⟩
  case result => exact fun v => result?_eq_some_iff hlast total_asked_pos
  case forward_backward => exact fun r' => backward_of_forward
  case backward_forward => exact fun r' => forward_of_backward hinside

/-- `1/0`, which fails before anything is reduced. -/
def divisionByNought : Expr :=
  .binary .div (.literal 1 ⟨0, 1, 1⟩ 1) (.literal 0 ⟨2, 1, 3⟩ 1) ⟨1, 1, 2⟩

/-- A run that fails does change the replay: there is a snapshot afterwards, and an outcome. -/
theorem failed_first_run_changes_state :
    ((ofExpr divisionByNought 1000).ask .run).1 = .error (.divisionByZero ⟨1, 1, 2⟩) ∧
      (ofExpr divisionByNought 1000).total = 0 ∧
      (ofExpr divisionByNought 1000).outcome = none ∧
      ((ofExpr divisionByNought 1000).ask .run).2.total = 1 ∧
      ((ofExpr divisionByNought 1000).ask .run).2.outcome =
        some (.error (.divisionByZero ⟨1, 1, 2⟩)) :=
  ⟨rfl, rfl, rfl, rfl, rfl⟩

end Replay

end StepCalc
