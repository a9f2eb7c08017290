import StepCalc.History.Reducer
import StepCalc.History.Replay
import StepCalc.Proofs.Expr.FlatTraversal
import StepCalc.Proofs.History.Recording

/-!
# The reducing loop records

The loop over the index of an expression comes to the end of a subtree with the snapshots
that the recursion over the subtree adds, unless one of them does not fit
(`Records.exists_progress`). So it does in a single pass what recording first and keeping
afterwards does (`Index.reduceAll?_eq`).
-/

namespace StepCalc

namespace History

variable {h h' : History} {first : List Snapshot} {s : Snapshot} {o : Overflow}

theorem keep_nil (h : History) : h.keep [] = (h, none) := rfl

/-- Snapshots that all fit are kept, and others may follow. -/
theorem keep_append_of_none (hkeep : h.keep first = (h', none)) (next : List Snapshot) :
    h.keep (first ++ next) = h'.keep next := by
  induction first generalizing h with
  | nil =>
      obtain ⟨rfl, -⟩ := Prod.mk.inj hkeep
      rfl
  | cons s first ih =>
      rw [keep] at hkeep
      rw [List.cons_append, keep]
      cases hpush : h.push s with
      | error o => simp [hpush] at hkeep
      | ok h'' =>
          rw [hpush] at hkeep
          exact ih hkeep

/-- Behind one that does not fit none is kept. -/
theorem keep_append_of_some (hkeep : h.keep first = (h', some o)) (next : List Snapshot) :
    h.keep (first ++ next) = (h', some o) := by
  induction first generalizing h with
  | nil => cases hkeep
  | cons s first ih =>
      rw [keep] at hkeep
      rw [List.cons_append, keep]
      cases hpush : h.push s with
      | error o' =>
          rw [hpush] at hkeep
          exact hkeep
      | ok h'' =>
          rw [hpush] at hkeep
          exact ih hkeep

theorem keep_singleton_of_ok (hpush : h.push s = .ok h') : h.keep [s] = (h', none) := by
  simp [keep, hpush]

theorem keep_singleton_of_error (hpush : h.push s = .error o) : h.keep [s] = (h, some o) := by
  simp [keep, hpush]

end History

namespace Index

open StepCalc.Expr

variable {ix : Index} {e f left right : Expr} {op : Op} {l : Location} {n i j : Nat}
  {values : Array Value} {resolved : Resolved} {h : History} {a b v : Value}

theorem reduceIn?_cons_literal {width : Nat} (hnode : ix.nodes[n]? = some (literal v l width))
    (rest : List Nat) :
    ix.reduceIn? values resolved h (n :: rest) =
      (write? values n v).bind (ix.reduceIn? · resolved h rest) := by
  simp [reduceIn?, hnode]

theorem reduceIn?_cons_error {err : EvalError}
    (hnode : ix.nodes[n]? = some (binary op left right l))
    (hoperands : ix.operands? n = some (i, j)) (ha : values[i]? = some a)
    (hb : values[j]? = some b) (happly : op.apply a b l = .error err) (rest : List Nat) :
    ix.reduceIn? values resolved h (n :: rest) = some (h, .error err) := by
  simp [reduceIn?, hnode, hoperands, ha, hb, happly]

theorem reduceIn?_cons_ok {values' : Array Value} {span : Span}
    (hnode : ix.nodes[n]? = some (binary op left right l))
    (hoperands : ix.operands? n = some (i, j)) (ha : values[i]? = some a)
    (hb : values[j]? = some b) (happly : op.apply a b l = .ok v)
    (hwrite : write? values n v = some values') (ha' : values'[i]? = some a)
    (hb' : values'[j]? = some b) (hspan : ix.spans[n]? = some span) (rest : List Nat) :
    ix.reduceIn? values resolved h (n :: rest) =
      match h.push ⟨((resolved.erase i).erase j).insert n v,
        some ⟨n, op, a, b, v, span, l⟩⟩ with
      | .error _ => some (h, .error (.snapshotLimitExceeded h.used h.limit))
      | .ok h => ix.reduceIn? values' (((resolved.erase i).erase j).insert n v) h rest := by
  simp only [reduceIn?, hnode, hoperands, ha, hb, happly, hwrite, ha', hb', hspan,
    Option.bind_eq_bind, Option.bind_some, History.capture]
  cases h.push _ <;> rfl

/-- Where the loop, with `x` as its result, gets to from the subtree `f` of node `n`, when a
recording of `f` adds the snapshots `added` and comes to a value or an error. -/
inductive Progress (ix : Index) (values : Array Value) (n : Nat) (f : Expr) (resolved : Resolved)
    (rest : List Nat) (h : History) (added : List Snapshot)
    (x : Option (History × Except EvalError Value)) : Except EvalError Value → Prop
  | full {r : Except EvalError Value} {h' : History} {o : Overflow}
      (kept : h.keep added = (h', some o))
      (stops : x = some (h', .error (.snapshotLimitExceeded h'.used h'.limit))) :
      Progress ix values n f resolved rest h added x r
  | fails {err : EvalError} {h' : History} (kept : h.keep added = (h', none))
      (stops : x = some (h', .error err)) :
      Progress ix values n f resolved rest h added x (.error err)
  | passes {v : Value} {h' : History} {values' : Array Value} (kept : h.keep added = (h', none))
      (filled : Filled values values' n f v)
      (continues : x = ix.reduceIn? values' resolved h' rest) :
      Progress ix values n f resolved rest h added x (.ok v)

namespace Progress

variable {values₁ : Array Value} {m : Nat} {resolved₁ resolved₂ : Resolved}
  {rest rest₁ : List Nat} {h₁ : History} {first second : List Snapshot}
  {x : Option (History × Except EvalError Value)}

/-- A failure of an operand, after `first` has been kept, is one of the whole. -/
theorem of_error {err : EvalError} (hkept : h.keep first = (h₁, none))
    (hoperand : Progress ix values₁ m f resolved₁ rest₁ h₁ second x (.error err)) :
    Progress ix values n e resolved₂ rest h (first ++ second) x (.error err) := by
  cases hoperand with
  | full kept stops => exact .full ((History.keep_append_of_none hkept second).trans kept) stops
  | fails kept stops => exact .fails ((History.keep_append_of_none hkept second).trans kept) stops

/-- An operand that has a value is passed, unless its snapshots do not fit. -/
theorem andThen {next : List Snapshot} {r : Except EvalError Value}
    (hkept : h.keep first = (h₁, none))
    (hoperand : Progress ix values₁ m f resolved₁ rest₁ h₁ second x (.ok v))
    (hnext : ∀ h₂ values₂, h.keep (first ++ second) = (h₂, none) → Filled values₁ values₂ m f v →
      x = ix.reduceIn? values₂ resolved₁ h₂ rest₁ →
        Progress ix values n e resolved₂ rest h (first ++ second ++ next) x r) :
    Progress ix values n e resolved₂ rest h (first ++ second ++ next) x r := by
  cases hoperand with
  | full kept stops =>
      have hfull := (History.keep_append_of_none hkept second).trans kept
      exact .full (History.keep_append_of_some hfull next) stops
  | passes kept filled continues =>
      exact hnext _ _ ((History.keep_append_of_none hkept second).trans kept) filled continues

/-- Both operands are passed, unless there is a snapshot that does not fit. -/
theorem operands {tail : List Snapshot} {r : Except EvalError Value} {resolved₃ : Resolved}
    (hleft : Progress ix values (n + 1) left resolved₁ rest₁ h first x (.ok a))
    (hright : ∀ values₁ h₁, values₁.size = values.size →
      Progress ix values₁ m right resolved₂ (n :: rest) h₁ second
        (ix.reduceIn? values₁ resolved₁ h₁ rest₁) (.ok b))
    (hnext : ∀ h₂ values₁ values₂, h.keep (first ++ second) = (h₂, none) →
      Filled values values₁ (n + 1) left a → Filled values₁ values₂ m right b →
      x = ix.reduceIn? values₂ resolved₂ h₂ (n :: rest) →
        Progress ix values n e resolved₃ rest h (first ++ second ++ tail) x r) :
    Progress ix values n e resolved₃ rest h (first ++ (second ++ tail)) x r := by
  refine hleft.andThen h.keep_nil fun h₁ values₁ kept filled hx => ?_
  have hsecond := hright values₁ h₁ filled.size
  rw [← hx] at hsecond
  rw [List.nil_append, ← List.append_assoc]
  exact hsecond.andThen kept fun h₂ values₂ kept₂ filled₂ hx₂ =>
    hnext h₂ values₁ values₂ kept₂ filled filled₂ hx₂

/-- The last step at an operator, whose operands have their values. -/
theorem reduce {values₂ : Array Value} {t : Tape} (htable : ix.Tabulates e)
    (hf : e.NodeAt 0 n (binary op left right l)) (hvalues : values.size = e.size)
    (hkept : h.keep first = (h₁, none)) (hleft : Filled values values₁ (n + 1) left a)
    (hright : Filled values₁ values₂ (n + 1 + left.size) right b) (happly : op.apply a b l = .ok v)
    (hx : x = ix.reduceIn? values₂ t.resolved h₁ (n :: rest)) :
    let r : Reduction := ⟨n, op, a, b, v, ⟨left.firstOffset, right.lastOffset⟩, l⟩
    let t' := t.reduce (n + 1) (n + 1 + left.size) r
    Progress ix values n (binary op left right l) t'.resolved rest h
      (first ++ [⟨t'.resolved, some r⟩]) x (.ok v) := by
  intro r t'
  have hpos := left.size_pos
  obtain ⟨values', hwrite, hfilled, hother⟩ := hleft.exists_binary hright hf hvalues v
  have ha := hleft.left_cell hright
  have ha' : values'[n + 1]? = some a := (hother _ (by omega)).trans ha
  have hb' : values'[n + 1 + left.size]? = some b := (hother _ (by omega)).trans hright.cell
  have hkeep := History.keep_append_of_none hkept [⟨t'.resolved, some r⟩]
  have hstep : x = match h₁.push ⟨t'.resolved, some r⟩ with
      | .error _ => some (h₁, .error (.snapshotLimitExceeded h₁.used h₁.limit))
      | .ok h₂ => ix.reduceIn? values' t'.resolved h₂ rest :=
    hx.trans (reduceIn?_cons_ok (htable.node_iff.2 hf) (htable.operands?_eq hf) ha hright.cell
      happly hwrite ha' hb' (htable.span _ _ hf) rest)
  cases hpush : h₁.push ⟨t'.resolved, some r⟩ with
  | error o =>
      rw [hpush] at hstep
      exact .full (hkeep.trans (History.keep_singleton_of_error hpush)) hstep
  | ok h₂ =>
      rw [hpush] at hstep
      exact .passes (hkeep.trans (History.keep_singleton_of_ok hpush)) hfilled hstep

end Progress

end Index

open Index StepCalc.Expr in
/-- The loop comes through a subtree as a recording of it does. -/
theorem Records.exists_progress {ix : Index} {e f : Expr} {t t' : Tape}
    {r : Except EvalError Value} (hrec : Records f t t' r) (htable : ix.Tabulates e)
    (hf : e.NodeAt 0 t.next f) :
    ∃ added, t'.snapshots.toList = t.snapshots.toList ++ added ∧
      ∀ values h rest, values.size = e.size →
        Progress ix values t.next f t'.resolved rest h added
          (ix.reduceIn? values t.resolved h (f.postOrderFrom t.next [] ++ rest)) r := by
  -- The tape decides which snapshots are added; the table and the history stay open, since the
  -- right operand is met with those that the left one leaves.
  induction hrec with
  | literal v l width t =>
      refine ⟨[], (List.append_nil _).symm, fun values h rest hvalues => ?_⟩
      obtain ⟨values', hwrite, hfilled⟩ := exists_filled_literal hf hvalues
      refine .passes rfl hfilled ?_
      rw [postOrderFrom, List.singleton_append, reduceIn?_cons_literal (htable.node_iff.2 hf),
        hwrite]
      rfl
  | leftFails op right l hleft ih =>
      obtain ⟨added, hadded, hprogress⟩ := ih hf.operands.1
      refine ⟨added, hadded, fun values h rest hvalues => ?_⟩
      rw [postOrderFrom_binary_append]
      exact (hprogress values h _ hvalues).of_error h.keep_nil
  | @rightFails left right t t' t'' a err op l hleft hright ihl ihr =>
      have hnext : t'.next = t.next + 1 + left.size := hleft.next_eq
      obtain ⟨first, hfirst, hl⟩ := ihl hf.operands.1
      obtain ⟨second, hsecond, hr⟩ := ihr (hnext ▸ hf.operands.2)
      refine ⟨first ++ second, ?_, fun values h rest hvalues => ?_⟩
      · rw [hsecond, hfirst, Tape.snapshots_visit, List.append_assoc]
      · rw [postOrderFrom_binary_append, ← hnext]
        refine (hl values h _ hvalues).andThen h.keep_nil fun h₁ values₁ kept filled hx => ?_
        have hprogress := hr values₁ h₁ (t.next :: rest) (filled.size.trans hvalues)
        rw [← hx] at hprogress
        exact hprogress.of_error kept
  | @fails left right t t' t'' a b op l err hleft hright happly ihl ihr =>
      have hnext : t'.next = t.next + 1 + left.size := hleft.next_eq
      obtain ⟨first, hfirst, hl⟩ := ihl hf.operands.1
      obtain ⟨second, hsecond, hr⟩ := ihr (hnext ▸ hf.operands.2)
      refine ⟨first ++ (second ++ []), ?_, fun values h rest hvalues => ?_⟩
      · rw [hsecond, hfirst, Tape.snapshots_visit, List.append_assoc, List.append_nil]
      · rw [postOrderFrom_binary_append, ← hnext]
        refine (hl values h _ hvalues).operands
          (fun values₁ h₁ hsize => hr values₁ h₁ _ (hsize.trans hvalues))
          fun h₂ values₁ values₂ kept filled filled₂ hx => ?_
        rw [hnext] at filled₂
        rw [List.append_nil]
        exact .fails kept (hx.trans (reduceIn?_cons_error (htable.node_iff.2 hf)
          (htable.operands?_eq hf) (filled.left_cell filled₂) filled₂.cell happly rest))
  | @reduces left right t t' t'' a b v op l hleft hright happly ihl ihr =>
      have hnext : t'.next = t.next + 1 + left.size := hleft.next_eq
      obtain ⟨first, hfirst, hl⟩ := ihl hf.operands.1
      obtain ⟨second, hsecond, hr⟩ := ihr (hnext ▸ hf.operands.2)
      have hadded := t''.toList_snapshots_reduce (t.next + 1) t'.next
        ⟨t.next, op, a, b, v, ⟨left.firstOffset, right.lastOffset⟩, l⟩
      rw [hsecond, hfirst, Tape.snapshots_visit, List.append_assoc, List.append_assoc] at hadded
      refine ⟨_, hadded, fun values h rest hvalues => ?_⟩
      rw [postOrderFrom_binary_append, ← hnext]
      refine (hl values h _ hvalues).operands
        (fun values₁ h₁ hsize => hr values₁ h₁ _ (hsize.trans hvalues))
        fun h₂ values₁ values₂ kept filled filled₂ hx => ?_
      rw [hnext] at filled₂ hx ⊢
      exact .reduce htable hf hvalues kept filled filled₂ happly hx

namespace Replay

variable {r : Replay} {h : History} {o : Overflow}

theorem recorded_of_keep_none (hkeep : r.history.keep r.expr.record.1 = (h, none)) :
    r.recorded = (h, r.expr.record.2) := by
  simp [recorded, hkeep]

theorem recorded_of_keep_some (hkeep : r.history.keep r.expr.record.1 = (h, some o)) :
    r.recorded = (h, .error (.snapshotLimitExceeded h.used h.limit)) := by
  simp [recorded, hkeep]

end Replay

open Index StepCalc.Expr in
/-- The loop over the index of an expression keeps what a run keeps, and ends as it does. -/
theorem Index.reduceAll?_eq {ix : Index} {r : Replay} (htable : ix.Tabulates r.expr) :
    ix.reduceAll? r.history = some r.recorded := by
  obtain ⟨added, hadded, hprogress⟩ :=
    (records_recordOnto r.expr .start).exists_progress htable (.root r.expr 0)
  have hrecord : r.expr.record.1 = ⟨∅, none⟩ :: added := hadded
  cases hpush : r.history.push ⟨∅, none⟩ with
  | error o =>
      have hkeep : r.history.keep r.expr.record.1 = (r.history, some o) := by
        simp [hrecord, History.keep, hpush]
      rw [Replay.recorded_of_keep_some hkeep, reduceAll?, History.capture, hpush]
  | ok h =>
      have hkeep : r.history.keep r.expr.record.1 = h.keep added := by
        simp [hrecord, History.keep, hpush]
      have hloop : Progress ix _ 0 r.expr _ [] h added _ r.expr.record.2 :=
        hprogress (Array.replicate ix.count 0) h [] (by simp [htable.count_eq])
      have hreduce : ix.reduceAll? r.history =
          ix.reduceIn? (Array.replicate ix.count 0) ∅ h (r.expr.postOrderFrom 0 [] ++ []) := by
        rw [reduceAll?, History.capture, hpush, List.append_nil]
        simp only [postOrder?_eq htable]
        rfl
      rw [hreduce]
      generalize houtcome : r.expr.record.2 = outcome at hloop
      cases hloop with
      | full kept stops =>
          rw [Replay.recorded_of_keep_some (hkeep.trans kept)]
          exact stops
      | fails kept stops =>
          rw [Replay.recorded_of_keep_none (hkeep.trans kept), houtcome]
          exact stops
      | passes kept filled continues =>
          rw [Replay.recorded_of_keep_none (hkeep.trans kept), houtcome]
          refine continues.trans ?_
          rw [reduceIn?, filled.cell]
          rfl

end StepCalc
