import StepCalc.Proofs.History.Budget

/-!
# Pushing onto a history

A history is offered one snapshot after the other, and goes on when one of them does not fit.
The memory in use is a number of its own beside the snapshots. It never comes apart from
them, since both change only where a push succeeds: a run of offers extends a history by the
snapshots that were granted, and a refused one leaves no trace.
-/

namespace StepCalc

namespace History

/-- The answer to a push and the history after it. A push that fails leaves the history as
it is. -/
def offer (h : History) (s : Snapshot) : Except Overflow Unit × History :=
  match h.push s with
  | .ok h' => (.ok (), h')
  | .error o => (.error o, h)

/-- The history after some offers. -/
def offered (h : History) (offers : List Snapshot) : History :=
  offers.foldl (fun h s => (h.offer s).2) h

/-- The answers to some offers, each of them made to what the ones before it left. -/
def answers (h : History) : List Snapshot → List (Except Overflow Unit)
  | [] => []
  | s :: offers => (h.offer s).1 :: (h.offer s).2.answers offers

/-- The offers that were answered with a success. -/
def granted (offers : List Snapshot) (answers : List (Except Overflow Unit)) : List Snapshot :=
  ((offers.zip answers).filter (·.2.isOk)).map Prod.fst

variable {h : History} {s : Snapshot} {offers : List Snapshot}

@[simp] theorem offered_nil (h : History) : h.offered [] = h := rfl

@[simp] theorem offered_cons (h : History) (s : Snapshot) (offers : List Snapshot) :
    h.offered (s :: offers) = (h.offer s).2.offered offers := rfl

@[simp] theorem answers_nil (h : History) : h.answers [] = [] := rfl

@[simp] theorem answers_cons (h : History) (s : Snapshot) (offers : List Snapshot) :
    h.answers (s :: offers) = (h.offer s).1 :: (h.offer s).2.answers offers := rfl

@[simp] theorem granted_nil (answers : List (Except Overflow Unit)) : granted [] answers = [] :=
  rfl

@[simp] theorem granted_ok (s : Snapshot) (offers : List Snapshot) (u : Unit)
    (answers : List (Except Overflow Unit)) :
    granted (s :: offers) (.ok u :: answers) = s :: granted offers answers := rfl

@[simp] theorem granted_error (s : Snapshot) (offers : List Snapshot) (o : Overflow)
    (answers : List (Except Overflow Unit)) :
    granted (s :: offers) (.error o :: answers) = granted offers answers := rfl

section Step

/-- A snapshot that fits is pushed. One that does not is refused, and nothing changes. -/
theorem offer_cases (h : History) (s : Snapshot) :
    (h.used + s.size ≤ h.limit ∧ ∃ h', h.push s = .ok h' ∧ h.offer s = (.ok (), h')) ∨
      (h.limit < h.used + s.size ∧ h.offer s = (.error ⟨h.used, s.size, h.limit⟩, h)) := by
  by_cases hs : h.used + s.size ≤ h.limit
  · have hpush := push_eq_ok_iff.2 ⟨hs, rfl⟩
    exact .inl ⟨hs, _, hpush, by rw [offer, hpush]⟩
  · have hs := Nat.lt_of_not_le hs
    have hpush := push_eq_error_iff.2 ⟨hs, rfl⟩
    exact .inr ⟨hs, by rw [offer, hpush]⟩

theorem offer_eq_ok_iff : (h.offer s).1 = .ok () ↔ h.used + s.size ≤ h.limit := by
  obtain ⟨hs, h', -, hoffer⟩ | ⟨hs, hoffer⟩ := h.offer_cases s
  · simp [hoffer, hs]
  · simp [hoffer, Nat.not_le_of_lt hs]

theorem offer_of_error {o : Overflow} (herror : (h.offer s).1 = .error o) :
    (h.offer s).2 = h ∧ o = ⟨h.used, s.size, h.limit⟩ := by
  obtain ⟨-, h', -, hoffer⟩ | ⟨-, hoffer⟩ := h.offer_cases s
  · rw [hoffer] at herror
    cases herror
  · rw [hoffer] at herror ⊢
    exact ⟨rfl, (Except.error.inj herror).symm⟩

theorem extends_offer (hs : h.used + s.size ≤ h.limit) : h.Extends [s] (h.offer s).2 := by
  obtain ⟨-, h', hpush, hoffer⟩ | ⟨hexcess, -⟩ := h.offer_cases s
  · rw [hoffer]
    exact .cons hpush h'.extends_nil
  · exact absurd hs (Nat.not_le_of_lt hexcess)

theorem used_offer_le (hfit : h.used ≤ h.limit) : (h.offer s).2.used ≤ (h.offer s).2.limit := by
  obtain ⟨hs, h', hpush, hoffer⟩ | ⟨-, hoffer⟩ := h.offer_cases s
  · obtain ⟨-, rfl⟩ := push_eq_ok_iff.1 hpush
    rwa [hoffer]
  · rwa [hoffer]

end Step

section Runs

theorem used_offered_le (hfit : h.used ≤ h.limit) (offers : List Snapshot) :
    (h.offered offers).used ≤ (h.offered offers).limit := by
  induction offers generalizing h with
  | nil => exact hfit
  | cons s offers ih => exact ih (used_offer_le hfit)

/-- Offers extend a history by the granted snapshots and by nothing else. -/
theorem extends_offered (h : History) (offers : List Snapshot) :
    h.Extends (granted offers (h.answers offers)) (h.offered offers) := by
  induction offers generalizing h with
  | nil => exact h.extends_nil
  | cons s offers ih =>
      obtain ⟨-, h', hpush, hoffer⟩ | ⟨-, hoffer⟩ := h.offer_cases s
      · rw [answers_cons, offered_cons, hoffer, granted_ok]
        exact .cons hpush (ih h')
      · rw [answers_cons, offered_cons, hoffer, granted_error]
        exact ih h

@[simp] theorem length_answers (h : History) (offers : List Snapshot) :
    (h.answers offers).length = offers.length := by
  induction offers generalizing h with
  | nil => rfl
  | cons s offers ih => rw [answers_cons, List.length_cons, List.length_cons, ih]

theorem granted_sublist (h : History) (offers : List Snapshot) :
    (granted offers (h.answers offers)).Sublist offers := by
  have hzip : (offers.zip (h.answers offers)).map Prod.fst = offers :=
    List.map_fst_zip (Nat.le_of_eq (h.length_answers offers).symm)
  have hkept := (List.filter_sublist (p := fun q : Snapshot × Except Overflow Unit => q.2.isOk)
    (l := offers.zip (h.answers offers))).map Prod.fst
  rwa [hzip] at hkept

/-- An offer is answered by the history that the offers before it left. -/
theorem getElem?_answers (h : History) (offers : List Snapshot) (k : Nat) :
    (h.answers offers)[k]? = offers[k]?.map fun s => ((h.offered (offers.take k)).offer s).1 := by
  induction offers generalizing h k with
  | nil => rfl
  | cons s offers ih =>
      cases k with
      | zero => rfl
      | succ k => exact ih (h.offer s).2 k

/-- Without the refused offers everything would be as it is, and nothing would be refused. -/
theorem offered_granted (h : History) (offers : List Snapshot) :
    h.offered (granted offers (h.answers offers)) = h.offered offers ∧
      ∀ a ∈ h.answers (granted offers (h.answers offers)), a = .ok () := by
  induction offers generalizing h with
  | nil => exact ⟨rfl, by simp⟩
  | cons s offers ih =>
      obtain ⟨-, h', -, hoffer⟩ | ⟨-, hoffer⟩ := h.offer_cases s
      · obtain ⟨hsame, hok⟩ := ih h'
        rw [answers_cons, offered_cons, hoffer, granted_ok, answers_cons, offered_cons, hoffer]
        exact ⟨hsame, List.forall_mem_cons.2 ⟨rfl, hok⟩⟩
      · -- the next offer finds what this one found, so this one can be left out
        rw [answers_cons, offered_cons, hoffer, granted_error]
        exact ih h

theorem offered_of_excess (hexcess : ∀ s ∈ offers, h.limit < h.used + s.size) :
    h.offered offers = h := by
  induction offers with
  | nil => rfl
  | cons s offers ih =>
      obtain ⟨hs, hrest⟩ := List.forall_mem_cons.1 hexcess
      obtain ⟨hfits, -⟩ | ⟨-, hoffer⟩ := h.offer_cases s
      · exact absurd hfits (Nat.not_le_of_lt hs)
      · rw [offered_cons, hoffer]
        exact ih hrest

end Runs

section Reading

/-- The snapshots up to a number are those that can be read one by one. -/
theorem map_some_upTo (h : History) (i : Nat) :
    (h.upTo i).map some = (List.range (min (i + 1) h.length)).map h.get? := by
  apply List.ext_getElem
  · simp [upTo, length]
  · intro j hj _
    have hsize : j < h.snapshots.size := by
      simp only [upTo, List.length_map, List.length_take, Array.length_toList] at hj
      omega
    simp [upTo, get?, hsize]

theorem map_some_upTo_eq_ite (h : History) (i : Nat) :
    (h.upTo i).map some =
      if h.length = 0 then [] else (List.range (min i (h.length - 1) + 1)).map h.get? := by
  rw [map_some_upTo]
  split
  · rename_i hempty
    rw [hempty, Nat.min_zero, List.range_zero, List.map_nil]
  · have hlast : min (i + 1) h.length = min i (h.length - 1) + 1 := by omega
    rw [hlast]

end Reading

/-- What is known of a history that was empty before some offers, and of their answers. -/
structure Books (limit : Nat) (offers : List Snapshot) (answers : List (Except Overflow Unit))
    (h : History) : Prop where
  limit_eq : h.limit = limit
  used_eq : h.used = bytes h.snapshots.toList
  used_le : h.used ≤ h.limit
  /-- So a push never adds up more than the sizes offered so far and that of its snapshot. -/
  used_le_offered : h.used ≤ bytes offers
  kept : h.snapshots.toList = granted offers answers
  in_order : (granted offers answers).Sublist offers
  answered : ∀ k, answers[k]? =
    offers[k]?.map fun s => (((empty limit).offered (offers.take k)).offer s).1
  /-- The refused offers make no difference. -/
  kept_alone : (empty limit).offered (granted offers answers) = h ∧
    ∀ a ∈ (empty limit).answers (granted offers answers), a = .ok ()
  succeeds : ∀ s, (h.offer s).1 = .ok () ↔ h.used + s.size ≤ h.limit
  fails : ∀ s o, (h.offer s).1 = .error o → (h.offer s).2 = h ∧ o = ⟨h.used, s.size, h.limit⟩
  /-- What fits is kept, however many offers have been refused before it. -/
  later : ∀ refused s, (∀ t ∈ refused, h.limit < h.used + t.size) → h.used + s.size ≤ h.limit →
    ((h.offered refused).offer s).1 = .ok () ∧ h.Extends [s] ((h.offered refused).offer s).2
  get : ∀ i, h.get? i = none ↔ h.length ≤ i
  upTo : ∀ i, (h.upTo i).map some =
    if h.length = 0 then [] else (List.range (min i (h.length - 1) + 1)).map h.get?

/-- After any offers the memory in use is what the kept snapshots are charged for. These are
the granted offers in their order; the refused ones have changed nothing. -/
theorem bookkeeping_is_exact (limit : Nat) (offers : List Snapshot) :
    Books limit offers ((empty limit).answers offers) ((empty limit).offered offers) := by
  have hextends := (empty limit).extends_offered offers
  have hkept : ((empty limit).offered offers).snapshots.toList =
      granted offers ((empty limit).answers offers) := by
    simpa [empty] using hextends.snapshots
  have hused : ((empty limit).offered offers).used =
      bytes (granted offers ((empty limit).answers offers)) := by
    simpa [empty] using hextends.used
  have hsublist := (empty limit).granted_sublist offers
  constructor
  case limit_eq => exact hextends.limit
  case used_eq => rw [hused, hkept]
  case used_le => exact used_offered_le (Nat.zero_le limit) offers
  case used_le_offered =>
    rw [hused]
    exact bytes_le_of_sublist hsublist
  case kept => exact hkept
  case in_order => exact hsublist
  case answered => exact (empty limit).getElem?_answers offers
  case kept_alone => exact (empty limit).offered_granted offers
  case succeeds => exact fun s => offer_eq_ok_iff
  case fails => exact fun s o => offer_of_error
  case later =>
    intro refused s hrefused hs
    rw [offered_of_excess hrefused]
    exact ⟨offer_eq_ok_iff.2 hs, extends_offer hs⟩
  case get => exact fun i => get?_eq_none_iff
  case upTo => exact map_some_upTo_eq_ite _

-- The second snapshot is too large by 16 bytes, and the third fills the history.
example :
    let one : Resolved := (∅ : Resolved).insert 0 7
    ((empty 240).answers [⟨∅, none⟩, ⟨one.insert 3 5, none⟩, ⟨one, none⟩]).map Except.isOk =
      [true, false, true] := by
  decide +kernel

end History

end StepCalc
