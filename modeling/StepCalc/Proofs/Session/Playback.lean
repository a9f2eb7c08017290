import StepCalc.Session.Event

/-!
# Playback

A cursor between the ends of a history that a flag may set to move by itself. Keys and the
clock act on it; drawings do not. However it is acted on, it never leaves the history.
-/

namespace StepCalc

/-- What happens to a session: an event, the moment for a step of a playing replay, or a
drawing of the panes. -/
inductive Action where
  | event (event : Event)
  | tick
  | draw (area : Area)
  deriving DecidableEq, Repr

/-- A position, and whether it moves on by itself. -/
structure Playback where
  position : Nat
  playing : Bool
  deriving DecidableEq, Repr

namespace Playback

/-- The effect of a character key if `last` is the last position. -/
def pressChar (last : Nat) (p : Playback) (c : Char) : Playback :=
  if c = ' ' then ⟨p.position, !p.playing⟩
  else if '1' ≤ c ∧ c ≤ '9' then ⟨min (p.position + (c.toNat - '0'.toNat)) last, false⟩
  else p

/-- The effect of a key. -/
def press (last : Nat) (p : Playback) : Key → Playback
  | .right => ⟨min (p.position + 1) last, false⟩
  | .left => ⟨p.position - 1, false⟩
  | .enter => ⟨last, false⟩
  | .backspace => ⟨0, false⟩
  | .char c => p.pressChar last c
  | .up | .down | .tab | .backTab | .other => p

/-- A step by itself; at the end there is none, and playing stops. -/
def tick (last : Nat) (p : Playback) : Playback :=
  if p.playing then
    if p.position < last then ⟨p.position + 1, true⟩ else ⟨p.position, false⟩
  else p

def act (last : Nat) (p : Playback) : Action → Playback
  | .event (.press key) => p.press last key
  | .event .bounce | .event .ignored | .draw _ => p
  | .tick => p.tick last

def acted (last : Nat) (p : Playback) (actions : List Action) : Playback :=
  actions.foldl (act last) p

variable {last : Nat} {p : Playback}

@[simp] theorem acted_nil (last : Nat) (p : Playback) : p.acted last [] = p := rfl

@[simp] theorem acted_cons (last : Nat) (p : Playback) (a : Action) (actions : List Action) :
    p.acted last (a :: actions) = (p.act last a).acted last actions := rfl

theorem acted_append (last : Nat) (p : Playback) (first next : List Action) :
    p.acted last (first ++ next) = (p.acted last first).acted last next :=
  List.foldl_append

theorem position_pressChar_le (h : p.position ≤ last) (c : Char) :
    (p.pressChar last c).position ≤ last := by
  unfold pressChar
  split
  · exact h
  · split
    · exact Nat.min_le_right _ _
    · exact h

theorem position_press_le (h : p.position ≤ last) (key : Key) :
    (p.press last key).position ≤ last := by
  cases key with
  | right => exact Nat.min_le_right _ _
  | left => exact Nat.le_trans (Nat.sub_le _ _) h
  | enter => exact Nat.le_refl last
  | backspace => exact Nat.zero_le last
  | char c => exact position_pressChar_le h c
  | _ => exact h

theorem position_tick_le (h : p.position ≤ last) : (p.tick last).position ≤ last := by
  unfold tick
  split
  · split
    · assumption
    · exact h
  · exact h

theorem position_act_le (h : p.position ≤ last) (a : Action) : (p.act last a).position ≤ last := by
  match a with
  | .event (.press key) => exact position_press_le h key
  | .event .bounce | .event .ignored | .draw _ => exact h
  | .tick => exact position_tick_le h

theorem position_acted_le (h : p.position ≤ last) (actions : List Action) :
    (p.acted last actions).position ≤ last := by
  induction actions generalizing p with
  | nil => exact h
  | cons a actions ih => exact ih (position_act_le h a)

/-- Going right a number of times. -/
theorem position_acted_right (h : p.position ≤ last) (n : Nat) :
    (p.acted last (List.replicate n (.event (.press .right)))).position =
      min (p.position + n) last := by
  induction n generalizing p with
  | zero => exact (Nat.min_eq_left h).symm
  | succ n ih =>
      rw [List.replicate_succ, acted_cons, ih (position_act_le h _)]
      simp only [act, press]
      omega

theorem acted_tick_of_not_playing (h : p.playing = false) (k : Nat) :
    p.acted last (List.replicate k .tick) = p := by
  induction k with
  | zero => rfl
  | succ k ih =>
      have htick : p.act last .tick = p := by simp [act, tick, h]
      rw [List.replicate_succ, acted_cons, htick, ih]

/-- Playing goes on to the end and stops one step later. -/
theorem acted_tick (h : p.position ≤ last) (hplaying : p.playing = true) (k : Nat) :
    p.acted last (List.replicate k .tick) =
      ⟨min (p.position + k) last, decide (p.position + k ≤ last)⟩ := by
  induction k generalizing p with
  | zero =>
      obtain ⟨position, playing⟩ := p
      simp_all
  | succ k ih =>
      rw [List.replicate_succ, acted_cons]
      by_cases hlt : p.position < last
      · have htick : p.act last .tick = ⟨p.position + 1, true⟩ := by
          simp [act, tick, hplaying, hlt]
        rw [htick, ih (p := ⟨p.position + 1, true⟩) hlt rfl, Nat.add_assoc, Nat.add_comm 1 k]
      · have htick : p.act last .tick = ⟨p.position, false⟩ := by
          simp [act, tick, hplaying, hlt]
        rw [htick, acted_tick_of_not_playing rfl]
        have hmin : min (p.position + (k + 1)) last = p.position := by omega
        have hend : ¬ p.position + (k + 1) ≤ last := by omega
        rw [hmin, decide_eq_false hend]

end Playback

end StepCalc
