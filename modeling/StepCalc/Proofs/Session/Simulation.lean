import StepCalc.Proofs.History.Navigation
import StepCalc.Proofs.Session.Playback
import StepCalc.Session.Drawing

/-!
# A session plays a replay

Keys, the clock and drawings act on a session. Of the replay they change the position only,
and the position and the flag of the session are those of a `Playback` that is acted on in
the same way. A turn of a session is such a sequence of actions too.
-/

namespace StepCalc

namespace Replay

variable {r : Replay} {position : Nat}

theorem forward_moveTo_of_lt (h : position < r.last) :
    (r.moveTo position).forward = .ok (r.moveTo (position + 1)) := by
  have hlast : r.last = r.total - 1 := rfl
  apply forward_eq_ok_iff.2
  refine ⟨?_, rfl⟩
  change position + 1 < r.total
  omega

theorem exists_forward_moveTo_of_le (h : r.last ≤ position) :
    ∃ err, (r.moveTo position).forward = .error err := by
  have hlast : r.last = r.total - 1 := rfl
  have hend : ¬ position + 1 < r.total := by omega
  exact ⟨_, if_neg hend⟩

/-- Going forward stops at the end and counts the steps made. -/
theorem advance_moveTo (h : position ≤ r.last) (n : Nat) :
    (r.moveTo position).advance n =
      (r.moveTo (min (position + n) r.last), min (position + n) r.last - position) := by
  induction n generalizing position with
  | zero =>
      have hmin : min (position + 0) r.last = position := Nat.min_eq_left h
      rw [hmin, Nat.sub_self]
      rfl
  | succ n ih =>
      rw [advance]
      by_cases hlt : position < r.last
      · have hadd : position + 1 + n = position + (n + 1) := by omega
        rw [forward_moveTo_of_lt hlt]
        simp only [ih hlt, hadd, Prod.mk.injEq, true_and]
        omega
      · obtain ⟨err, herr⟩ := exists_forward_moveTo_of_le (Nat.le_of_not_lt hlt)
        have hmin : min (position + (n + 1)) r.last = position := by omega
        rw [herr, hmin, Nat.sub_self]

end Replay

namespace Session

def act (s : Session) : Action → Session
  | .event event => s.handle event
  | .tick => { s with due := true }.play
  | .draw area => s.settle area

def acted (s : Session) (actions : List Action) : Session :=
  actions.foldl act s

/-- The session shows `source` and the replay `r`, of which only the position has changed,
as `p` says. -/
structure Shows (s : Session) (r : Replay) (source : String) (p : Playback) : Prop where
  replay : s.replay = r.moveTo p.position
  playing : s.playing = p.playing
  text : s.source = source
  tokens : s.tokens = tokenize source
  outline : s.outline = r.expr.outline

variable {s : Session} {r : Replay} {source : String} {p : Playback}

theorem shows_ofReplay (r : Replay) (source : String) :
    (ofReplay r source).Shows r source ⟨r.position, false⟩ :=
  ⟨rfl, rfl, rfl, rfl, rfl⟩

/-- The keys from 1 to 9 count steps. -/
theorem count?_eq (c : Char) :
    count? c = if '1' ≤ c ∧ c ≤ '9' then some (c.toNat - '0'.toNat) else none := by
  have hzero : c ≠ '0' ↔ c.val.toNat ≠ 48 := by
    rw [Ne, Char.ext_iff, ← UInt32.toNat_inj]
    rfl
  have hcount : (c.isDigit && c != '0') = true ↔ '1' ≤ c ∧ c ≤ '9' := by
    simp only [Char.isDigit, Bool.and_eq_true, bne_iff_ne, hzero, decide_eq_true_iff, Char.le_def,
      UInt32.le_iff_toNat_le, ge_iff_le]
    change (48 ≤ c.val.toNat ∧ c.val.toNat ≤ 57) ∧ c.val.toNat ≠ 48 ↔
      49 ≤ c.val.toNat ∧ c.val.toNat ≤ 57
    omega
  unfold count?
  by_cases h : '1' ≤ c ∧ c ≤ '9'
  · rw [if_pos (hcount.2 h), if_pos h]
  · rw [if_neg (mt hcount.1 h), if_neg h]

namespace Shows

theorem forward_of_lt (h : s.Shows r source p) (hlt : p.position < r.last) :
    s.replay.forward = .ok (r.moveTo (p.position + 1)) := by
  rw [h.replay, Replay.forward_moveTo_of_lt hlt]

theorem exists_forward_eq_error (h : s.Shows r source p) (hle : r.last ≤ p.position) :
    ∃ err, s.replay.forward = .error err := by
  rw [h.replay]
  exact Replay.exists_forward_moveTo_of_le hle

theorem stepForward (h : s.Shows r source p) (hp : p.position ≤ r.last) :
    s.stepForward.Shows r source ⟨min (p.position + 1) r.last, false⟩ := by
  unfold Session.stepForward
  by_cases hlt : p.position < r.last
  · rw [h.forward_of_lt hlt, Nat.min_eq_left hlt]
    exact ⟨rfl, rfl, h.text, h.tokens, h.outline⟩
  · obtain ⟨err, herr⟩ := h.exists_forward_eq_error (Nat.le_of_not_lt hlt)
    have hmin : min (p.position + 1) r.last = p.position := by omega
    rw [herr, hmin]
    exact ⟨h.replay, rfl, h.text, h.tokens, h.outline⟩

theorem stepBackward (h : s.Shows r source p) :
    s.stepBackward.Shows r source ⟨p.position - 1, false⟩ := by
  unfold Session.stepBackward
  by_cases hpos : 0 < p.position
  · have hback : s.replay.backward = .ok (r.moveTo (p.position - 1)) := by
      rw [h.replay]
      exact Replay.backward_eq_ok_iff.2 ⟨hpos, rfl⟩
    rw [hback]
    exact ⟨rfl, rfl, h.text, h.tokens, h.outline⟩
  · have hzero : p.position = 0 := Nat.eq_zero_of_not_pos hpos
    have hback : ∃ err, s.replay.backward = .error err := by
      rw [h.replay]
      exact ⟨_, if_pos hzero⟩
    obtain ⟨err, herr⟩ := hback
    have hsub : p.position - 1 = p.position := by omega
    rw [herr, hsub]
    exact ⟨h.replay, rfl, h.text, h.tokens, h.outline⟩

theorem toEnd (h : s.Shows r source p) : s.toEnd.Shows r source ⟨r.last, false⟩ := by
  refine ⟨?_, rfl, h.text, h.tokens, h.outline⟩
  change s.replay.toEnd = r.moveTo r.last
  rw [h.replay]
  rfl

theorem toStart (h : s.Shows r source p) (hp : p.position ≤ r.last) :
    s.toStart.Shows r source ⟨0, false⟩ := by
  refine ⟨?_, rfl, h.text, h.tokens, h.outline⟩
  unfold Session.toStart
  by_cases htotal : 0 < r.total
  · have hrewind : s.replay.rewind = .ok (r.moveTo 0) := by
      rw [h.replay]
      exact Replay.rewind_eq_ok_iff.2 ⟨htotal, rfl⟩
    rw [hrewind]
  · have hrewind : ∃ err, s.replay.rewind = .error err := by
      rw [h.replay]
      exact ⟨_, if_pos (Nat.eq_zero_of_not_pos htotal)⟩
    obtain ⟨err, herr⟩ := hrewind
    have hzero : p.position = 0 := by
      have hlast : r.last = r.total - 1 := rfl
      omega
    rw [herr]
    change s.replay = r.moveTo 0
    rw [h.replay, hzero]

theorem stepMany (h : s.Shows r source p) (hp : p.position ≤ r.last) (n : Nat) :
    (s.stepMany n).Shows r source ⟨min (p.position + n) r.last, false⟩ ∧
      (s.stepMany n).message =
        s!"Stepped forward {min (p.position + n) r.last - p.position} step(s)" := by
  have hadvance := Replay.advance_moveTo hp n
  rw [← h.replay] at hadvance
  unfold Session.stepMany
  rw [hadvance]
  exact ⟨⟨rfl, rfl, h.text, h.tokens, h.outline⟩, rfl⟩

theorem togglePlay (h : s.Shows r source p) :
    s.togglePlay.Shows r source ⟨p.position, !p.playing⟩ := by
  unfold Session.togglePlay
  rw [← h.playing]
  cases hplaying : s.playing with
  | true => exact ⟨h.replay, rfl, h.text, h.tokens, h.outline⟩
  | false => exact ⟨h.replay, rfl, h.text, h.tokens, h.outline⟩

theorem pressChar (h : s.Shows r source p) (hp : p.position ≤ r.last) (c : Char) :
    (s.pressChar c).Shows r source (p.pressChar r.last c) := by
  unfold Session.pressChar
  by_cases hquit : (c = 'q' || c = 'Q') = true
  · have hchar : p.pressChar r.last c = p := by
      rcases (by simpa using hquit : c = 'q' ∨ c = 'Q') with rfl | rfl
      · rfl
      · rfl
    rw [if_pos hquit, hchar]
    exact ⟨h.replay, h.playing, h.text, h.tokens, h.outline⟩
  · unfold Playback.pressChar
    rw [if_neg hquit, count?_eq]
    by_cases hspace : c = ' '
    · rw [if_pos hspace, if_pos hspace]
      exact h.togglePlay
    · rw [if_neg hspace, if_neg hspace]
      by_cases hdigit : '1' ≤ c ∧ c ≤ '9'
      · rw [if_pos hdigit, if_pos hdigit]
        exact (h.stepMany hp _).1
      · rw [if_neg hdigit, if_neg hdigit]
        exact h

theorem press (h : s.Shows r source p) (hp : p.position ≤ r.last) (key : Key) :
    (s.press key).Shows r source (p.press r.last key) := by
  cases key with
  | char c => exact h.pressChar hp c
  | left => exact h.stepBackward
  | right => exact h.stepForward hp
  | enter => exact h.toEnd
  | backspace => exact h.toStart hp
  | up | down | tab | backTab | other => exact ⟨h.replay, h.playing, h.text, h.tokens, h.outline⟩

/-- A playing replay makes the step that is due. -/
theorem play (h : s.Shows r source p) (hdue : s.playing = true → s.due = true) :
    s.play.Shows r source (p.tick r.last) := by
  unfold Session.play Playback.tick
  cases hplaying : p.playing with
  | false =>
      rw [h.playing, hplaying]
      exact h
  | true =>
      have hsession := h.playing.trans hplaying
      rw [hsession, hdue hsession, Bool.and_true, if_pos rfl, if_pos rfl]
      by_cases hlt : p.position < r.last
      · rw [h.forward_of_lt hlt, if_pos hlt]
        exact ⟨rfl, hsession, h.text, h.tokens, h.outline⟩
      · obtain ⟨err, herr⟩ := h.exists_forward_eq_error (Nat.le_of_not_lt hlt)
        rw [herr, if_neg hlt]
        exact ⟨h.replay, rfl, h.text, h.tokens, h.outline⟩

theorem settle (h : s.Shows r source p) (area : Area) : (s.settle area).Shows r source p :=
  ⟨h.replay, h.playing, h.text, h.tokens, h.outline⟩

theorem act (h : s.Shows r source p) (hp : p.position ≤ r.last) (a : Action) :
    (s.act a).Shows r source (p.act r.last a) := by
  match a with
  | .event (.press key) => exact h.press hp key
  | .event .bounce | .event .ignored => exact h
  | .draw area => exact h.settle area
  | .tick =>
      have hdue : Shows { s with due := true } r source p :=
        ⟨h.replay, h.playing, h.text, h.tokens, h.outline⟩
      exact hdue.play fun _ => rfl

theorem acted (h : s.Shows r source p) (hp : p.position ≤ r.last) (actions : List Action) :
    (s.acted actions).Shows r source (p.acted r.last actions) := by
  induction actions generalizing s p with
  | nil => exact h
  | cons a actions ih => exact ih (h.act hp a) (Playback.position_act_le hp a)

end Shows

section Turns

/-- No step is due while the replay plays. -/
def Rested (s : Session) : Prop :=
  s.playing = true → s.due = false

theorem Rested.play_eq (h : s.Rested) : s.play = s := by
  unfold play
  rw [if_neg]
  intro hplay
  obtain ⟨hplaying, hdue⟩ := Bool.and_eq_true_iff.1 hplay
  rw [h hplaying] at hdue
  cases hdue

theorem rested_play (s : Session) : s.play.Rested := by
  unfold play
  split
  · split
    · exact fun _ => rfl
    · exact fun hplaying => absurd hplaying Bool.false_ne_true
  · rename_i hplay
    intro hplaying
    simpa [hplaying] using hplay

theorem quit_play (s : Session) : s.play.quit = s.quit := by
  unfold play
  split
  · split <;> rfl
  · rfl

theorem playing_stepForward (s : Session) : s.stepForward.playing = false := by
  unfold stepForward
  split <;> rfl

theorem playing_stepBackward (s : Session) : s.stepBackward.playing = false := by
  unfold stepBackward
  split <;> rfl

theorem rested_of_not_playing (h : s.playing = false) : s.Rested :=
  fun hplaying => absurd (h.symm.trans hplaying) Bool.false_ne_true

/-- Only Space makes a step due. -/
theorem Rested.pressChar (h : s.Rested) {c : Char} (hc : c ≠ ' ') : (s.pressChar c).Rested := by
  unfold Session.pressChar
  rw [if_neg hc]
  split
  · exact h
  · split
    · exact rested_of_not_playing rfl
    · exact h

theorem Rested.handle (h : s.Rested) {event : Event} (hevent : event ≠ .press (.char ' ')) :
    (s.handle event).Rested := by
  match event with
  | .press (.char c) =>
      apply h.pressChar
      rintro rfl
      exact hevent rfl
  | .press .left => exact rested_of_not_playing s.playing_stepBackward
  | .press .right => exact rested_of_not_playing s.playing_stepForward
  | .press .enter | .press .backspace => exact rested_of_not_playing rfl
  | .press .up | .press .down | .press .tab | .press .backTab | .press .other => exact h
  | .bounce | .ignored => exact h

/-- Space makes the first step due as soon as it starts playing. -/
theorem due_togglePlay (h : s.togglePlay.playing = true) : s.togglePlay.due = true := by
  unfold togglePlay at h ⊢
  split
  · simp_all
  · rfl

theorem quit_togglePlay (s : Session) : s.togglePlay.quit = s.quit := by
  unfold togglePlay
  split <;> rfl

/-- The actions in a turn of a session, apart from the drawings. -/
def turnActions (due : Bool) (event : Event) : List Action :=
  (if due then [.tick] else []) ++ .event event ::
    (if event = .press (.char ' ') then [.tick] else [])

/-- A turn of a session is a sequence of actions. -/
theorem Shows.turn (h : s.Shows r source p) (hp : p.position ≤ r.last) (area : Area) (due : Bool)
    (event : Event) :
    (s.turn area due event).Shows r source (p.acted r.last (turnActions due event)) := by
  have hbegin : Shows ({ s with due, quit := false }.settle area) r source p :=
    ⟨h.replay, h.playing, h.text, h.tokens, h.outline⟩
  have hplay : Shows ({ s with due, quit := false }.settle area).play r source
      (p.acted r.last (if due then [.tick] else [])) := by
    cases due with
    | true => exact hbegin.play fun _ => rfl
    | false =>
        have hrested : Rested ({ s with due := false, quit := false }.settle area) := fun _ => rfl
        rw [hrested.play_eq]
        exact hbegin
  have hrested := rested_play ({ s with due, quit := false }.settle area)
  have hquit := quit_play ({ s with due, quit := false }.settle area)
  unfold Session.turn
  dsimp only
  rw [turnActions, Playback.acted_append, Playback.acted_cons]
  generalize ({ s with due, quit := false }.settle area).play = s' at hplay hrested hquit ⊢
  have hevent := hplay.act (Playback.position_acted_le hp _) (.event event)
  by_cases hspace : event = .press (.char ' ')
  · subst hspace
    have hgoes : ¬ ((s'.handle (.press (.char ' '))).settle area).quit = true := by
      change ¬ s'.togglePlay.quit = true
      rw [quit_togglePlay, hquit]
      exact Bool.false_ne_true
    rw [if_pos rfl, if_neg hgoes]
    exact ((hevent.settle area).play due_togglePlay).settle area
  · have hstill : Rested ((s'.handle event).settle area) := hrested.handle hspace
    rw [if_neg hspace, hstill.play_eq]
    split
    · exact hevent.settle area
    · exact (hevent.settle area).settle area

end Turns

theorem press_digit (s : Session) {c : Char} (hc : '1' ≤ c ∧ c ≤ '9') :
    s.press (.char c) = s.stepMany (c.toNat - '0'.toNat) := by
  have hne : ∀ d : Char, ¬ ('1' ≤ d ∧ d ≤ '9') → c ≠ d := by
    rintro d hd rfl
    exact hd hc
  have hquit : ¬ (c = 'q' || c = 'Q') = true := by
    simp [hne 'q' (by decide), hne 'Q' (by decide)]
  rw [press, pressChar, if_neg hquit, if_neg (hne ' ' (by decide)), count?_eq, if_pos hc]

/-- What is known of a session that shows `r` and `source` after some actions. -/
structure Plays (r : Replay) (source : String) (actions : List Action) (s : Session) : Prop where
  follows : s.Shows r source (Playback.acted r.last ⟨r.position, false⟩ actions)
  /-- A digit tells how far it has moved. -/
  digit_message : ∀ c, '1' ≤ c ∧ c ≤ '9' → (s.press (.char c)).message =
    s!"Stepped forward {(s.press (.char c)).replay.position - s.replay.position} step(s)"
  /-- A digit moves as many single steps do. -/
  digit_replay : ∀ c, '1' ≤ c ∧ c ≤ '9' → (s.press (.char c)).replay =
    (s.acted (List.replicate (c.toNat - '0'.toNat) (.event (.press .right)))).replay
  /-- Playing goes on to the end and stops one step later. -/
  ticks : s.playing = true → ∀ k,
    (s.acted (List.replicate k .tick)).replay.position = min (s.replay.position + k) r.last ∧
      (s.acted (List.replicate k .tick)).playing = decide (s.replay.position + k ≤ r.last)
  turn : ∀ area due event, (s.turn area due event).Shows r source
    (Playback.acted r.last ⟨r.position, false⟩ (actions ++ turnActions due event))

/-- A session is a cursor with a playback flag over a replay it never changes otherwise:
whatever is pressed, played and drawn, the position and the flag are those of `Playback`. -/
theorem session_plays_replay (e : Expr) (limit : Nat) (requests : List Request) (source : String)
    (actions : List Action) :
    Plays ((Replay.ofExpr e limit).asked requests) source actions
      ((ofReplay ((Replay.ofExpr e limit).asked requests) source).acted actions) := by
  have hbegin := Replay.position_asked_le e limit requests
  generalize (Replay.ofExpr e limit).asked requests = r at hbegin ⊢
  have hshows := (shows_ofReplay r source).acted hbegin actions
  have hle := Playback.position_acted_le (p := ⟨r.position, false⟩) hbegin actions
  constructor
  case follows => exact hshows
  case digit_message =>
    intro c hc
    obtain ⟨hsteps, hmessage⟩ := hshows.stepMany hle (c.toNat - '0'.toNat)
    rw [press_digit _ hc, hmessage, hsteps.replay, hshows.replay]
    rfl
  case digit_replay =>
    intro c hc
    have hright := hshows.acted hle
      (List.replicate (c.toNat - '0'.toNat) (.event (.press .right)))
    rw [press_digit _ hc, (hshows.stepMany hle _).1.replay, hright.replay,
      Playback.position_acted_right hle]
  case ticks =>
    intro hplaying k
    have hticks := hshows.acted hle (List.replicate k .tick)
    rw [Playback.acted_tick hle (hshows.playing.symm.trans hplaying)] at hticks
    rw [hticks.replay, hticks.playing, hshows.replay]
    exact ⟨rfl, rfl⟩
  case turn =>
    intro area due event
    rw [Playback.acted_append]
    exact hshows.turn hle area due event

end Session

end StepCalc
