import StepCalc.Session.Basic

/-!
# Events

Keys move the replay, the focus and the panes. A playing replay moves on by
itself whenever the time for a step has come.
-/

namespace StepCalc

inductive Key where
  | char (c : Char)
  | left
  | right
  | up
  | down
  | tab
  | backTab
  | enter
  | backspace
  | other
  deriving DecidableEq, Repr

inductive Event where
  | press (key : Key)
  /-- Space pressed again at once, as a key held down does. -/
  | bounce
  /-- A key let go or repeated, or a new size of the screen. -/
  | ignored
  deriving DecidableEq, Repr

namespace Session

/-- Sets the replay and shows the newest reduction. -/
def showNewest (s : Session) (r : Replay) : Session :=
  { s with replay := r, scroll := { s.scroll with trace := Scroll.bottom } }

def stepMany (s : Session) (n : Nat) : Session :=
  let (r, made) := s.replay.advance n
  { s.showNewest r with playing := false, message := s!"Stepped forward {made} step(s)" }

def stepForward (s : Session) : Session :=
  match s.replay.forward with
  | .ok r => { s.showNewest r with playing := false, message := "Stepped forward" }
  | .error e => { s with playing := false, message := s!"Cannot step forward: {e.message}" }

def stepBackward (s : Session) : Session :=
  match s.replay.backward with
  | .ok r => { s.showNewest r with playing := false, message := "Stepped backward" }
  | .error e => { s with playing := false, message := s!"Cannot step backward: {e.message}" }

def toEnd (s : Session) : Session :=
  { s.showNewest s.replay.toEnd with playing := false, message := "Jumped to end" }

/-- Goes to the start; a history without snapshots stays where it is. -/
def toStart (s : Session) : Session :=
  let r := match s.replay.rewind with
    | .ok r => r
    | .error _ => s.replay
  { s with
    replay := r, playing := false, message := "Jumped to start"
    scroll := { s.scroll with trace := 0 } }

/-- Starts playing, with the first step due at once, or stops. -/
def togglePlay (s : Session) : Session :=
  if s.playing then { s with playing := false, message := "Paused" }
  else { s with playing := true, due := true, message := "Playing..." }

def scrollUp (s : Session) : Session :=
  { s with scroll := s.scroll.modify s.focus (· - 1) }

def scrollDown (s : Session) : Session :=
  { s with scroll := s.scroll.modify s.focus fun n => min (n + 1) Scroll.bottom }

/-- The number that a key from 1 to 9 stands for. -/
def count? (c : Char) : Option Nat :=
  if c.isDigit && c != '0' then some (c.toNat - '0'.toNat) else none

def pressChar (s : Session) (c : Char) : Session :=
  if c = 'q' || c = 'Q' then { s with quit := true }
  else if c = ' ' then s.togglePlay
  else
    match count? c with
    | some n => s.stepMany n
    | none => s

def press (s : Session) : Key → Session
  | .char c => s.pressChar c
  | .left => s.stepBackward
  | .right => s.stepForward
  | .up => s.scrollUp
  | .down => s.scrollDown
  | .tab => { s with focus := s.focus.next }
  | .backTab => { s with focus := s.focus.previous }
  | .enter => s.toEnd
  | .backspace => s.toStart
  | .other => s

def handle (s : Session) : Event → Session
  | .press key => s.press key
  | .bounce | .ignored => s

/-- The step that a playing replay makes when it is due. At the end of the history
playing stops. -/
def play (s : Session) : Session :=
  if s.playing && s.due then
    match s.replay.forward with
    | .ok r => { s.showNewest r with due := false, message := "Playing..." }
    | .error _ => { s with due := false, playing := false, message := "Playback complete" }
  else s

end Session

end StepCalc
