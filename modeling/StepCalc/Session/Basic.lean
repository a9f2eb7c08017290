import StepCalc.History.Replay
import StepCalc.View.Expression
import StepCalc.View.StatusBar
import StepCalc.View.Tokens
import StepCalc.View.Trace
import StepCalc.View.Tree

/-!
# Sessions

A session shows a replay in four panes and a status bar. It adds to the replay
which pane has the focus, how far each pane is scrolled, the latest message, and
whether the replay moves on by itself.
-/

namespace StepCalc

inductive Pane where
  | source
  | trace
  | tree
  | tokens
  deriving DecidableEq, Repr

namespace Pane

def name : Pane → String
  | source => "source"
  | trace => "trace"
  | tree => "tree"
  | tokens => "tokens"

def next : Pane → Pane
  | source => trace
  | trace => tree
  | tree => tokens
  | tokens => source

def previous : Pane → Pane
  | source => tokens
  | trace => source
  | tree => trace
  | tokens => tree

@[simp] theorem previous_next (p : Pane) : p.next.previous = p := by
  cases p <;> rfl

@[simp] theorem next_previous (p : Pane) : p.previous.next = p := by
  cases p <;> rfl

end Pane

/-- The first row that each pane is asked to show. -/
structure Scroll where
  source : Nat
  trace : Nat
  tree : Nat
  tokens : Nat
  deriving DecidableEq, Repr

namespace Scroll

def top : Scroll := ⟨0, 0, 0, 0⟩

/-- The largest offset; a pane that can be scrolled stops at its last page. -/
def bottom : Nat := UInt64.size - 1

def modify (s : Scroll) (p : Pane) (f : Nat → Nat) : Scroll :=
  match p with
  | .source => { s with source := f s.source }
  | .trace => { s with trace := f s.trace }
  | .tree => { s with tree := f s.tree }
  | .tokens => { s with tokens := f s.tokens }

end Scroll

structure Session where
  replay : Replay
  source : String
  tokens : List Token
  outline : Array Entry
  focus : Pane
  scroll : Scroll
  message : String
  playing : Bool
  /-- The time for the next step of a playing replay has come. -/
  due : Bool
  quit : Bool

namespace Session

def ofReplay (r : Replay) (source : String) : Session :=
  { replay := r
    source
    tokens := tokenize source
    outline := r.expr.outline
    focus := .source
    scroll := .top
    message := match r.failure? with
      | some e => s!"Evaluation stopped: {e.message}"
      | none => "Ready!"
    playing := false
    due := false
    quit := false }

end Session

end StepCalc
