import StepCalc.Text.Joining

/-!
# Clusters

A cluster is what a reader takes for one character: a letter with its marks, a
syllable, a flag, a picture joined from several. A text is divided from left to
right; whether a character joins the cluster before it depends on its class and on
a summary of what is at its left.
-/

namespace StepCalc.Text

/-- What is at the left of a character, as far as it decides what joins. -/
structure Context where
  last : Joining
  /-- A pictograph with only extending marks after it, and maybe a joiner after those. -/
  picture : Bool
  /-- A letter of a flag without its partner. -/
  unpaired : Bool
  /-- A consonant with only marks after it, and whether a linker is among them. -/
  linked : Option Bool
  deriving DecidableEq, Repr

namespace Context

/-- What a text begins with. Nothing joins here, as after a control character. -/
def start : Context := ⟨.control, false, false, none⟩

/-- Whether a character of class `j` joins the cluster at its left. -/
def joins (k : Context) (j : Joining) : Bool :=
  match k.last, j with
  | .carriageReturn, .lineFeed => true
  | .carriageReturn, _ | .lineFeed, _ | .control, _ => false
  | _, .carriageReturn | _, .lineFeed | _, .control => false
  | .leading, .leading | .leading, .vowel => true
  | .leading, .openSyllable | .leading, .closedSyllable => true
  | .openSyllable, .vowel | .openSyllable, .trailing => true
  | .vowel, .vowel | .vowel, .trailing => true
  | .closedSyllable, .trailing | .trailing, .trailing => true
  | _, .extending | _, .joiner | _, .spacing => true
  | .prepended, _ => true
  | _, .consonant => k.linked == some true
  | .joiner, .pictograph => k.picture
  | .regional, .regional => k.unpaired
  | _, _ => false

/-- The summary of a text with one more character at its right. -/
def next (k : Context) (c : Char) : Context :=
  let j := Joining.ofChar c
  { last := j
    picture := match j with
      | .pictograph => true
      | .extending | .joiner => k.picture && k.last != .joiner
      | _ => false
    unpaired := j == .regional && !(k.last == .regional && k.unpaired)
    linked := match j with
      | .consonant => some false
      | .extending =>
        if c.toNat = Joining.nonJoiner then none
        else k.linked.map (· || Joining.linkers.contains c)
      | .joiner => k.linked
      | _ => none }

end Context

/-- A text being divided; `current` is the last cluster, both are in reverse order. -/
structure Division where
  context : Context
  current : List Char
  finished : List (List Char)
  deriving DecidableEq, Repr

namespace Division

def push (d : Division) (c : Char) : Division :=
  if d.context.joins (Joining.ofChar c) then
    { d with context := d.context.next c, current := c :: d.current }
  else
    { context := d.context.next c, current := [c], finished := d.current.reverse :: d.finished }

def clusters (d : Division) : List (List Char) :=
  (d.current.reverse :: d.finished).reverse

theorem flatten_clusters_push (d : Division) (c : Char) :
    (d.push c).clusters.flatten = d.clusters.flatten ++ [c] := by
  unfold push
  split <;> simp [clusters]

theorem flatten_clusters_foldl (d : Division) (cs : List Char) :
    (cs.foldl push d).clusters.flatten = d.clusters.flatten ++ cs := by
  induction cs generalizing d with
  | nil => simp
  | cons c rest ih => simp [ih, flatten_clusters_push]

end Division

/-- The clusters of a text. -/
def divide : List Char → List (List Char)
  | [] => []
  | c :: rest => (rest.foldl Division.push ⟨Context.start.next c, [c], []⟩).clusters

/-- The clusters spell the text. -/
theorem flatten_divide (cs : List Char) : (divide cs).flatten = cs := by
  cases cs with
  | nil => rfl
  | cons c rest =>
    rw [divide, Division.flatten_clusters_foldl]
    rfl

def clusters (s : String) : List String :=
  (divide s.toList).map String.ofList

end StepCalc.Text
