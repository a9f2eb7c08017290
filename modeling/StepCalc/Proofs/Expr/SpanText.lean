import StepCalc.Proofs.Grammar.Balance
import StepCalc.Proofs.Grammar.Layout
import StepCalc.Proofs.History.ReadingBack
import StepCalc.Proofs.Token.Cutting

/-!
# The text of a span

The span of an operator reaches from its leftmost number to its rightmost one. The word of
the operator may go on with parentheses on either side, and then the text of the span alone
is not balanced and not read. With these parentheses it is read as the operator's subtree
(`Span.Delimits`), and where there are none the text itself is.
-/

namespace StepCalc

section Words

variable {goal : Goal} {ts : List Token} {e : Expr}

/-- Before its leftmost number a word has only opening parentheses. -/
theorem Derives.exists_first (h : Derives goal ts e) :
    ∃ opens digits l rest, ts = opens ++ ⟨.number digits, l⟩ :: rest ∧
      (∀ t ∈ opens, t.lexeme = .openParen) ∧ l.offset = e.firstOffset := by
  induction h using leftRec with
  | number digits l => exact ⟨[], digits, l, [], rfl, by simp, rfl⟩
  | group l r inside ih =>
      obtain ⟨opens, digits, k, rest, rfl, hopens, hoffset⟩ := ih
      exact ⟨⟨.openParen, l⟩ :: opens, digits, k, rest ++ [⟨.closeParen, r⟩], by simp,
        by simpa using hopens, hoffset⟩
  | ofFactor _ ih | ofTerm _ ih => exact ih
  | @product _ us _ _ op l _ _ _ ihl _ | @sum _ us _ _ op l _ _ _ ihl _ =>
      obtain ⟨opens, digits, k, rest, rfl, hopens, hoffset⟩ := ihl
      exact ⟨opens, digits, k, rest ++ ⟨.operator op, l⟩ :: us, by simp, hopens, hoffset⟩

/-- Behind its rightmost number a word has only closing parentheses. -/
theorem Derives.exists_last (h : Derives goal ts e) :
    ∃ rest digits l closes, ts = rest ++ ⟨.number digits, l⟩ :: closes ∧
      (∀ t ∈ closes, t.lexeme = .closeParen) ∧ l.offset + digits.length = e.lastOffset := by
  induction h using leftRec with
  | number digits l => exact ⟨[], digits, l, [], rfl, by simp, rfl⟩
  | group l r inside ih =>
      obtain ⟨rest, digits, k, closes, rfl, hcloses, hoffset⟩ := ih
      refine ⟨⟨.openParen, l⟩ :: rest, digits, k, closes ++ [⟨.closeParen, r⟩], by simp, ?_,
        hoffset⟩
      simpa [or_imp, forall_and] using hcloses
  | ofFactor _ ih | ofTerm _ ih => exact ih
  | @product ts _ _ _ op l _ _ _ _ ihr | @sum ts _ _ _ op l _ _ _ _ ihr =>
      obtain ⟨rest, digits, k, closes, rfl, hcloses, hoffset⟩ := ihr
      exact ⟨ts ++ ⟨.operator op, l⟩ :: rest, digits, k, closes, by simp, hcloses, hoffset⟩

theorem Derives.toExpression (h : Derives goal ts e) : Derives .expression ts e := by
  cases goal with
  | factor => exact h.ofFactor.ofTerm
  | term => exact h.ofTerm
  | expression => exact h

/-- The operation has a word of its own among the tokens. -/
inductive HasWord (ts : List Token) : Expr → Prop
  | intro {us vs : List Token} {op : Op} {left right : Expr} {l : Location}
      (pre post : List Token) (tokens : ts = pre ++ ((us ++ ⟨.operator op, l⟩ :: vs) ++ post))
      (hleft : Derives .expression us left) (hright : Derives .expression vs right)
      (whole : Derives .expression (us ++ ⟨.operator op, l⟩ :: vs) (.binary op left right l)) :
      HasWord ts (.binary op left right l)

namespace HasWord

variable {f : Expr}

theorem prepend (h : HasWord ts f) (ps : List Token) : HasWord (ps ++ ts) f := by
  obtain ⟨pre, post, rfl, hleft, hright, whole⟩ := h
  exact .intro (ps ++ pre) post (List.append_assoc ..).symm hleft hright whole

theorem append (h : HasWord ts f) (ps : List Token) : HasWord (ts ++ ps) f := by
  obtain ⟨pre, post, rfl, hleft, hright, whole⟩ := h
  refine .intro pre (post ++ ps) ?_ hleft hright whole
  simp only [List.append_assoc]

/-- An operation has all of its tokens as its word, and contains those of its operands. -/
theorem operation {us vs : List Token} {op op' : Op} {left right left' right' : Expr}
    {k l : Location} {n i : Nat} (hleft : Derives .expression us left)
    (hright : Derives .expression vs right)
    (whole : Derives .expression (us ++ ⟨.operator op, k⟩ :: vs) (.binary op left right k))
    (hf : (Expr.binary op left right k).NodeAt n i (.binary op' left' right' l))
    (ihl : ∀ {n}, left.NodeAt n i (.binary op' left' right' l) →
      HasWord us (.binary op' left' right' l))
    (ihr : ∀ {n}, right.NodeAt n i (.binary op' left' right' l) →
      HasWord vs (.binary op' left' right' l)) :
    HasWord (us ++ ⟨.operator op, k⟩ :: vs) (.binary op' left' right' l) := by
  cases hf with
  | root => exact .intro [] [] (List.append_nil _).symm hleft hright whole
  | left _ _ _ hf => exact (ihl hf).append _
  | right _ _ _ hf =>
      rw [List.append_cons]
      exact (ihr hf).prepend _

end HasWord

/-- Every operation of the tree has a word of its own. -/
theorem Derives.hasWord (h : Derives goal ts e) {n i : Nat} {op : Op} {left right : Expr}
    {l : Location} (hf : e.NodeAt n i (.binary op left right l)) :
    HasWord ts (.binary op left right l) := by
  induction h using leftRec generalizing n with
  | number => cases hf
  | group k r _ ih => exact ((ih hf).append [⟨.closeParen, r⟩]).prepend [⟨.openParen, k⟩]
  | ofFactor _ ih | ofTerm _ ih => exact ih hf
  | product k hl level hr ihl ihr =>
      have whole := (hl.product k level hr).toExpression
      exact .operation hl.toExpression hr.toExpression whole hf ihl ihr
  | sum k hl level hr ihl ihr =>
      exact .operation hl hr.toExpression (hl.sum k level hr) hf ihl ihr

end Words

section Reading

variable {ts : List Token} {f : Expr}

theorem Derives.unplaced {goal : Goal} (h : Derives goal ts f) :
    Derives goal (ts.map Token.unplaced) f.unplaced := by
  induction h using leftRec with
  | number digits l => exact .number digits .start
  | group l r _ ih => simpa [Token.unplaced] using ih.group .start .start
  | ofFactor _ ih => exact ih.ofFactor
  | ofTerm _ ih => exact ih.ofTerm
  | product l _ level _ ihl ihr =>
      rw [List.map_append, List.map_cons]
      exact ihl.product .start level ihr
  | sum l _ level _ ihl ihr =>
      rw [List.map_append, List.map_cons]
      exact ihl.sum .start level ihr

/-- The text is read as `f`, but for places. -/
def ReadsAlike (text : String) (f : Expr) : Prop :=
  ∃ g, parse text = .ok g ∧ g.unplaced = f.unplaced

/-- A text with the lexemes of a word is read as the word is. -/
theorem Derives.readsAlike (h : Derives .expression ts f) (hnum : InRange ts)
    (hnest : nesting (ts.map Token.lexeme) ≤ 256) {text : String}
    (htext : lexemes text.toList = ts.map Token.lexeme) : ReadsAlike text f := by
  have hmap : (lexemes text.toList).map (Token.mk · .start) = ts.map Token.unplaced := by
    rw [htext, List.map_map]
    rfl
  have hnum' : InRange (ts.map Token.unplaced) := by
    intro t ht digits hdigits
    obtain ⟨u, hu, rfl⟩ := List.mem_map.1 ht
    exact hnum u hu digits hdigits
  have hnest' : NestsWithin 256 (ts.map Token.unplaced) := by
    rw [nestsWithin_iff, List.map_map]
    exact hnest
  have hreading := unplacedReading_parse text
  rw [hmap] at hreading
  rcases h.unplaced.parse_tokens hnum' .start with ⟨-, hread⟩ | ⟨hdeep, -⟩
  · rw [hread] at hreading
    cases hparse : parse text with
    | error err =>
        rw [hparse] at hreading
        cases hreading
    | ok g =>
        rw [hparse] at hreading
        exact ⟨g, hparse, Except.ok.inj hreading⟩
  · exact absurd hnest' hdeep

theorem Balanced.of_parse {text : String} {g : Expr} (h : parse text = .ok g) :
    Balanced (lexemes text.toList) := by
  rw [← map_lexeme_dropLast_tokenize]
  exact (spells_of_parse_eq h).derivation.balanced

end Reading

section Edges

variable {xs opens closes us vs : List Lexeme}

theorem balance_eq_length (h : ∀ x ∈ opens, x = .openParen) : balance opens = opens.length := by
  induction opens with
  | nil => rfl
  | cons x xs ih =>
      obtain ⟨rfl, hxs⟩ := List.forall_mem_cons.1 h
      rw [balance_cons, ih hxs, List.length_cons]
      simp only [Lexeme.balance]
      omega

theorem balance_eq_neg_length (h : ∀ x ∈ closes, x = .closeParen) :
    balance closes = -closes.length := by
  induction closes with
  | nil => rfl
  | cons x xs ih =>
      obtain ⟨rfl, hxs⟩ := List.forall_mem_cons.1 h
      rw [balance_cons, ih hxs, List.length_cons]
      simp only [Lexeme.balance]
      omega

/-- Without the parentheses at its edges an operation is balanced only if there are none:
those of the left operand are missed in front of the operator, those of the right one
behind it. -/
theorem balanced_inside_iff {x : Lexeme} (hx : x.balance = 0)
    (hopens : ∀ y ∈ opens, y = .openParen) (hcloses : ∀ y ∈ closes, y = .closeParen)
    (hus : Balanced (opens ++ us)) (hvs : Balanced (vs ++ closes)) :
    Balanced (us ++ x :: vs) ↔ opens = [] ∧ closes = [] := by
  constructor
  · intro h
    have hfront := h.balance_nonneg
    have htotal := h.closed
    have hleft := hus.closed
    have hright := hvs.closed
    rw [balance_append] at hleft hright htotal
    rw [balance_cons, hx] at htotal
    rw [balance_eq_length hopens] at hleft
    rw [balance_eq_neg_length hcloses] at hright
    constructor
    · apply List.eq_nil_of_length_eq_zero
      omega
    · apply List.eq_nil_of_length_eq_zero
      omega
  · rintro ⟨rfl, rfl⟩
    rw [List.nil_append] at hus
    rw [List.append_nil] at hvs
    exact hus.append (.cons hx hvs)

end Edges

/-- A word of `f` from its leftmost number to its rightmost one, and the parentheses on
either side. -/
structure Framed (f : Expr) (opens core closes : List Token) : Prop where
  word : Derives .expression (opens ++ (core ++ closes)) f
  opens_eq : ∀ t ∈ opens, t.lexeme = .openParen
  closes_eq : ∀ t ∈ closes, t.lexeme = .closeParen
  first : ∃ t, core.head? = some t ∧ t.location.offset = f.span.start
  last : ∃ t, core.getLast? = some t ∧ t.stop = f.span.stop
  balanced_iff : Balanced (core.map Token.lexeme) ↔ opens = [] ∧ closes = []

theorem HasWord.exists_framed {ts : List Token} {f : Expr} (h : HasWord ts f) :
    ∃ pre opens core closes post, ts = pre ++ (opens ++ (core ++ (closes ++ post))) ∧
      Framed f opens core closes := by
  obtain @⟨us, vs, op, left, right, l, pre, post, rfl, hleft, hright, whole⟩ := h
  obtain ⟨opens, digits, k, us, rfl, hopens, hfirst⟩ := hleft.exists_first
  obtain ⟨vs, digits', k', closes, rfl, hcloses, hlast⟩ := hright.exists_last
  refine ⟨pre, opens, (⟨.number digits, k⟩ :: us) ++ ⟨.operator op, l⟩ ::
    (vs ++ [⟨.number digits', k'⟩]), closes, post, by simp, ?_⟩
  constructor
  case word => simpa using whole
  case opens_eq => exact hopens
  case closes_eq => exact hcloses
  case first => exact ⟨_, rfl, hfirst⟩
  case last =>
    refine ⟨⟨.number digits', k'⟩, ?_, hlast⟩
    rw [List.append_cons, ← List.append_assoc, List.getLast?_concat]
  case balanced_iff =>
    have hus : Balanced (opens.map Token.lexeme ++ (.number digits :: us.map Token.lexeme)) := by
      simpa using hleft.balanced
    have hvs : Balanced ((vs.map Token.lexeme ++ [.number digits']) ++
        closes.map Token.lexeme) := by
      simpa using hright.balanced
    have hinside := balanced_inside_iff (show (Lexeme.operator op).balance = 0 from rfl)
      (List.forall_mem_map.2 hopens) (List.forall_mem_map.2 hcloses) hus hvs
    simpa using hinside

/-- The range marks the subtree `f` in the source. Its text is read as `f` if it is balanced,
and not at all otherwise. It lacks only parentheses of `f` at its edges, and with them it is
always read as `f`. -/
structure Span.Delimits (s : Span) (source : String) (f : Expr) : Prop where
  balanced : Balanced (lexemes (s.text source).toList) → ReadsAlike (s.text source) f
  unbalanced : ¬ Balanced (lexemes (s.text source).toList) →
    ∃ err, parse (s.text source) = .error err
  parentheses : ∃ before opening closing behind : String,
    source = before ++ (opening ++ s.text source ++ closing) ++ behind ∧
    s.start = (before ++ opening).length ∧
    (∀ x ∈ lexemes opening.toList, x = .openParen) ∧
    (∀ x ∈ lexemes closing.toList, x = .closeParen) ∧
    ReadsAlike (opening ++ s.text source ++ closing) f ∧
    (Balanced (lexemes (s.text source).toList) ↔
      lexemes opening.toList = [] ∧ lexemes closing.toList = [])

namespace Spells

variable {source : String} {e f : Expr}

/-- A part of an accepted text nests no deeper than the whole, so a word in it is read by itself. -/
theorem readsAlike_of_word (h : Spells source e) {pre word post : List Token}
    (htokens : (tokenize source).dropLast = pre ++ (word ++ post))
    (hword : Derives .expression word f) {text : String}
    (htext : lexemes text.toList = word.map Token.lexeme) : ReadsAlike text f := by
  have hbalanced := h.derivation.balanced
  have hnest := nestsWithin_iff.1 h.nesting
  have hnum := h.numbers
  rw [htokens] at hbalanced hnest hnum
  rw [List.map_append, List.map_append] at hbalanced hnest
  rw [inRange_append, inRange_append] at hnum
  exact hword.readsAlike hnum.2.1 (Int.le_trans (hbalanced.nesting_le) hnest) htext

theorem delimits_of_hasWord (h : Spells source e) (hword : HasWord (tokenize source).dropLast f) :
    f.span.Delimits source f := by
  obtain ⟨pre, opens, core, closes, post, hall, hframed⟩ := hword.exists_framed
  obtain ⟨t, hhead, hoffset⟩ := hframed.first
  obtain ⟨u, hlast, hend⟩ := hframed.last
  have htokens : tokenize source = pre ++ (opens ++ (core ++ (closes ++ (post ++
      [⟨.endOfInput, (Cursor.ofString source).scan.finish⟩])))) := by
    rw [tokenize_eq, ← dropLast_tokenize, hall]
    simp
  obtain ⟨before, opening, middle, closing, behind, hsource, hstart, hstop, hopening, hmiddle,
    hclosing, hlexemes⟩ := exists_parts htokens hhead hlast (by simp)
  have htext : f.span.text source = String.ofList middle := by
    have hsplit : source.toList = (before ++ opening) ++ (middle ++ (closing ++ behind)) := by
      rw [hsource, List.append_assoc]
    exact Span.text_eq hsplit (hstart.trans hoffset) (hstop.trans hend)
  have hiff : Balanced (lexemes (f.span.text source).toList) ↔ opens = [] ∧ closes = [] := by
    rw [htext, String.toList_ofList, hmiddle]
    exact hframed.balanced_iff
  have hall' : (tokenize source).dropLast = pre ++ ((opens ++ (core ++ closes)) ++ post) := by
    rw [hall]
    simp only [List.append_assoc]
  have hreads : ∀ text : String, lexemes text.toList =
      (opens ++ (core ++ closes)).map Token.lexeme → ReadsAlike text f :=
    fun _ => h.readsAlike_of_word hall' hframed.word
  constructor
  case balanced =>
    intro hbalanced
    obtain ⟨rfl, rfl⟩ := hiff.1 hbalanced
    apply hreads
    rw [htext, String.toList_ofList, hmiddle, List.nil_append, List.append_nil]
  case unbalanced =>
    intro hunbalanced
    cases hparse : parse (f.span.text source) with
    | ok g => exact absurd (.of_parse hparse) hunbalanced
    | error err => exact ⟨err, rfl⟩
  case parentheses =>
    refine ⟨.ofList before, .ofList opening, .ofList closing, .ofList behind,
      ?_, ?_, ?_, ?_, ?_, ?_⟩
    · apply String.toList_inj.1
      simp [htext, hsource]
    · simpa using (hstart.trans hoffset).symm
    · rw [String.toList_ofList, hopening]
      exact List.forall_mem_map.2 hframed.opens_eq
    · rw [String.toList_ofList, hclosing]
      exact List.forall_mem_map.2 hframed.closes_eq
    · apply hreads
      simpa [htext] using hlexemes
    · rw [hiff, String.toList_ofList, String.toList_ofList, hopening, hclosing,
        List.map_eq_nil_iff, List.map_eq_nil_iff]

end Spells

/-- The span of every operator delimits its subtree in the text, and so does every range that
a replay shows for a reduction. -/
theorem span_delimits_subtree {source : String} {e : Expr} (h : parse source = .ok e) :
    (∀ n op left right l, e.NodeAt 0 n (.binary op left right l) →
      (Expr.binary op left right l).span.Delimits source (.binary op left right l)) ∧
      ∀ limit requests s r, ((Replay.ofExpr e limit).asked requests).snapshot? = some s →
        s.reduction = some r → ∃ f, e.NodeAt 0 r.node f ∧ r.span.Delimits source f := by
  have hspells := spells_of_parse_eq h
  have hnodes : ∀ n op left right l, e.NodeAt 0 n (.binary op left right l) →
      (Expr.binary op left right l).span.Delimits source (.binary op left right l) :=
    fun _ _ _ _ _ hnode => hspells.delimits_of_hasWord (hspells.derivation.hasWord hnode)
  refine ⟨hnodes, fun limit requests s r hs hr => ?_⟩
  obtain ⟨k, hk⟩ := Replay.exists_getElem?_record hs
  cases k with
  | zero =>
      rw [Expr.reduction_of_record_zero hk] at hr
      cases hr
  | succ k =>
      obtain ⟨r', f, hr', hf, left, right, rfl, -, -, -, hspan⟩ := Expr.reduction_of_record_succ hk
      obtain rfl := Option.some.inj (hr.symm.trans hr')
      have hnode := (Expr.mem_operatorsFrom_iff.1 (List.mem_of_getElem? hf)).1
      exact ⟨_, hnode, hspan ▸ hnodes _ _ _ _ _ hnode⟩

/-- The expression read from `(1+2)*3`. -/
def groupedSum : Expr :=
  .binary .mul
    (.binary .add (.literal 1 ⟨1, 1, 2⟩ 1) (.literal 2 ⟨3, 1, 4⟩ 1) ⟨2, 1, 3⟩)
    (.literal 3 ⟨6, 1, 7⟩ 1) ⟨5, 1, 6⟩

theorem parse_groupedSum : parse "(1+2)*3" = .ok groupedSum := by
  have hscan : (Cursor.ofString "(1+2)*3").scan =
      ⟨[⟨.openParen, ⟨0, 1, 1⟩⟩, ⟨.number ['1'], ⟨1, 1, 2⟩⟩, ⟨.operator .add, ⟨2, 1, 3⟩⟩,
        ⟨.number ['2'], ⟨3, 1, 4⟩⟩, ⟨.closeParen, ⟨4, 1, 5⟩⟩, ⟨.operator .mul, ⟨5, 1, 6⟩⟩,
        ⟨.number ['3'], ⟨6, 1, 7⟩⟩], ⟨7, 1, 8⟩⟩ := by
    decide +kernel
  rw [parse_eq_verdict_advance, hscan]
  rfl

/-- The spans of the product and of the sum in `(1+2)*3`, and the range shown for the last
reduction. -/
theorem span_delimits_subtree_groupedSum :
    parse "(1+2)*3" = .ok groupedSum ∧ Span.Delimits ⟨1, 7⟩ "(1+2)*3" groupedSum ∧
      Span.Delimits ⟨1, 4⟩ "(1+2)*3" (.binary .add (.literal 1 ⟨1, 1, 2⟩ 1)
        (.literal 2 ⟨3, 1, 4⟩ 1) ⟨2, 1, 3⟩) ∧
      ∃ s r f, ((Replay.ofExpr groupedSum 1000).asked [.run]).snapshot? = some s ∧
        s.reduction = some r ∧ groupedSum.NodeAt 0 r.node f ∧ r.span.Delimits "(1+2)*3" f := by
  obtain ⟨hnodes, hreductions⟩ := span_delimits_subtree parse_groupedSum
  have hsome : (((Replay.ofExpr groupedSum 1000).asked [.run]).snapshot?.bind
      Snapshot.reduction).isSome = true := by decide +kernel
  obtain ⟨r, hr⟩ := Option.isSome_iff_exists.1 hsome
  obtain ⟨s, hs, hreduction⟩ := Option.bind_eq_some_iff.1 hr
  obtain ⟨f, hf⟩ := hreductions 1000 [.run] s r hs hreduction
  refine ⟨parse_groupedSum, hnodes 0 _ _ _ _ (.root _ _), ?_, s, r, f, hs, hreduction, hf⟩
  exact hnodes 1 _ _ _ _ (.left _ _ _ (.root _ _))

/-- The text of the span of `(1+2)*3` lacks an opening parenthesis, and is not read. -/
theorem span_text_of_groupedSum :
    parse "(1+2)*3" = .ok groupedSum ∧ groupedSum.NodeAt 0 0 groupedSum ∧
      groupedSum.span.text "(1+2)*3" = "1+2)*3" ∧ ¬ Balanced (lexemes "1+2)*3".toList) ∧
      parse "1+2)*3" = .error (.unexpectedToken .continuation .closeParen ⟨3, 1, 4⟩) := by
  have hscan : (Cursor.ofString "1+2)*3").scan =
      ⟨[⟨.number ['1'], ⟨0, 1, 1⟩⟩, ⟨.operator .add, ⟨1, 1, 2⟩⟩, ⟨.number ['2'], ⟨2, 1, 3⟩⟩,
        ⟨.closeParen, ⟨3, 1, 4⟩⟩, ⟨.operator .mul, ⟨4, 1, 5⟩⟩, ⟨.number ['3'], ⟨5, 1, 6⟩⟩],
        ⟨6, 1, 7⟩⟩ := by
    decide +kernel
  refine ⟨parse_groupedSum, .root _ _, by decide +kernel, fun h => ?_, ?_⟩
  · have hclosed := h.closed
    rw [← map_lexeme_dropLast_tokenize, dropLast_tokenize, hscan] at hclosed
    cases hclosed
  · rw [parse_eq_verdict_advance, hscan]
    rfl

end StepCalc
