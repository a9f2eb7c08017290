import StepCalc.Proofs.Expr.Display
import StepCalc.Proofs.Expr.InOrder

/-!
# No parentheses can be left out

The words of a written expression are found, in order, among the tokens of every text with
the same tree: each parenthesis that is written stands in all of them, since the place of an
operand in the grammar demands it. What such a text has besides are further parentheses.
-/

namespace StepCalc

/-- What a lexeme says: its kind and, for a number, the value. -/
def Lexeme.content (x : Lexeme) : Kind × Option Int :=
  (x.kind, x.number?.map Prod.fst)

def Token.content (t : Token) : Kind × Option Int :=
  t.lexeme.content

def Mark.content (m : Mark) : Kind × Option Int :=
  (m.kind, m.number.map Prod.fst)

def Kind.isParen : Kind → Bool
  | openParen | closeParen => true
  | _ => false

/-- The number of parentheses in a text. -/
def parentheses (source : String) : Nat :=
  (tokenize source).countP fun t => t.kind.isParen

section Words

namespace Expr

/-- The words of an expression as an operand that must bind at least as tightly as `level`. -/
def wordsAt (level : Nat) (e : Expr) : List Lexeme :=
  group (decide (e.binding < level)) e.words

theorem wordsAt_of_le {level : Nat} {e : Expr} (h : level ≤ e.binding) :
    e.wordsAt level = e.words := by
  simp [wordsAt, group, Nat.not_lt.2 h]

theorem wordsAt_expression (e : Expr) : e.wordsAt Goal.expression.level = e.words :=
  wordsAt_of_le e.binding_pos

theorem wordsAt_binary (op : Op) (left right : Expr) (l : Location) :
    (binary op left right l).wordsAt op.precedence =
      left.wordsAt op.precedence ++ .operator op :: right.wordsAt (op.precedence + 1) := by
  rw [wordsAt_of_le (Nat.le_refl op.precedence)]
  simp only [words, wordsAt, Nat.lt_succ_iff]

end Expr

theorem sublist_group (needed : Bool) (xs : List Lexeme) : xs.Sublist (group needed xs) := by
  cases needed with
  | false => exact .refl xs
  | true => exact .cons _ (List.sublist_append_left xs _)

/-- The tighter the place, the more parentheses. -/
theorem Expr.wordsAt_sublist (e : Expr) {k level : Nat} (h : k ≤ level) :
    (e.wordsAt k).Sublist (e.wordsAt level) := by
  by_cases hk : e.binding < k
  · have hlevel : e.binding < level := Nat.lt_of_lt_of_le hk h
    simp only [wordsAt, hk, hlevel]
    exact .refl _
  · rw [wordsAt_of_le (Nat.le_of_not_lt hk)]
    exact sublist_group _ _

/-- The words of a value have its content. -/
theorem Value.content_words {v : Value} (h : 0 ≤ v.toInt) :
    v.words.map Lexeme.content = [(.number, some v.toInt)] := by
  have hdigits : (Nat.ofDigitChars 10 v.digits 0 : Int) = v.toInt := by
    rw [digits, Nat.ofDigitChars_ten_toDigits]
    omega
  rw [words_of_nonneg h, ← hdigits]
  rfl

/-- Tokens in parentheses have what is written in parentheses, and more if none are needed. -/
theorem content_group_sublist {xs : List Lexeme} {ts : List Token} (needed : Bool) (l r : Location)
    (h : (xs.map Lexeme.content).Sublist (ts.map Token.content)) :
    ((group needed xs).map Lexeme.content).Sublist
      ((⟨.openParen, l⟩ :: (ts ++ [⟨.closeParen, r⟩])).map Token.content) := by
  simp only [List.map_cons, List.map_append, List.map_nil]
  cases needed with
  | false => exact .cons _ (h.trans (List.sublist_append_left _ _))
  | true =>
      simp only [group, if_true, List.map_cons, List.map_append, List.map_nil]
      exact (h.append (.refl _)).cons_cons _

/-- An operator between two words has what its operands have in their places. -/
theorem Expr.content_binary_sublist {op : Op} {left right : Expr} (l : Location)
    {xs ys : List (Kind × Option Int)}
    (hleft : ((left.wordsAt op.precedence).map Lexeme.content).Sublist xs)
    (hright : ((right.wordsAt (op.precedence + 1)).map Lexeme.content).Sublist ys) :
    (((binary op left right l).wordsAt op.precedence).map Lexeme.content).Sublist
      (xs ++ (Lexeme.operator op).content :: ys) := by
  rw [wordsAt_binary, List.map_append, List.map_cons]
  exact hleft.append (hright.cons_cons _)

end Words

section Reading

/-- In the place of any goal an expression is written with those parentheses only that every
word with its tree has there. -/
theorem Derives.content_sublist {goal : Goal} {ts : List Token} {e : Expr}
    (h : Derives goal ts e) (hts : InRange ts) :
    ((e.wordsAt goal.level).map Lexeme.content).Sublist (ts.map Token.content) := by
  induction h using leftRec with
  | number digits l =>
      have hnonneg := (number digits l).nonnegative hts
      have hvalue := Value.toInt_ofNat (inRange_number.1 hts)
      rw [Expr.wordsAt_of_le (Nat.le_refl 3), Expr.words, Value.content_words hnonneg, hvalue]
      exact .refl _
  | @group body e l r inside ih =>
      have hbody := ih (inRange_parenthesized.1 hts)
      rw [Expr.wordsAt_expression] at hbody
      exact content_group_sublist _ l r hbody
  | @ofFactor ts e h ih =>
      exact ((e.wordsAt_sublist (by decide)).map _).trans (ih hts)
  | @ofTerm ts e h ih =>
      exact ((e.wordsAt_sublist (by decide)).map _).trans (ih hts)
  | product l left level right ihl ihr | sum l left level right ihl ihr =>
      obtain ⟨hts, hus⟩ := inRange_operation.1 hts
      have hleft := ihl hts
      have hright := ihr hus
      rw [List.map_append, List.map_cons]
      -- operators stand at the level of their goal, and the right operand is of the next level
      rcases level with rfl | rfl <;> exact Expr.content_binary_sublist l hleft hright

theorem map_content_tokenize_text (e : Expr) :
    (tokenize e.text).map Token.content = (e.words ++ [Lexeme.endOfInput]).map Lexeme.content := by
  rw [← lexemes_text, ← map_lexeme_tokenize, List.map_map]
  rfl

/-- The text of an expression is found among the tokens of every text with its tree. -/
theorem Spells.content_sublist {source : String} {e : Expr} (h : Spells source e) :
    ((tokenize e.text).map Token.content).Sublist ((tokenize source).map Token.content) := by
  have hbody := h.derivation.content_sublist h.numbers
  rw [Expr.wordsAt_expression, tokenize_eq, List.dropLast_concat] at hbody
  rw [map_content_tokenize_text, tokenize_eq, List.map_append, List.map_append]
  exact hbody.append (.refl _)

theorem Spells.parentheses_text_le {source : String} {e : Expr} (h : Spells source e) :
    parentheses e.text ≤ parentheses source := by
  have hcount : ∀ source : String, parentheses source =
      ((tokenize source).map Token.content).countP fun c => c.1.isParen := by
    intro source
    rw [List.countP_map]
    rfl
  rw [hcount, hcount]
  exact h.content_sublist.countP_le

end Reading

section Contents

/-- What the marks of some tokens say depends on their lexemes only. -/
theorem map_content_marks (ts : List Token) :
    (marks ts).map Mark.content =
      ((ts.map Token.lexeme).filter (·.kind.isKept)).map Lexeme.content := by
  rw [List.filter_map, List.map_map, marks, List.map_map]
  rfl

theorem filter_group (needed : Bool) (xs : List Lexeme) :
    (group needed xs).filter (·.kind.isKept) = xs.filter (·.kind.isKept) := by
  cases needed with
  | false => rfl
  | true => simp [group, Lexeme.kind, Kind.isKept]

/-- Without the parentheses the words of an expression are its nodes from left to right. -/
theorem Expr.content_words {e : Expr} (he : e.Nonnegative) :
    (e.words.filter (·.kind.isKept)).map Lexeme.content = e.marks.map Mark.content := by
  induction e with
  | literal v l width =>
      have hfilter : v.words.filter (·.kind.isKept) = v.words := by
        rw [Value.words_of_nonneg he]
        rfl
      rw [words, hfilter, Value.content_words he]
      rfl
  | binary op left right l ihl ihr =>
      have hop : ∀ xs : List Lexeme, (Lexeme.operator op :: xs).filter (·.kind.isKept) =
          .operator op :: xs.filter (·.kind.isKept) := fun _ => rfl
      rw [words, List.filter_append, hop, filter_group, filter_group, List.map_append,
        List.map_cons, ihl he.1, ihr he.2, marks, List.map_append]
      rfl

theorem Spells.content_marks_text {source : String} {e : Expr} (h : Spells source e) :
    (marks (tokenize e.text)).map Mark.content = (marks (tokenize source)).map Mark.content := by
  have hnonneg := h.derivation.nonnegative h.numbers
  have hend : [Lexeme.endOfInput].filter (·.kind.isKept) = [] := rfl
  rw [← h.marks_eq, ← Expr.content_words hnonneg, map_content_marks, map_lexeme_tokenize,
    lexemes_text, List.filter_append, hend, List.append_nil]

end Contents

/-- Of all texts with a given tree the written one has the fewest parentheses. The tokens of
a text are at least as many as those of its expression as it is written; without parentheses
they say the same, and if they are as many, they say the same with them. -/
theorem written_parentheses_are_fewest {source : String} {e : Expr} (h : parse source = .ok e) :
    (tokenize e.text).length ≤ (tokenize source).length ∧
      (marks (tokenize e.text)).map Mark.content = (marks (tokenize source)).map Mark.content ∧
      ((tokenize e.text).length = (tokenize source).length ↔
        (tokenize e.text).map Token.content = (tokenize source).map Token.content) ∧
      ∀ source' e', parse source' = .ok e' → e'.bare = e.bare →
        parentheses e.text ≤ parentheses source' := by
  have hspells := spells_of_parse_eq h
  have hsublist := hspells.content_sublist
  refine ⟨by simpa using hsublist.length_le, hspells.content_marks_text, ⟨fun hlength => ?_,
    fun hcontent => ?_⟩, fun source' e' h' hbare => ?_⟩
  · exact hsublist.eq_of_length (by simpa using hlength)
  · simpa using congrArg List.length hcontent
  · rw [← Expr.text_eq_of_bare_eq hbare]
    exact (spells_of_parse_eq h').parentheses_text_le

/-- `(7)/(2-2)` is written without the parentheses around its first operand. -/
theorem written_parentheses_are_fewest_groupedDivisor :
    parse "(7)/(2-2)" = .ok groupedDivisor ∧ groupedDivisor.text = "7 / (2 - 2)" ∧
      (tokenize "7 / (2 - 2)").length ≤ (tokenize "(7)/(2-2)").length ∧
      parentheses "7 / (2 - 2)" ≤ parentheses "(7)/(2-2)" := by
  have htext : groupedDivisor.text = "7 / (2 - 2)" := by decide +kernel
  obtain ⟨hlength, -, -, hfewest⟩ := written_parentheses_are_fewest parse_groupedDivisor
  rw [htext] at hlength hfewest
  exact ⟨parse_groupedDivisor, htext, hlength, hfewest _ _ parse_groupedDivisor rfl⟩

end StepCalc
