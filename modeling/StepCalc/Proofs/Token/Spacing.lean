import StepCalc.Proofs.Token.Accounting

/-!
# Blanks between characters

A text that is cut in two keeps its lexemes unless the cut goes through a run of
digits (`lexemes_append`). Blanks have no lexemes, so they can be put in at every
such place, whatever stands on either side of it.
-/

namespace StepCalc

open ReadsAs (Apart)

/-- Induction on a text by the way it begins: with a blank, with a symbol, or with the
whole of a run of digits. -/
@[elab_as_elim]
theorem text_induction {motive : List Char → Prop} (nil : motive [])
    (blank : ∀ c cs, Text.isBlank c = true → motive cs → motive (c :: cs))
    (symbol : ∀ c cs, Text.isBlank c = false → c.isDigit = false → motive cs → motive (c :: cs))
    (digits : ∀ ds cs, ds ≠ [] → (∀ d ∈ ds, d.isDigit = true) →
      (∀ c ∈ cs.head?, c.isDigit = false) → motive cs → motive (ds ++ cs))
    (cs : List Char) : motive cs := by
  -- a run of digits comes off as a whole, so the induction is on the length
  induction h : cs.length using Nat.strongRecOn generalizing cs with
  | ind n ih =>
      cases cs with
      | nil => exact nil
      | cons c cs =>
          have htail : motive cs := ih cs.length (by simp [← h]) cs rfl
          by_cases hd : c.isDigit = true
          · have hlt : ((c :: cs).dropWhile Char.isDigit).length < n := by
              have := (List.dropWhile_suffix Char.isDigit (l := cs)).length_le
              simp only [List.dropWhile_cons, hd, if_true, ← h, List.length_cons]
              omega
            rw [← List.takeWhile_append_dropWhile (p := Char.isDigit) (l := c :: cs)]
            apply digits
            · simp [hd]
            · exact List.all_eq_true.1 List.all_takeWhile
            · exact Cursor.head_skipWhile ⟨c :: cs, .start⟩ Char.isDigit
            · exact ih _ hlt _ rfl
          · by_cases hb : Text.isBlank c = true
            · exact blank c cs hb htail
            · exact symbol c cs (by simpa using hb) (by simpa using hd) htail

namespace ReadsAs.Apart

variable {a b : List Char}

theorem of_append {x : List Char} (h : Apart (x ++ a) b) : Apart a b := by
  intro c hc
  apply h c
  rw [List.getLast?_append, Option.mem_def.1 hc]
  rfl

/-- What follows a run of digits is still no digit when more is put behind it. -/
theorem head_append {ds : List Char} (h : Apart (ds ++ a) b) (hne : ds ≠ [])
    (hd : ∀ d ∈ ds, d.isDigit = true) (ha : ∀ c ∈ a.head?, c.isDigit = false) :
    ∀ c ∈ (a ++ b).head?, c.isDigit = false := by
  cases a with
  | cons c a => simpa using ha
  | nil =>
      have hlast : ds.getLast hne ∈ (ds ++ []).getLast? := by
        rw [List.append_nil, List.getLast?_eq_some_getLast hne]
        rfl
      exact h _ hlast (hd _ (List.getLast_mem hne))

/-- Blanks keep apart what they stand between. -/
theorem blanks {w : List Char} (h : Apart a b) (hw : ∀ c ∈ w, Text.isBlank c = true) :
    Apart a (w ++ b) := by
  cases w with
  | nil => exact h
  | cons d w =>
      intro c _ _ x hx
      obtain rfl : d = x := by simpa using hx
      apply Bool.eq_false_iff.2
      intro hdigit
      have hblank := (List.forall_mem_cons.1 hw).1
      rw [Text.isBlank_eq_false_of_isDigit hdigit] at hblank
      cases hblank

end ReadsAs.Apart

section Cut

variable {a b : List Char}

/-- A cut that divides no run of digits divides the lexemes. -/
theorem lexemes_append (h : Apart a b) : lexemes (a ++ b) = lexemes a ++ lexemes b := by
  induction a using text_induction with
  | nil => simp
  | blank c a hc ih =>
      have happart : Apart a b := Apart.of_append (x := [c]) h
      rw [List.cons_append, lexemes_blank_cons _ hc, lexemes_blank_cons _ hc, ih happart]
  | symbol c a hc hd ih =>
      have happart : Apart a b := Apart.of_append (x := [c]) h
      rw [List.cons_append, lexemes_symbol_cons _ hc hd, lexemes_symbol_cons _ hc hd, ih happart,
        List.cons_append]
  | digits ds a hne hd ha ih =>
      rw [List.append_assoc, lexemes_digits_append hne hd (h.head_append hne hd ha),
        lexemes_digits_append hne hd ha, ih h.of_append, List.cons_append]

theorem lexemes_blanks_append {w : List Char} (hw : ∀ c ∈ w, Text.isBlank c = true)
    (b : List Char) : lexemes (w ++ b) = lexemes b := by
  induction w with
  | nil => rfl
  | cons c w ih =>
      obtain ⟨hc, hw⟩ := List.forall_mem_cons.1 hw
      rw [List.cons_append, lexemes_blank_cons _ hc, ih hw]

/-- Blanks can be put in wherever they do not divide a run of digits. -/
theorem lexemes_insert_blanks {w : List Char} (h : Apart a b)
    (hw : ∀ c ∈ w, Text.isBlank c = true) : lexemes (a ++ w ++ b) = lexemes (a ++ b) :=
  calc
    lexemes (a ++ w ++ b) = lexemes a ++ lexemes (w ++ b) := by
      rw [List.append_assoc, lexemes_append (h.blanks hw)]
    _ = lexemes a ++ lexemes b := by rw [lexemes_blanks_append hw]
    _ = lexemes (a ++ b) := (lexemes_append h).symm

end Cut

section Spelling

/-- What a token says apart from its place. -/
def Token.spelling (t : Token) : Kind × String :=
  (t.kind, t.lexeme.text)

/-- The texts have the same tokens apart from their places. -/
def SameTokens (source source' : String) : Prop :=
  (tokenize source).map Token.spelling = (tokenize source').map Token.spelling

theorem map_spelling_tokenize (source : String) :
    (tokenize source).map Token.spelling =
      (lexemes source.toList ++ [Lexeme.endOfInput]).map fun x => (x.kind, x.text) := by
  rw [← map_lexeme_tokenize, List.map_map]
  rfl

theorem sameTokens_iff {source source' : String} :
    SameTokens source source' ↔ lexemes source.toList = lexemes source'.toList := by
  have hinj : ∀ x y : Lexeme, (x.kind, x.text) = (y.kind, y.text) → x = y := by
    intro x y hxy
    obtain ⟨hkind, htext⟩ := Prod.mk.inj hxy
    exact Lexeme.eq_of_kind_of_chars hkind (String.ofList_injective htext)
  rw [SameTokens, map_spelling_tokenize, map_spelling_tokenize, List.map_inj_right hinj,
    List.append_cancel_right_eq]

end Spelling

end StepCalc
