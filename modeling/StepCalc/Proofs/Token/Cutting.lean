import StepCalc.Proofs.Token.Spacing

/-!
# Parts of a text

A text can be cut behind each of its tokens, and in front of each. What stands between two
cuts has just the lexemes between them, so a range of tokens has a text of its own
(`exists_parts`).
-/

namespace StepCalc

/-- The characters of `source` in the range. -/
def Span.text (s : Span) (source : String) : String :=
  String.ofList ((source.toList.drop s.start).take (s.stop - s.start))

theorem Span.text_eq {source : String} {s : Span} {before middle behind : List Char}
    (h : source.toList = before ++ (middle ++ behind)) (hstart : before.length = s.start)
    (hstop : (before ++ middle).length = s.stop) : s.text source = String.ofList middle := by
  have hlength : s.stop - s.start = middle.length := by
    rw [List.length_append] at hstop
    omega
  rw [text, h, hlength, ← hstart, List.drop_left, List.take_left]

open ReadsAs (Apart)

namespace ReadsAs

section Apart

variable {a b c : List Char}

theorem Apart.of_append_right (h : Apart a (b ++ c)) : Apart a b := by
  intro x hx hdigit y hy
  apply h x hx hdigit y
  rw [List.head?_append, Option.mem_def.1 hy]
  rfl

/-- Behind blanks any token can begin. -/
theorem Apart.behind_blanks {w : List Char} (h : Apart a (w ++ b))
    (hw : ∀ c ∈ w, Text.isBlank c = true) : Apart (a ++ w) b := by
  by_cases hnil : w = []
  · simpa [hnil] using h
  · intro x hx hdigit
    rw [List.getLast?_append, List.getLast?_eq_some_getLast hnil, Option.some_or] at hx
    obtain rfl := Option.some.inj hx
    have hblank := hw _ (List.getLast_mem hnil)
    rw [Text.isBlank_eq_false_of_isDigit hdigit] at hblank
    cases hblank

end Apart

theorem lexemes_scanned_append {x : Lexeme} {rest : List Char} (hx : x.Scanned)
    (hnext : x.kind = .number → ∀ c ∈ rest.head?, c.isDigit = false) :
    lexemes (x.chars ++ rest) = x :: lexemes rest := by
  cases hx with
  | number nonempty digit => exact lexemes_digits_append nonempty digit (hnext rfl)
  | symbol notBlank notDigit =>
      rw [Lexeme.chars_ofChar]
      exact lexemes_symbol_cons rest notBlank notDigit

variable {read rest : List Char} {pre post : List Token}

/-- Cuts the text behind the last token of `pre`. -/
theorem exists_cut (h : ReadsAs read rest (pre ++ post)) (hpost : post ≠ [])
    (hapart : Apart read rest) :
    ∃ done left, rest = done ++ left ∧ lexemes done = pre.map Token.lexeme ∧
      ReadsAs (read ++ done) left post ∧ Apart (read ++ done) left ∧
      (read ++ done).length = (pre.getLast?.map Token.stop).getD read.length := by
  induction pre generalizing read rest with
  | nil => exact ⟨[], rest, rfl, lexemes_nil, by simpa using h, by simpa using hapart, by simp⟩
  | cons t pre ih =>
      rw [List.cons_append] at h
      generalize hts : pre ++ post = ts at h
      cases h with
      | finish hblank =>
          obtain ⟨-, rfl⟩ := List.append_eq_nil_iff.1 hts
          exact absurd rfl hpost
      | @token _ blanks rest x _ hblank hx hnext htail =>
          subst hts
          obtain ⟨done, left, rfl, hlexemes, hreads, hcut, hlength⟩ :=
            ih htail (apart_of_scanned hx hnext)
          have hdone : x.kind = .number → ∀ c ∈ done.head?, c.isDigit = false := by
            intro hkind c hc
            apply hnext hkind
            rw [List.head?_append, Option.mem_def.1 hc]
            rfl
          refine ⟨blanks ++ x.chars ++ done, left, by simp, ?_, by simpa using hreads,
            by simpa using hcut, ?_⟩
          · rw [List.append_assoc, lexemes_blanks_append hblank, lexemes_scanned_append hx hdone,
              hlexemes, List.map_cons]
          · have hstop : (read ++ blanks ++ x.chars).length =
                Token.stop ⟨x, Location.start.after (read ++ blanks)⟩ := by
              simp [Token.stop, Location.start, Nat.add_assoc]
            rw [hstop] at hlength
            rw [List.getLast?_cons, Option.map_some, Option.getD_some, ← List.append_assoc,
              ← List.append_assoc, hlength]
            cases pre.getLast? <;> rfl

/-- Cuts the text in front of a token. -/
theorem exists_blanks {t : Token} {ts : List Token} (h : ReadsAs read rest (t :: ts))
    (hapart : Apart read rest) :
    ∃ blanks left, rest = blanks ++ left ∧ lexemes blanks = [] ∧
      ReadsAs (read ++ blanks) left (t :: ts) ∧ Apart (read ++ blanks) left ∧
      (read ++ blanks).length = t.location.offset := by
  have hnone : ∀ c ∈ ([] : List Char), Text.isBlank c = true := by simp
  cases h with
  | finish hblank =>
      have hreads : ReadsAs (read ++ rest) []
          [⟨.endOfInput, Location.start.after (read ++ rest ++ [])⟩] := .finish hnone
      refine ⟨rest, [], (List.append_nil _).symm, ?_, ?_, ?_, ?_⟩
      · simpa using lexemes_blanks_append hblank []
      · simpa using hreads
      · simp [Apart]
      · simp [Location.start]
  | @token _ blanks rest x ts hblank hx hnext htail =>
      have hreads : ReadsAs (read ++ blanks) ([] ++ x.chars ++ rest)
          (⟨x, Location.start.after (read ++ blanks ++ [])⟩ :: ts) :=
        .token hnone hx hnext (by simpa using htail)
      refine ⟨blanks, x.chars ++ rest, List.append_assoc .., ?_, ?_, ?_, ?_⟩
      · simpa using lexemes_blanks_append hblank []
      · simpa using hreads
      · exact Apart.behind_blanks (by simpa using hapart) hblank
      · simp [Location.start]

end ReadsAs

/-- A range of tokens has a text of its own, which begins with its first token and ends
with its last. The tokens around it take the text on both sides with them. -/
theorem exists_parts {source : String} {pre opens closes post : List Token} {t u : Token}
    {core : List Token} (h : tokenize source = pre ++ (opens ++ (core ++ (closes ++ post))))
    (hfirst : core.head? = some t) (hlast : core.getLast? = some u) (hpost : post ≠ []) :
    ∃ before opening middle closing behind : List Char,
      source.toList = before ++ (opening ++ (middle ++ (closing ++ behind))) ∧
      (before ++ opening).length = t.location.offset ∧
      (before ++ opening ++ middle).length = u.stop ∧
      lexemes opening = opens.map Token.lexeme ∧ lexemes middle = core.map Token.lexeme ∧
      lexemes closing = closes.map Token.lexeme ∧
      lexemes (opening ++ (middle ++ closing)) = (opens ++ (core ++ closes)).map Token.lexeme := by
  have hstart : ReadsAs [] source.toList (pre ++ (opens ++ (core ++ (closes ++ post)))) :=
    h ▸ readsAs_tokenize source
  have hrest : closes ++ post ≠ [] := by simp [hpost]
  obtain ⟨core, rfl⟩ : ∃ tail, core = t :: tail := List.head?_eq_some_iff.1 hfirst
  obtain ⟨before, left, hsource, -, hreads, hapart, -⟩ :=
    hstart.exists_cut (by simp) (by simp [Apart])
  obtain ⟨opened, left, rfl, hopened, hreads, hopen, -⟩ := hreads.exists_cut (by simp) hapart
  obtain ⟨blanks, left, rfl, hblanks, hreads, hborder, hoffset⟩ := hreads.exists_blanks hopen
  rw [List.append_eq, ← List.cons_append] at hreads
  obtain ⟨middle, left, rfl, hmiddle, hreads, hclose, hstop⟩ := hreads.exists_cut hrest hborder
  obtain ⟨closing, behind, rfl, hclosing, -, -, -⟩ := hreads.exists_cut hpost hclose
  have hopening : lexemes (opened ++ blanks) = opens.map Token.lexeme := by
    have happart : Apart opened blanks := hopen.of_append.of_append_right
    rw [lexemes_append happart, hopened, hblanks, List.append_nil]
  refine ⟨before, opened ++ blanks, middle, closing, behind, by simpa using hsource,
    by simpa using hoffset, ?_, hopening, hmiddle, hclosing, ?_⟩
  · rw [hlast] at hstop
    simpa using hstop
  · have houtside : Apart (opened ++ blanks) (middle ++ closing) := by
      rw [List.append_assoc, ← List.append_assoc middle] at hborder
      exact hborder.of_append.of_append_right
    have hinside : Apart middle closing := hclose.of_append.of_append_right
    rw [lexemes_append houtside, lexemes_append hinside, hopening, hmiddle, hclosing,
      List.map_append, List.map_append]

end StepCalc
