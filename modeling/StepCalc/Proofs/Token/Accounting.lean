import StepCalc.Proofs.Token.Lexemes
import StepCalc.Proofs.Token.Tokenization

/-!
# Accounting for every character

Scanning goes from token to token over the blanks between them. `ReadsAs` keeps of this
what a token says about the text around it, and from it follow, one by one, the
conditions of a tokenization. So the tokens of a text account for each of its characters,
and no other list does.
-/

namespace StepCalc

/-- `ts` are read from `rest`, which stands behind `read`: every token comes after
some blanks, and only blanks are left at the end. -/
inductive ReadsAs : List Char → List Char → List Token → Prop
  | finish {read blanks : List Char} (hblank : ∀ c ∈ blanks, Text.isBlank c = true) :
      ReadsAs read blanks [⟨.endOfInput, Location.start.after (read ++ blanks)⟩]
  | token {read blanks rest : List Char} {x : Lexeme} {ts : List Token}
      (hblank : ∀ c ∈ blanks, Text.isBlank c = true) (hx : x.Scanned)
      (hnext : x.kind = .number → ∀ c ∈ rest.head?, c.isDigit = false)
      (htail : ReadsAs (read ++ blanks ++ x.chars) rest ts) :
      ReadsAs read (blanks ++ x.chars ++ rest)
        (⟨x, Location.start.after (read ++ blanks)⟩ :: ts)

namespace Lexeme.Scanned

variable {x : Lexeme}

theorem chars_ne_nil (h : x.Scanned) : x.chars ≠ [] := by
  cases h with
  | number nonempty _ => exact nonempty
  | symbol => simp

theorem ne_endOfInput (h : x.Scanned) : x ≠ .endOfInput := by
  rintro rfl
  exact h.chars_ne_nil rfl

theorem isBlank_eq_false (h : x.Scanned) {c : Char} (hc : c ∈ x.chars) :
    Text.isBlank c = false := by
  cases h with
  | number _ digit => exact Text.isBlank_eq_false_of_isDigit (digit c hc)
  | symbol notBlank _ =>
      rw [chars_ofChar, List.mem_singleton] at hc
      rwa [hc]

theorem kind_eq_number_iff (h : x.Scanned) {c : Char} (hc : c ∈ x.chars) :
    x.kind = .number ↔ c.isDigit = true := by
  cases h with
  | number _ digit => exact iff_of_true rfl (digit c hc)
  | @symbol d notBlank notDigit =>
      rw [chars_ofChar, List.mem_singleton] at hc
      rw [hc, notDigit]
      refine iff_of_false (fun hkind => ?_) (by simp)
      obtain ⟨digits, hx⟩ := exists_of_kind_eq_number hkind
      exact ofChar_ne_number d digits hx

theorem exists_char (h : x.Scanned) (hkind : x.kind ≠ .number) :
    ∃ c, x.chars = [c] ∧ x.kind = .ofChar c := by
  cases h with
  | number => exact absurd rfl hkind
  | @symbol c notBlank notDigit => exact ⟨c, chars_ofChar c, kind_ofChar notDigit⟩

end Lexeme.Scanned

namespace Cursor

theorem head_skipWhile (c : Cursor) (p : Char → Bool) :
    ∀ x ∈ (c.skipWhile p).rest.head?, p x = false := by
  intro x hx
  have hhead := List.head?_dropWhile_not p c.rest
  change (c.rest.dropWhile p).head? = some x at hx
  rwa [hx] at hhead

/-- What taking a token does where no blank stands: it finds the end of the text, or
takes the longest lexeme that the text begins with. -/
theorem take_cases (c : Cursor) (h : ∀ x ∈ c.rest.head?, Text.isBlank x = false) :
    c.take.1.location = c.location ∧
      (c.take.1.lexeme = .endOfInput ∧ c.rest = [] ∨
        c.take.1.lexeme.Scanned ∧ c.rest = c.take.1.lexeme.chars ++ c.take.2.rest ∧
          c.take.2.location = c.location.after c.take.1.lexeme.chars ∧
          (c.take.1.kind = .number → ∀ x ∈ c.take.2.rest.head?, x.isDigit = false)) := by
  obtain ⟨rest, l⟩ := c
  cases rest with
  | nil => exact ⟨rfl, .inl ⟨rfl, rfl⟩⟩
  | cons x rest =>
      by_cases hd : x.isDigit = true
      · have htake : take ⟨x :: rest, l⟩ = (⟨.number ((x :: rest).takeWhile Char.isDigit), l⟩,
            skipWhile ⟨x :: rest, l⟩ Char.isDigit) := if_pos hd
        rw [htake]
        refine ⟨rfl, .inr ⟨.number ?_ ?_, ?_, rfl, fun _ => ?_⟩⟩
        · simp [hd]
        · exact List.all_eq_true.1 List.all_takeWhile
        · exact List.takeWhile_append_dropWhile.symm
        · exact head_skipWhile _ _
      · have htake : take ⟨x :: rest, l⟩ = (⟨.ofChar x, l⟩, ⟨rest, l.advance x⟩) := if_neg hd
        rw [htake]
        have hscanned : (Lexeme.ofChar x).Scanned := .symbol (h x rfl) (by simpa using hd)
        refine ⟨rfl, .inr ⟨hscanned, by simp, by simp, fun hkind => ?_⟩⟩
        obtain ⟨digits, hx⟩ := Lexeme.exists_of_kind_eq_number hkind
        exact absurd hx (Lexeme.ofChar_ne_number x digits)

/-- What reading a token does: it skips blanks, and takes a token from there. -/
theorem next_cases (c : Cursor) :
    ∃ blanks, (∀ x ∈ blanks, Text.isBlank x = true) ∧
      c.next.1.location = c.location.after blanks ∧
      (c.next.1.lexeme = .endOfInput ∧ c.rest = blanks ∨
        c.next.1.lexeme.Scanned ∧ c.rest = blanks ++ c.next.1.lexeme.chars ++ c.next.2.rest ∧
          c.next.2.location = c.location.after (blanks ++ c.next.1.lexeme.chars) ∧
          (c.next.1.kind = .number → ∀ x ∈ c.next.2.rest.head?, x.isDigit = false)) := by
  have hsplit : c.rest = c.rest.takeWhile Text.isBlank ++ (c.skipWhile Text.isBlank).rest :=
    List.takeWhile_append_dropWhile.symm
  obtain ⟨hlocation, htake⟩ := (c.skipWhile Text.isBlank).take_cases (c.head_skipWhile _)
  refine ⟨c.rest.takeWhile Text.isBlank, List.all_eq_true.1 List.all_takeWhile, hlocation, ?_⟩
  rcases htake with ⟨hend, hrest⟩ | ⟨hscanned, hrest, hlocation', hnext⟩
  · left
    exact ⟨hend, by rw [hrest, List.append_nil] at hsplit; exact hsplit⟩
  · right
    refine ⟨hscanned, ?_, ?_, hnext⟩
    · rw [List.append_assoc]
      exact hsplit.trans (congrArg _ hrest)
    · rw [Location.after_append]
      exact hlocation'

theorem readsAs_tokens (c : Cursor) (read : List Char)
    (h : c.location = Location.start.after read) :
    ReadsAs read c.rest c.tokens := by
  induction c using scan_induction generalizing read with
  | step c ih =>
      obtain ⟨blanks, hblank, hlocation, hrest⟩ := c.next_cases
      rw [h, ← Location.after_append] at hlocation
      rcases hrest with ⟨hend, hrest⟩ | ⟨hscanned, hrest, hlocation', hnext⟩
      · rw [tokens_eq, if_pos hend, hrest, hlocation]
        exact .finish hblank
      · have hend := hscanned.ne_endOfInput
        have htail := ih hend (read ++ blanks ++ c.next.1.lexeme.chars)
          (by rw [hlocation', h, ← Location.after_append, List.append_assoc])
        have htoken : c.next.1 = ⟨c.next.1.lexeme, Location.start.after (read ++ blanks)⟩ := by
          rw [← hlocation]
        rw [tokens_eq, if_neg hend, hrest, htoken]
        exact .token hblank hscanned hnext htail

end Cursor

theorem readsAs_tokenize (source : String) : ReadsAs [] source.toList (tokenize source) :=
  (Cursor.ofString source).readsAs_tokens [] rfl

namespace ReadsAs

variable {read rest : List Char} {ts : List Token}

theorem offset_le (h : ReadsAs read rest ts) : ∀ t ∈ ts, read.length ≤ t.location.offset := by
  induction h with
  | finish hblank =>
      intro t ht
      obtain rfl := List.mem_singleton.1 ht
      simp [Location.start]
  | token hblank hx hnext htail ih =>
      intro t ht
      rcases List.mem_cons.1 ht with rfl | ht
      · simp [Location.start]
      · have := ih t ht
        simp only [List.length_append] at this
        omega

theorem finish_eq (h : ReadsAs read rest ts) :
    ∃ body l, ts = body ++ [⟨.endOfInput, l⟩] ∧ l.offset = (read ++ rest).length ∧
      ∀ t ∈ body, t.lexeme ≠ .endOfInput := by
  induction h with
  | finish hblank => exact ⟨[], _, rfl, by simp [Location.start], by simp⟩
  | @token read blanks rest x ts hblank hx hnext htail ih =>
      obtain ⟨body, l, rfl, hl, hbody⟩ := ih
      refine ⟨⟨x, Location.start.after (read ++ blanks)⟩ :: body, l, rfl, by simpa using hl, ?_⟩
      simpa using ⟨hx.ne_endOfInput, hbody⟩

theorem ordered (h : ReadsAs read rest ts) :
    ts.Pairwise fun t u => t.location.offset < u.location.offset ∧ t.stop ≤ u.location.offset := by
  induction h with
  | finish => simp
  | token hblank hx hnext htail ih =>
      refine List.pairwise_cons.2 ⟨fun u hu => ?_, ih⟩
      have hle := htail.offset_le u hu
      have hpos := List.length_pos_iff.2 hx.chars_ne_nil
      simp only [Token.stop, Location.after_offset, Location.start, List.length_append] at hle ⊢
      omega

theorem covered (h : ReadsAs read rest ts) {i : Nat} {c : Char} (hi : read.length ≤ i)
    (hc : (read ++ rest)[i]? = some c) : Text.isBlank c = true ↔ ∀ t ∈ ts, ¬ t.Covers i := by
  induction h with
  | @finish read blanks hblank =>
      rw [List.getElem?_append_right hi] at hc
      refine iff_of_true (hblank c (List.mem_of_getElem? hc)) fun t ht hcovers => ?_
      obtain rfl := List.mem_singleton.1 ht
      exact Tokenization.ne_endOfInput_of_covers hcovers rfl
  | @token read blanks rest x ts hblank hx hnext htail ih =>
      -- the three parts of the text: blanks, the lexeme, and what is read later
      have hhead : ∀ j, Token.Covers ⟨x, Location.start.after (read ++ blanks)⟩ j ↔
          read.length + blanks.length ≤ j ∧ j < read.length + blanks.length + x.chars.length := by
        simp [Token.Covers, Token.stop, Location.start]
      have hlater : ∀ t ∈ ts, read.length + blanks.length + x.chars.length ≤ t.location.offset := by
        simpa [Nat.add_assoc] using htail.offset_le
      rw [List.forall_mem_cons, hhead]
      by_cases hi' : i < read.length + blanks.length + x.chars.length
      · rw [List.getElem?_append_right hi, List.append_assoc] at hc
        have htail' : ∀ t ∈ ts, ¬ t.Covers i := fun t ht hcovers => by
          have := hlater t ht
          have := hcovers.1
          omega
        by_cases hi'' : i < read.length + blanks.length
        · rw [List.getElem?_append_left (by omega)] at hc
          refine iff_of_true (hblank c (List.mem_of_getElem? hc)) ⟨by omega, htail'⟩
        · rw [List.getElem?_append_right (by omega), List.getElem?_append_left (by omega)] at hc
          have hc' := hx.isBlank_eq_false (List.mem_of_getElem? hc)
          rw [hc']
          simp only [Bool.false_eq_true, false_iff]
          omega
      · have hsame : read ++ (blanks ++ x.chars ++ rest) = read ++ blanks ++ x.chars ++ rest := by
          simp
        rw [ih (by simp; omega) (hsame ▸ hc)]
        constructor
        · exact fun h => ⟨by omega, h⟩
        · exact fun h => h.2

/-- No run of digits goes on from `before` to `behind`. -/
def Apart (before behind : List Char) : Prop :=
  ∀ c ∈ before.getLast?, c.isDigit = true → ∀ d ∈ behind.head?, d.isDigit = false

/-- A token ends where the next one can begin. -/
theorem apart_of_scanned {x : Lexeme} (hx : x.Scanned)
    (hnext : x.kind = .number → ∀ c ∈ rest.head?, c.isDigit = false) :
    Apart (read ++ x.chars) rest := by
  intro c hc hdigit
  rw [List.getLast?_append, List.getLast?_eq_some_getLast hx.chars_ne_nil, Option.some_or] at hc
  obtain rfl := Option.some.inj hc
  exact hnext ((hx.kind_eq_number_iff (List.getLast_mem _)).2 hdigit)

/-- A number begins where a run of digits does. -/
theorem Apart.isDigit_eq_false {blanks : List Char} {x : Lexeme}
    (hapart : Apart read (blanks ++ x.chars ++ rest)) (hblank : ∀ c ∈ blanks, Text.isBlank c = true)
    (hx : x.Scanned) (hkind : x.kind = .number) :
    ∀ c ∈ (read ++ blanks).getLast?, c.isDigit = false := by
  intro c hc
  by_cases hnil : blanks = []
  · obtain ⟨d, ds, hd⟩ := List.exists_cons_of_ne_nil hx.chars_ne_nil
    have hdigit : d.isDigit = true := (hx.kind_eq_number_iff (by simp [hd])).1 hkind
    rw [hnil, List.append_nil] at hc
    apply Bool.eq_false_iff.2
    intro hcdigit
    rw [hapart c hc hcdigit d (by simp [hnil, hd])] at hdigit
    cases hdigit
  · rw [List.getLast?_append, List.getLast?_eq_some_getLast hnil, Option.some_or] at hc
    obtain rfl := Option.some.inj hc
    apply Bool.eq_false_iff.2
    intro hcdigit
    have hcblank := hblank _ (List.getLast_mem hnil)
    rw [Text.isBlank_eq_false_of_isDigit hcdigit] at hcblank
    cases hcblank

/-- Every token lies between a beginning and an end of the text, and a number is
not continued on either side. -/
theorem exists_split (h : ReadsAs read rest ts) (hapart : Apart read rest) :
    ∀ t ∈ ts, ∃ before behind, read ++ rest = before ++ (t.lexeme.chars ++ behind) ∧
      t.location = Location.start.after before ∧
      (t.lexeme ≠ .endOfInput → t.lexeme.Scanned) ∧
      (t.kind = .number → (∀ c ∈ before.getLast?, c.isDigit = false) ∧
        ∀ c ∈ behind.head?, c.isDigit = false) := by
  induction h with
  | @finish read blanks hblank =>
      intro t ht
      obtain rfl := List.mem_singleton.1 ht
      exact ⟨read ++ blanks, [], by simp [Lexeme.chars], rfl, by simp, nofun⟩
  | @token read blanks rest x ts hblank hx hnext htail ih =>
      intro t ht
      rcases List.mem_cons.1 ht with rfl | ht
      · refine ⟨read ++ blanks, rest, by simp, rfl, fun _ => hx,
          fun hkind => ⟨hapart.isDigit_eq_false hblank hx hkind, hnext hkind⟩⟩
      · obtain ⟨before, behind, hsplit, hlocation, hafter⟩ := ih (apart_of_scanned hx hnext) t ht
        exact ⟨before, behind, by simpa using hsplit, hlocation, hafter⟩

theorem tokenization (h : ReadsAs [] rest ts) : Tokenization rest ts := by
  have hsplit := h.exists_split (by simp [Apart])
  rw [List.nil_append] at hsplit
  constructor
  case finish => exact h.finish_eq
  case placed =>
    intro t ht
    obtain ⟨before, behind, hrest, hlocation, -⟩ := hsplit t ht
    rw [hlocation, hrest, Location.after_start_eq_ofOffset before (t.lexeme.chars ++ behind)]
    rfl
  case spelled =>
    intro t ht hend
    obtain ⟨before, behind, hrest, hlocation, hscanned, -⟩ := hsplit t ht
    refine ⟨(hscanned hend).chars_ne_nil, ?_⟩
    simp [hlocation, hrest, Location.start]
  case ordered => exact h.ordered
  case covered =>
    intro i c hc
    exact h.covered (Nat.zero_le i) hc
  case number =>
    intro t ht hkind
    obtain ⟨before, behind, hrest, hlocation, hscanned, hborder⟩ := hsplit t ht
    obtain ⟨hbefore, hbehind⟩ := hborder hkind
    obtain ⟨digits, hdigits⟩ := Lexeme.exists_of_kind_eq_number hkind
    have hx := hscanned (by simp [hdigits])
    refine ⟨fun d hd => (hx.kind_eq_number_iff hd).1 hkind, ?_⟩
    intro i c hi hc
    have hoffset : t.location.offset = before.length := by simp [hlocation, Location.start]
    rw [hrest] at hc
    rcases hi with hi | hi
    · apply hbefore
      rw [List.getElem?_append_left (by omega)] at hc
      rw [List.getLast?_eq_getElem?, ← hoffset, ← hi]
      exact hc
    · apply hbehind
      rw [hi, Token.stop, hoffset, List.getElem?_append_right (by omega), Nat.add_sub_cancel_left,
        List.getElem?_append_right (by omega), Nat.sub_self, ← List.head?_eq_getElem?] at hc
      exact hc
  case symbol =>
    intro t ht hend hkind
    obtain ⟨before, behind, -, -, hscanned, -⟩ := hsplit t ht
    exact (hscanned hend).exists_char hkind

end ReadsAs

/-- The tokens of a text account for each of its characters, and are the only ones
that do. -/
theorem eq_tokenize_iff_tokenization (source : String) (ts : List Token) :
    ts = tokenize source ↔ Tokenization source.toList ts := by
  have hreads : ReadsAs [] source.toList (tokenize source) :=
    (Cursor.ofString source).readsAs_tokens [] rfl
  constructor
  · rintro rfl
    exact hreads.tokenization
  · intro h
    exact h.unique hreads.tokenization

-- Columns are counted anew after a line feed.
example : tokenize "12\n +" =
    [⟨.number ['1', '2'], ⟨0, 1, 1⟩⟩, ⟨.operator .add, ⟨4, 2, 2⟩⟩, ⟨.endOfInput, ⟨5, 2, 3⟩⟩] := by
  decide +kernel

end StepCalc
