import StepCalc.Text.Blank
import StepCalc.Token.Basic

/-!
# The tokens of a text, without scanning

`Tokenization cs ts` says when `ts` are the tokens of the text `cs`: which characters
each token covers, of what kind it is and at which line and column it stands. Only one
list meets these conditions, since the token that covers a character is determined by
the characters around it.
-/

namespace StepCalc

namespace Location

/-- The place of the character at `offset`: its line is one more than the number of
line feeds before it, its column one more than the number of characters since the
last of them. -/
def ofOffset (cs : List Char) (offset : Nat) : Location :=
  ⟨offset, 1 + (cs.take offset).count '\n',
    1 + ((cs.take offset).reverse.takeWhile (· != '\n')).length⟩

theorem after_start_reverse (rs : List Char) :
    start.after rs.reverse =
      ⟨rs.length, 1 + rs.count '\n', 1 + (rs.takeWhile (· != '\n')).length⟩ := by
  induction rs with
  | nil => rfl
  | cons c rs ih =>
      rw [List.reverse_cons, after_append, ih, after_cons, after_nil, advance]
      by_cases hc : c = '\n'
      · simp [hc, Nat.add_assoc]
      · simp [hc, Nat.add_assoc]

theorem after_start_eq_ofOffset (read rest : List Char) :
    start.after read = ofOffset (read ++ rest) read.length := by
  have h := after_start_reverse read.reverse
  rw [List.reverse_reverse] at h
  simp [h, ofOffset]

end Location

/-- The kind of the token that a character other than a blank belongs to. -/
def Kind.ofChar (c : Char) : Kind :=
  match c with
  | '+' => .operator .add
  | '-' => .operator .sub
  | '*' => .operator .mul
  | '/' => .operator .div
  | '(' => .openParen
  | ')' => .closeParen
  | c => if c.isDigit then .number else .invalid

namespace Lexeme

theorem eq_of_kind_of_chars {x y : Lexeme} (hkind : x.kind = y.kind) (hchars : x.chars = y.chars) :
    x = y := by
  cases x <;> cases y <;> simp_all [kind, chars]

theorem exists_of_kind_eq_number {x : Lexeme} (h : x.kind = .number) :
    ∃ digits, x = .number digits := by
  cases x <;> simp_all [kind]

theorem kind_ofChar {c : Char} (hc : c.isDigit = false) : (ofChar c).kind = .ofChar c := by
  unfold Kind.ofChar
  split
  case h_7 _ hadd hsub hmul hdiv hopen hclose =>
      have hop : Op.ofChar? c = none := by
        cases hop : Op.ofChar? c with
        | none => rfl
        | some op =>
            have hsymbol := Op.ofChar?_eq_some_iff.1 hop
            cases op <;> simp_all [Op.symbol]
      simp_all [ofChar, kind]
  all_goals rfl

end Lexeme

theorem Kind.ofChar_of_isDigit {c : Char} (hc : c.isDigit = true) : Kind.ofChar c = .number := by
  unfold Kind.ofChar
  split <;> simp_all

namespace Token

/-- The offset just after the last character of the token. -/
def stop (t : Token) : Nat :=
  t.location.offset + t.lexeme.chars.length

/-- The character at offset `i` belongs to the token. -/
def Covers (t : Token) (i : Nat) : Prop :=
  t.location.offset ≤ i ∧ i < t.stop

end Token

/-- The conditions on the tokens of a text. -/
structure Tokenization (cs : List Char) (ts : List Token) : Prop where
  finish : ∃ body l, ts = body ++ [⟨.endOfInput, l⟩] ∧ l.offset = cs.length ∧
    ∀ t ∈ body, t.lexeme ≠ .endOfInput
  placed : ∀ t ∈ ts, t.location = .ofOffset cs t.location.offset
  spelled : ∀ t ∈ ts, t.lexeme ≠ .endOfInput → t.lexeme.chars ≠ [] ∧
    (cs.drop t.location.offset).take t.lexeme.chars.length = t.lexeme.chars
  ordered : ts.Pairwise fun t u =>
    t.location.offset < u.location.offset ∧ t.stop ≤ u.location.offset
  covered : ∀ i c, cs[i]? = some c → (Text.isBlank c = true ↔ ∀ t ∈ ts, ¬ t.Covers i)
  number : ∀ t ∈ ts, t.kind = .number → (∀ d ∈ t.lexeme.chars, d.isDigit = true) ∧
    ∀ i c, i + 1 = t.location.offset ∨ i = t.stop → cs[i]? = some c → c.isDigit = false
  symbol : ∀ t ∈ ts, t.lexeme ≠ .endOfInput → t.kind ≠ .number →
    ∃ c, t.lexeme.chars = [c] ∧ t.kind = .ofChar c

namespace Tokenization

variable {cs : List Char} {ts us : List Token} {t u : Token} {i : Nat} {c : Char}

theorem ne_endOfInput_of_covers (hc : t.Covers i) : t.lexeme ≠ .endOfInput := by
  intro h
  simp only [Token.Covers, Token.stop, h, Lexeme.chars, List.length_nil] at hc
  omega

/-- A covered character is one of the token's. -/
theorem exists_char_of_covers (h : Tokenization cs ts) (ht : t ∈ ts) (hc : t.Covers i) :
    ∃ c ∈ t.lexeme.chars, cs[i]? = some c := by
  obtain ⟨-, hspelled⟩ := h.spelled t ht (ne_endOfInput_of_covers hc)
  obtain ⟨hle, hlt⟩ := hc
  have hlen : i - t.location.offset < t.lexeme.chars.length := by
    unfold Token.stop at hlt
    omega
  refine ⟨_, List.getElem_mem hlen, ?_⟩
  rw [← List.getElem?_eq_getElem hlen, ← hspelled, List.getElem?_take_of_lt hlen,
    List.getElem?_drop, Nat.add_sub_cancel' hle]

theorem covers_offset (h : Tokenization cs ts) (ht : t ∈ ts) (hend : t.lexeme ≠ .endOfInput) :
    t.Covers t.location.offset := by
  have hpos := List.length_pos_iff.2 (h.spelled t ht hend).1
  exact ⟨Nat.le_refl _, by unfold Token.stop; omega⟩

theorem isBlank_eq_false_of_covers (h : Tokenization cs ts) (ht : t ∈ ts) (hc : t.Covers i)
    (hi : cs[i]? = some c) : Text.isBlank c = false := by
  apply Bool.eq_false_iff.2
  intro hblank
  exact (h.covered i c hi).1 hblank t ht hc

/-- A character other than a blank is covered. -/
theorem exists_covers (h : Tokenization cs ts) (hi : cs[i]? = some c)
    (hblank : Text.isBlank c = false) : ∃ t ∈ ts, t.Covers i := by
  apply Classical.byContradiction
  intro hnone
  have hblank' : Text.isBlank c = true := by
    apply (h.covered i c hi).2
    intro t ht hc
    exact hnone ⟨t, ht, hc⟩
  rw [hblank] at hblank'
  cases hblank'

/-- A covered character determines the kind of its token. -/
theorem kind_of_covers (h : Tokenization cs ts) (ht : t ∈ ts) (hc : t.Covers i)
    (hi : cs[i]? = some c) : t.kind = .ofChar c := by
  obtain ⟨d, hd, hi'⟩ := h.exists_char_of_covers ht hc
  obtain rfl : c = d := Option.some.inj (hi.symm.trans hi')
  by_cases hkind : t.kind = .number
  · rw [hkind, Kind.ofChar_of_isDigit ((h.number t ht hkind).1 c hd)]
  · obtain ⟨x, hx, hkind⟩ := h.symbol t ht (ne_endOfInput_of_covers hc) hkind
    rw [hx, List.mem_singleton] at hd
    rw [hkind, hd]

/-- A number does not reach beyond another one that begins within it. -/
theorem range_le_of_covers (h : Tokenization cs ts) (h' : Tokenization cs us) (ht : t ∈ ts)
    (hu : u ∈ us) (hkind : t.kind = .number) (hkind' : u.kind = .number)
    (hc : u.Covers t.location.offset) :
    u.location.offset = t.location.offset ∧ u.stop ≤ t.stop := by
  have hborder : ∀ i, i + 1 = t.location.offset ∨ i = t.stop → ¬ u.Covers i := by
    intro i hi hci
    obtain ⟨c, hmem, hchar⟩ := h'.exists_char_of_covers hu hci
    have hdigit := (h'.number u hu hkind').1 c hmem
    rw [(h.number t ht hkind).2 i c hi hchar] at hdigit
    cases hdigit
  have hbefore := hborder (t.location.offset - 1)
  have hafter := hborder t.stop (.inr rfl)
  simp only [Token.Covers, Token.stop] at hbefore hafter hc ⊢
  omega

theorem eq_of_offset_of_stop (h : Tokenization cs ts) (h' : Tokenization cs us) (ht : t ∈ ts)
    (hu : u ∈ us) (hend : t.lexeme ≠ .endOfInput) (hend' : u.lexeme ≠ .endOfInput)
    (hkind : t.kind = u.kind) (hoffset : t.location.offset = u.location.offset)
    (hstop : t.stop = u.stop) : t = u := by
  have hlength : t.lexeme.chars.length = u.lexeme.chars.length := by
    unfold Token.stop at hstop
    omega
  have hchars : t.lexeme.chars = u.lexeme.chars := by
    rw [← (h.spelled t ht hend).2, ← (h'.spelled u hu hend').2, hoffset, hlength]
  have hlocation : t.location = u.location := by
    rw [h.placed t ht, h'.placed u hu, hoffset]
  cases t
  cases u
  rw [Token.mk.injEq]
  exact ⟨Lexeme.eq_of_kind_of_chars hkind hchars, hlocation⟩

/-- The token that covers the first character of another one is this token. -/
theorem eq_of_covers (h : Tokenization cs ts) (h' : Tokenization cs us) (ht : t ∈ ts)
    (hu : u ∈ us) (hend : t.lexeme ≠ .endOfInput) (hc : u.Covers t.location.offset) : t = u := by
  have hend' := ne_endOfInput_of_covers hc
  have hown := h.covers_offset ht hend
  obtain ⟨c, -, hchar⟩ := h.exists_char_of_covers ht hown
  have hkind : t.kind = u.kind := by
    rw [h.kind_of_covers ht hown hchar, h'.kind_of_covers hu hc hchar]
  by_cases hnumber : t.kind = .number
  · obtain ⟨hoffset, hle⟩ := h.range_le_of_covers h' ht hu hnumber (hkind ▸ hnumber) hc
    obtain ⟨-, hge⟩ := h'.range_le_of_covers h hu ht (hkind ▸ hnumber) hnumber (hoffset ▸ hown)
    exact h.eq_of_offset_of_stop h' ht hu hend hend' hkind hoffset.symm (Nat.le_antisymm hge hle)
  · obtain ⟨x, hx, -⟩ := h.symbol t ht hend hnumber
    obtain ⟨y, hy, -⟩ := h'.symbol u hu hend' (hkind ▸ hnumber)
    apply h.eq_of_offset_of_stop h' ht hu hend hend' hkind
    all_goals
      simp only [Token.Covers, Token.stop, hx, hy, List.length_singleton] at hc ⊢
      omega

/-- A character that belongs to no number, operator or parenthesis is a token by itself. -/
theorem exists_invalid_iff (h : Tokenization cs ts) (hi : cs[i]? = some c) :
    (∃ t ∈ ts, t.kind = .invalid ∧ t.location.offset = i) ↔
      Text.isBlank c = false ∧ Kind.ofChar c = .invalid := by
  constructor
  · rintro ⟨t, ht, hkind, rfl⟩
    have hend : t.lexeme ≠ .endOfInput := by
      intro hend
      rw [Token.kind, hend] at hkind
      cases hkind
    have hc := h.covers_offset ht hend
    exact ⟨h.isBlank_eq_false_of_covers ht hc hi, (h.kind_of_covers ht hc hi).symm.trans hkind⟩
  · rintro ⟨hblank, hkind⟩
    obtain ⟨t, ht, hc⟩ := h.exists_covers hi hblank
    have htkind := (h.kind_of_covers ht hc hi).trans hkind
    obtain ⟨x, hx, -⟩ := h.symbol t ht (ne_endOfInput_of_covers hc) (by simp [htkind])
    refine ⟨t, ht, htkind, ?_⟩
    simp only [Token.Covers, Token.stop, hx, List.length_singleton] at hc
    omega

theorem mem_iff_of_endOfInput (h : Tokenization cs ts) (hend : t.lexeme = .endOfInput) :
    t ∈ ts ↔ t = ⟨.endOfInput, .ofOffset cs cs.length⟩ := by
  obtain ⟨body, l, rfl, hl, hbody⟩ := h.finish
  have hlast : l = .ofOffset cs cs.length := hl ▸ h.placed ⟨.endOfInput, l⟩ (by simp)
  rw [List.mem_append, List.mem_singleton, ← hlast]
  constructor
  · rintro (ht | rfl)
    · exact absurd hend (hbody t ht)
    · rfl
  · exact .inr

theorem mem_of_mem (h : Tokenization cs ts) (h' : Tokenization cs us) (ht : t ∈ ts) : t ∈ us := by
  by_cases hend : t.lexeme = .endOfInput
  · exact (h'.mem_iff_of_endOfInput hend).2 ((h.mem_iff_of_endOfInput hend).1 ht)
  · have hown := h.covers_offset ht hend
    obtain ⟨c, -, hchar⟩ := h.exists_char_of_covers ht hown
    have hblank := h.isBlank_eq_false_of_covers ht hown hchar
    obtain ⟨u, hu, hc⟩ := h'.exists_covers hchar hblank
    exact h.eq_of_covers h' ht hu hend hc ▸ hu

theorem unique (h : Tokenization cs ts) (h' : Tokenization cs us) : ts = us := by
  have hnodup : ∀ {ts : List Token}, Tokenization cs ts → ts.Nodup := by
    intro ts h
    refine h.ordered.imp fun hlt heq => ?_
    rw [heq] at hlt
    omega
  apply List.Perm.eq_of_pairwise _ h.ordered h'.ordered
  · apply (List.perm_ext_iff_of_nodup (hnodup h) (hnodup h')).2
    intro t
    exact ⟨h.mem_of_mem h', h'.mem_of_mem h⟩
  · intro t u _ _ htu hut
    omega

end Tokenization

end StepCalc
