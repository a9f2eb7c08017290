import StepCalc.Proofs.Grammar.Descent

/-!
# The earliest error

A list of lexemes is viable if an accepted text begins with it. Whether a token is
taken depends on the number of open groups, on whether an operand is complete, and
on the token's lexeme, so two runs over the same lexemes stay in step
(`Reading.exists_run?_of_map_eq`). Whatever has been taken can be completed: an
operand if one is missing, then the closing parentheses. Hence the viable lists of
lexemes are exactly those that are taken, and the token that reading refuses is the
first one after which nothing can be completed.
-/

namespace StepCalc

namespace Reading

variable {goal : Goal} {base : Nat} {s s' u u' : Reading} {t t' : Token} {ts ts' : List Token}

/-- The number of open groups, and whether an operand is complete. -/
def phase (s : Reading) : Nat × Bool :=
  (s.outer.length, s.operand.isSome)

/-- The phase and the lexeme decide whether a token is taken. -/
theorem Shift.exists_of_phase_eq (h : Shift goal base s t u) (hs : s.phase = s'.phase)
    (ht : t.lexeme = t'.lexeme) : ∃ u', Shift goal base s' t' u' ∧ u.phase = u'.phase := by
  obtain ⟨outer, here, operand⟩ := s'
  obtain ⟨x, l⟩ := t'
  cases h with
  | @number _ _ digits _ fits =>
      obtain ⟨hlen, hop⟩ := Prod.mk.inj hs
      obtain rfl : operand = none := by simpa using hop.symm
      obtain rfl : x = .number digits := ht.symm
      exact ⟨_, .number fits, by simpa [phase] using hlen⟩
  | @opening _ _ _ room =>
      obtain ⟨hlen, hop⟩ := Prod.mk.inj hs
      obtain rfl : operand = none := by simpa using hop.symm
      obtain rfl : x = .openParen := ht.symm
      simp only at hlen
      exact ⟨_, .opening (hlen ▸ room), by simp [phase, hlen]⟩
  | @operator _ _ _ op _ admitted =>
      obtain ⟨hlen, hop⟩ := Prod.mk.inj hs
      obtain ⟨f, rfl⟩ : ∃ f, operand = some f := Option.isSome_iff_exists.1 hop.symm
      obtain rfl : x = .operator op := ht.symm
      refine ⟨_, .operator fun houter => admitted ?_, by simpa [phase] using hlen⟩
      exact List.length_eq_zero_iff.1 (hlen.trans (by simp [houter]))
  | @closing _ rest _ _ _ =>
      obtain ⟨hlen, hop⟩ := Prod.mk.inj hs
      obtain ⟨f, rfl⟩ : ∃ f, operand = some f := Option.isSome_iff_exists.1 hop.symm
      obtain rfl : x = .closeParen := ht.symm
      cases outer with
      | nil => simp at hlen
      | cons g outer => exact ⟨_, .closing, by simpa [phase] using hlen⟩

theorem exists_run?_of_map_eq (h : s.run? goal base ts = some u) (hs : s.phase = s'.phase)
    (hts : ts.map Token.lexeme = ts'.map Token.lexeme) :
    ∃ u', s'.run? goal base ts' = some u' ∧ u.phase = u'.phase := by
  induction ts generalizing s s' ts' with
  | nil =>
      obtain rfl := List.map_eq_nil_iff.1 hts.symm
      obtain rfl := Option.some.inj h
      exact ⟨s', rfl, hs⟩
  | cons t ts ih =>
      obtain ⟨t', ts', rfl, ht, hts⟩ := List.map_eq_cons_iff.1 hts.symm
      obtain ⟨v, hv, hrun⟩ := run?_cons_eq_some_iff.1 h
      obtain ⟨v', hv', hphase⟩ := hv.exists_of_phase_eq hs ht.symm
      obtain ⟨u', hu', hu⟩ := ih hrun hphase hts.symm
      exact ⟨u', run?_cons_eq_some_iff.2 ⟨v', hv', hu'⟩, hu⟩

/-- Outside all groups a complete operand is a result. -/
theorem phase_eq_iff : s.phase = (0, true) ↔ ∃ e, s.result? = some e := by
  obtain ⟨outer, here, operand⟩ := s
  cases outer <;> cases operand <;> simp [phase, result?]

/-- As many closing parentheses as groups are open complete an expression. -/
theorem exists_run?_closing (outer : List Group) (here : Group) (e : Expr)
    (hts : ts.map Token.lexeme = List.replicate outer.length .closeParen) :
    ∃ u, (Reading.mk outer here (some e)).run? goal base ts = some u ∧ u.phase = (0, true) := by
  induction outer generalizing here e ts with
  | nil =>
      obtain rfl := List.map_eq_nil_iff.1 hts
      exact ⟨_, rfl, rfl⟩
  | cons g outer ih =>
      obtain ⟨⟨x, l⟩, rest, rfl, hx, hrest⟩ := List.map_eq_cons_iff.1 hts
      obtain rfl : x = .closeParen := hx
      obtain ⟨u, hrun, hu⟩ := ih g _ hrest
      exact ⟨u, run?_cons_eq_some_iff.2 ⟨_, .closing, hrun⟩, hu⟩

/-- The lexemes that complete an expression from `s`. -/
def completion (s : Reading) : List Lexeme :=
  let closing := List.replicate s.outer.length .closeParen
  match s.operand with
  | none => .number ['0'] :: closing
  | some _ => closing

theorem exists_run?_completion (hts : ts.map Token.lexeme = s.completion) :
    ∃ u, s.run? goal base ts = some u ∧ u.phase = (0, true) := by
  obtain ⟨outer, here, operand⟩ := s
  cases operand with
  | some e => exact exists_run?_closing outer here e hts
  | none =>
      obtain ⟨⟨x, l⟩, rest, rfl, hx, hrest⟩ := List.map_eq_cons_iff.1 hts
      obtain rfl : x = .number ['0'] := hx
      have hzero : Shift goal base ⟨outer, here, none⟩ ⟨.number ['0'], l⟩ _ := .number (by decide)
      obtain ⟨u, hrun, hu⟩ := exists_run?_closing outer here _ hrest
      exact ⟨u, run?_cons_eq_some_iff.2 ⟨_, hzero, hrun⟩, hu⟩

theorem scanned_zero : (Lexeme.number ['0']).Scanned :=
  .number (by simp) (by simp)

theorem scanned_completion (s : Reading) : ∀ x ∈ s.completion, x.Scanned := by
  have hclose : ∀ x ∈ List.replicate s.outer.length Lexeme.closeParen, x.Scanned := by
    intro x hx
    rw [List.eq_of_mem_replicate hx]
    exact .symbol (c := ')') (by decide) (by decide)
  unfold completion
  cases s.operand with
  | none => exact List.forall_mem_cons.2 ⟨scanned_zero, hclose⟩
  | some e => exact hclose

end Reading

/-- A text is accepted if all its tokens are taken and an expression is complete. -/
theorem exists_parse_eq_ok_iff {source : String} :
    (∃ e, parse source = .ok e) ↔
      ∃ s, Reading.start.run? .expression 0 (tokenize source).dropLast = some s ∧
        s.phase = (0, true) := by
  constructor
  · rintro ⟨e, he⟩
    obtain ⟨taken, s, t, hstop⟩ := StopsAt.exists_stopsAt source
    rw [hstop.parse_eq] at he
    obtain ⟨ht, hs⟩ := Reading.verdict_eq_ok_iff.1 he
    refine ⟨s, ?_, Reading.phase_eq_iff.2 ⟨e, hs⟩⟩
    rw [← hstop.taken_eq_of_endOfInput ht]
    exact hstop.run
  · rintro ⟨s, hrun, hs⟩
    obtain ⟨e, he⟩ := Reading.phase_eq_iff.1 hs
    rw [dropLast_tokenize] at hrun
    have hstop : StopsAt source _ s _ := ⟨⟨[], tokenize_eq source⟩, hrun, s.shift?_endOfInput _⟩
    exact ⟨e, hstop.parse_eq.trans (Reading.verdict_eq_ok_iff.2 ⟨rfl, he⟩)⟩

/-- Some accepted text has tokens that begin with `xs`. -/
def Viable (xs : List Lexeme) : Prop :=
  ∃ source e, parse source = .ok e ∧ xs <+: (tokenize source).map Token.lexeme

theorem Viable.mono {xs ys : List Lexeme} (h : Viable ys) (hxs : xs <+: ys) : Viable xs := by
  obtain ⟨source, e, he, hys⟩ := h
  exact ⟨source, e, he, hxs.trans hys⟩

/-- Whatever has been taken can be completed. -/
theorem viable_of_run? {ts : List Token} {s : Reading}
    (hrun : Reading.start.run? .expression 0 ts = some s) (hts : ∀ t ∈ ts, t.lexeme.Scanned) :
    Viable (ts.map Token.lexeme) := by
  let xs := ts.map Token.lexeme ++ s.completion
  have hxs : ∀ x ∈ xs, x.Scanned := by
    intro x hx
    rcases List.mem_append.1 hx with hx | hx
    · obtain ⟨t, ht, rfl⟩ := List.mem_map.1 hx
      exact hts t ht
    · exact s.scanned_completion x hx
  let source := String.ofList (spaced xs)
  have htokens : (tokenize source).dropLast.map Token.lexeme = xs := by
    rw [List.map_dropLast, map_lexeme_tokenize, List.dropLast_concat, String.toList_ofList,
      lexemes_spaced hxs]
  obtain ⟨us, vs, hsplit, hus, hvs⟩ := List.map_eq_append_iff.1 htokens
  obtain ⟨s', hrun', hphase⟩ := Reading.exists_run?_of_map_eq hrun rfl hus.symm
  have hcompletion : s.completion = s'.completion := by
    obtain ⟨hlen, hop⟩ := Prod.mk.inj hphase
    unfold Reading.completion
    rw [hlen]
    cases hs : s.operand <;> cases hs' : s'.operand <;> simp_all
  obtain ⟨u, hu, hfinal⟩ := Reading.exists_run?_completion (hvs.trans hcompletion)
  have haccept : ∃ e, parse source = .ok e := by
    refine exists_parse_eq_ok_iff.2 ⟨u, ?_, hfinal⟩
    rw [hsplit]
    exact Reading.run?_append_eq_some_iff.2 ⟨s', hrun', hu⟩
  obtain ⟨e, he⟩ := haccept
  refine ⟨source, e, he, ?_⟩
  rw [map_lexeme_tokenize, String.toList_ofList, lexemes_spaced hxs, List.append_assoc]
  exact List.prefix_append _ _

/-- Tokens with viable lexemes are all taken. -/
theorem exists_run?_of_viable {ts : List Token} (h : Viable (ts.map Token.lexeme))
    (hts : ∀ t ∈ ts, t.lexeme ≠ .endOfInput) :
    ∃ s, Reading.start.run? .expression 0 ts = some s := by
  obtain ⟨source, e, he, hbegin⟩ := h
  obtain ⟨s, hrun, -⟩ := exists_parse_eq_ok_iff.1 ⟨e, he⟩
  rw [dropLast_tokenize] at hrun
  rw [tokenize_eq, List.map_append] at hbegin
  rcases List.prefix_concat_iff.1 hbegin with hall | ⟨rest, hrest⟩
  · have hmem : Lexeme.endOfInput ∈ ts.map Token.lexeme := by
      rw [hall]
      simp
    obtain ⟨t, ht, hx⟩ := List.mem_map.1 hmem
    exact absurd hx (hts t ht)
  · obtain ⟨us, vs, hsplit, hus, -⟩ := List.map_eq_append_iff.1 hrest.symm
    rw [hsplit] at hrun
    obtain ⟨u, hu, -⟩ := Reading.run?_append_eq_some_iff.1 hrun
    obtain ⟨u', hu', -⟩ := Reading.exists_run?_of_map_eq hu rfl hus
    exact ⟨u', hu'⟩

/-- Tokens after which an accepted text may end complete an expression. -/
theorem phase_of_viable_endOfInput {ts : List Token} {s : Reading}
    (h : Viable (ts.map Token.lexeme ++ [.endOfInput]))
    (hrun : Reading.start.run? .expression 0 ts = some s) : s.phase = (0, true) := by
  obtain ⟨source, e, he, hbegin⟩ := h
  obtain ⟨u, hu, hphase⟩ := exists_parse_eq_ok_iff.1 ⟨e, he⟩
  rw [dropLast_tokenize] at hu
  rw [tokenize_eq, List.map_append] at hbegin
  rcases List.prefix_concat_iff.1 hbegin with hall | hall
  · have hmap := (List.append_inj' hall rfl).1
    obtain ⟨u', hu', hphase'⟩ := Reading.exists_run?_of_map_eq hu rfl hmap.symm
    obtain rfl : u' = s := Option.some.inj (hu'.symm.trans hrun)
    exact hphase'.symm.trans hphase
  · have hmem : Lexeme.endOfInput ∈ (Cursor.ofString source).scan.tokens.map Token.lexeme :=
      hall.subset (by simp)
    obtain ⟨t, ht, hx⟩ := List.mem_map.1 hmem
    exact absurd hx (Cursor.lexeme_ne_endOfInput_of_mem ht)

/-- A factor may come after `xs`: some accepted text goes on with a number there. -/
def FactorMayStart (xs : List Lexeme) : Prop :=
  ∃ digits, Viable (xs ++ [.number digits])

/-- `err` is the right complaint about `t`, in a place where a factor may start if
`factor` holds. -/
def Explains (err : ParseError) (t : Token) (factor : Prop) : Prop :=
  match t.lexeme with
  | .invalid c => err = .unexpectedCharacter c t.location
  | .number digits =>
      (factor → err = .literalOutOfRange digits t.location) ∧
        (¬ factor → ∃ expected, err = .unexpectedToken expected t.kind t.location)
  | .openParen =>
      (factor → err = .nestingTooDeep t.location) ∧
        (¬ factor → ∃ expected, err = .unexpectedToken expected t.kind t.location)
  | _ => ∃ expected, err = .unexpectedToken expected t.kind t.location

theorem Reading.explains_blame (s : Reading) (t : Token) :
    Explains (s.blame t) t (s.operand = none) := by
  obtain ⟨outer, here, operand⟩ := s
  obtain ⟨x, l⟩ := t
  cases operand <;> cases x <;> simp [Explains, blame, Token.kind]

theorem Reading.location_blame (s : Reading) (t : Token) : (s.blame t).location = t.location := by
  obtain ⟨outer, here, operand⟩ := s
  obtain ⟨x, l⟩ := t
  cases operand <;> cases x <;> rfl

namespace StopsAt

variable {source : String} {taken : List Token} {s : Reading} {t : Token}

theorem taken_isPrefix (h : StopsAt source taken s t) : taken <+: (tokenize source).dropLast := by
  obtain ⟨post, htokens⟩ := h.tokens
  rw [htokens, List.dropLast_append_cons]
  exact List.prefix_append _ _

theorem scanned_of_mem (h : StopsAt source taken s t) {u : Token} (hu : u ∈ taken) :
    u.lexeme.Scanned := by
  have hmem := h.taken_isPrefix.subset hu
  rw [dropLast_tokenize] at hmem
  apply scanned_of_mem_lexemes
  rw [← Cursor.map_lexeme_scan (.ofString source)]
  exact List.mem_map_of_mem hmem

theorem ne_endOfInput_of_mem (h : StopsAt source taken s t) {u : Token} (hu : u ∈ taken) :
    u.lexeme ≠ .endOfInput := by
  have hmem := h.taken_isPrefix.subset hu
  rw [dropLast_tokenize] at hmem
  exact Cursor.lexeme_ne_endOfInput_of_mem hmem

theorem viable_taken (h : StopsAt source taken s t) : Viable (taken.map Token.lexeme) :=
  viable_of_run? h.run fun _ hu => h.scanned_of_mem hu

/-- A token with which a viable text goes on is taken. -/
theorem exists_shift_of_viable (h : StopsAt source taken s t) {u : Token}
    (hviable : Viable ((taken ++ [u]).map Token.lexeme)) (hu : u.lexeme ≠ .endOfInput) :
    ∃ v, Reading.Shift .expression 0 s u v := by
  have hne : ∀ w ∈ taken ++ [u], w.lexeme ≠ .endOfInput := by
    intro w hw
    rcases List.mem_append.1 hw with hw | hw
    · exact h.ne_endOfInput_of_mem hw
    · rwa [List.mem_singleton.1 hw]
  obtain ⟨v, hv⟩ := exists_run?_of_viable hviable hne
  obtain ⟨s', hs', hrun⟩ := Reading.run?_append_eq_some_iff.1 hv
  obtain rfl : s' = s := Option.some.inj (hs'.symm.trans h.run)
  obtain ⟨v, hv, -⟩ := Reading.run?_cons_eq_some_iff.1 hrun
  exact ⟨v, hv⟩

theorem factorMayStart_iff (h : StopsAt source taken s t) :
    FactorMayStart (taken.map Token.lexeme) ↔ s.operand = none := by
  constructor
  · rintro ⟨digits, hviable⟩
    have hviable' :
        Viable ((taken ++ [Token.mk (.number digits) t.location]).map Token.lexeme) := by
      simpa using hviable
    obtain ⟨v, hv⟩ := h.exists_shift_of_viable hviable' (by simp)
    cases hv with
    | number => rfl
  · intro hs
    obtain ⟨outer, here, operand⟩ := s
    obtain rfl : operand = none := hs
    have hzero : Reading.Shift .expression 0 ⟨outer, here, none⟩ ⟨.number ['0'], t.location⟩ _ :=
      .number (by decide)
    have hrun : Reading.start.run? .expression 0 (taken ++ [⟨.number ['0'], t.location⟩]) = _ :=
      Reading.run?_append_eq_some_iff.2
        ⟨_, h.run, Reading.run?_cons_eq_some_iff.2 ⟨_, hzero, Reading.run?_nil _⟩⟩
    refine ⟨['0'], ?_⟩
    have hviable := viable_of_run? hrun fun u hu => ?_
    · simpa using hviable
    · rcases List.mem_append.1 hu with hu | hu
      · exact h.scanned_of_mem hu
      · obtain rfl := List.mem_singleton.1 hu
        exact Reading.scanned_zero

/-- Nothing completes what has been taken together with the refused token. -/
theorem not_viable (h : StopsAt source taken s t) {err : ParseError}
    (herr : parse source = .error err) : ¬ Viable ((taken ++ [t]).map Token.lexeme) := by
  intro hviable
  by_cases ht : t.lexeme = .endOfInput
  · rw [h.parse_eq] at herr
    have hnone := (Reading.verdict_eq_error herr).2 ht
    rw [List.map_append, List.map_singleton, ht] at hviable
    obtain ⟨e, he⟩ := Reading.phase_eq_iff.1 (phase_of_viable_endOfInput hviable h.run)
    rw [hnone] at he
    cases he
  · obtain ⟨v, hv⟩ := h.exists_shift_of_viable hviable ht
    exact absurd (h.refused.symm.trans hv.shift?_eq) (by simp)

end StopsAt

/-- `err` blames token `k` of a text, which is `t`: no accepted text begins like this
one up to and including `t`, some accepted text does up to every earlier token, and
the error is the one that `t` deserves where it stands. -/
structure Blames (source : String) (err : ParseError) (k : Nat) (t : Token) : Prop where
  token : (tokenize source)[k]? = some t
  location : err.location = t.location
  hopeless : ¬ Viable (((tokenize source).take (k + 1)).map Token.lexeme)
  earlier : ∀ j < k, Viable (((tokenize source).take (j + 1)).map Token.lexeme)
  before : Viable (((tokenize source).take k).map Token.lexeme)
  explained : Explains err t (FactorMayStart (((tokenize source).take k).map Token.lexeme))

/-- A text that is not accepted is blamed on the first of its tokens, the end of the
input included, after which nothing can be completed. -/
theorem parse_error_is_earliest {source : String} {err : ParseError}
    (h : parse source = .error err) : ∃ k t, Blames source err k t := by
  obtain ⟨taken, s, t, hstop⟩ := StopsAt.exists_stopsAt source
  obtain ⟨post, htokens⟩ := hstop.tokens
  have hblame : err = s.blame t := by
    rw [hstop.parse_eq] at h
    exact (Reading.verdict_eq_error h).1
  have htake : (tokenize source).take taken.length = taken := by
    rw [htokens, List.take_left]
  have htake' : (tokenize source).take (taken.length + 1) = taken ++ [t] := by
    rw [htokens, List.take_length_add_append]
    rfl
  refine ⟨taken.length, t, ?_, ?_, ?_, ?_, ?_, ?_⟩
  · simp [htokens]
  · rw [hblame, s.location_blame]
  · rw [htake']
    exact hstop.not_viable h
  · intro j hj
    refine hstop.viable_taken.mono (List.IsPrefix.map _ ?_)
    rw [htokens, List.take_append_of_le_length hj]
    exact List.take_prefix _ _
  · rw [htake]
    exact hstop.viable_taken
  · rw [htake, hblame]
    simpa only [hstop.factorMayStart_iff] using s.explains_blame t

/-- An unclosed group is blamed on the end of the input. -/
theorem parse_error_is_earliest_unclosed :
    parse "(1 + 2" = .error (.unexpectedToken .closeParen .endOfInput ⟨6, 1, 7⟩) ∧
      ∃ k t, Blames "(1 + 2" (.unexpectedToken .closeParen .endOfInput ⟨6, 1, 7⟩) k t := by
  have hscan : (Cursor.ofString "(1 + 2").scan =
      ⟨[⟨.openParen, ⟨0, 1, 1⟩⟩, ⟨.number ['1'], ⟨1, 1, 2⟩⟩, ⟨.operator .add, ⟨3, 1, 4⟩⟩,
        ⟨.number ['2'], ⟨5, 1, 6⟩⟩], ⟨6, 1, 7⟩⟩ := by
    decide +kernel
  have h : parse "(1 + 2" = .error (.unexpectedToken .closeParen .endOfInput ⟨6, 1, 7⟩) := by
    rw [parse_eq_verdict_advance, hscan]
    rfl
  exact ⟨h, parse_error_is_earliest h⟩

end StepCalc
