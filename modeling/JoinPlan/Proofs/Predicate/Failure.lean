import JoinPlan.Proofs.Predicate.Tokens
/-!
# How readers fail

For each way to put readers together, with which report it fails, whether what it looks for is
absent or broken. A report is that of the token at which reading stopped, and what was being read
around it is added in front of that token.

Results:
* `bind_error?_eq_some_iff`, `within_error?_eq_some_iff`, `spaced_error?`, `required_error?`,
  `symbol_error?_eq_some_iff`: the combinators.
* `Advances.spaced`: what is handed on is an end of the text.
* `keyword_error?_eq_some_iff`, `quoted_error?`, `literal_error?`: the tokens.
* `ArgumentsFailure.of_error?`: the places at which the arguments of a comparison can be wrong.
-/
namespace JoinPlan

/-- The report of an attempt that failed, in whichever way. -/
def Outcome.error? {α : Type} : Outcome α → Option SyntaxError
  | .read _ _ => none
  | .absent e => some e
  | .broken e => some e

/-- The report that a symbol is missing which `cause` tells. -/
def SyntaxError.missing (cause : Cause) (s : List Char) : SyntaxError :=
  (single .character (Text.skipSpacing s)).within cause s

namespace SyntaxError

variable (e : SyntaxError) (cause : Cause) (s : List Char)

@[simp] theorem innermost_single : (single cause s).innermost = ⟨cause, s⟩ := rfl

@[simp] theorem innermost_within : (e.within cause s).innermost = e.innermost := rfl

@[simp] theorem innermost_missing :
    (missing cause s).innermost = ⟨.character, Text.skipSpacing s⟩ := rfl

end SyntaxError

namespace Parser
open Text

variable {α β : Type} {s : List Char} {e : SyntaxError}

theorem error?_of_absent {o : Outcome α} (h : o = .absent e) : o.error? = some e := by
  rw [h]
  rfl

theorem error?_of_broken {o : Outcome α} (h : o = .broken e) : o.error? = some e := by
  rw [h]
  rfl

/-! ## Combinators -/

theorem pure_error? (a : α) (s : List Char) : ((pure a : Parser α) s).error? = none := rfl

theorem bind_error?_eq_some_iff {p : Parser α} {f : α → Parser β} :
    ((p >>= f) s).error? = some e ↔
      (p s).error? = some e ∨ ∃ a t, p s = .read a t ∧ (f a t).error? = some e := by
  rw [bind_apply]
  cases h : p s <;> simp [Outcome.error?]

theorem bind_eq_absent_iff {p : Parser α} {f : α → Parser β} :
    (p >>= f) s = .absent e ↔ p s = .absent e ∨ ∃ a t, p s = .read a t ∧ f a t = .absent e := by
  rw [bind_apply]
  cases h : p s <;> simp

theorem bind_eq_broken_iff {p : Parser α} {f : α → Parser β} :
    (p >>= f) s = .broken e ↔ p s = .broken e ∨ ∃ a t, p s = .read a t ∧ f a t = .broken e := by
  rw [bind_apply]
  cases h : p s <;> simp

theorem within_error?_eq_some_iff {cause : Cause} {p : Parser α} :
    (within cause p s).error? = some e ↔ ∃ e', (p s).error? = some e' ∧ e = e'.within cause s := by
  unfold within
  cases p s <;> simp [Outcome.error?, eq_comm]

theorem required_error? (p : Parser α) (s : List Char) :
    (required p s).error? = (p s).error? := by
  unfold required
  cases p s <;> rfl

theorem required_ne_absent (p : Parser α) (s : List Char) (e : SyntaxError) :
    required p s ≠ .absent e := by
  unfold required
  cases p s <;> simp

theorem within_required_ne_absent (cause : Cause) (p : Parser α) (s : List Char)
    (e : SyntaxError) : within cause (required p) s ≠ .absent e := by
  unfold within required
  cases p s <;> simp

theorem spaced_eq_absent_iff {p : Parser α} :
    spaced p s = .absent e ↔ p (skipSpacing s) = .absent e := by
  unfold spaced
  cases p (skipSpacing s) <;> simp

theorem spaced_error? (p : Parser α) (s : List Char) :
    (spaced p s).error? = (p (skipSpacing s)).error? := by
  unfold spaced
  cases p (skipSpacing s) <;> rfl

theorem character_error?_eq_some_iff {c : Char} :
    (character c s).error? = some e ↔ startsWith (· = c) s = false ∧ e = .single .character s := by
  cases s with
  | nil => simp [character, Outcome.error?, eq_comm]
  | cons d s =>
    by_cases h : d = c
    · simp [character, Outcome.error?, h]
    · simp [character, Outcome.error?, h, eq_comm (a := e)]

theorem symbol_error?_eq_some_iff {c : Char} : (symbol c s).error? = some e ↔
    startsWith (· = c) (skipSpacing s) = false ∧ e = .single .character (skipSpacing s) := by
  rw [symbol, spaced_error?, character_error?_eq_some_iff]

theorem missing_symbol_iff {cause : Cause} {c : Char} :
    (within cause (symbol c) s).error? = some e ↔
      startsWith (· = c) (skipSpacing s) = false ∧ e = .missing cause s := by
  simp only [within_error?_eq_some_iff, symbol_error?_eq_some_iff]
  constructor
  · rintro ⟨e', ⟨hc, rfl⟩, rfl⟩
    exact ⟨hc, rfl⟩
  · rintro ⟨hc, rfl⟩
    exact ⟨_, ⟨hc, rfl⟩, rfl⟩

/-- A character is there or absent, never broken. -/
theorem character_ne_broken (c : Char) (s : List Char) (e : SyntaxError) :
    character c s ≠ .broken e := by
  unfold character
  cases s with
  | nil => simp
  | cons d t => by_cases h : d = c <;> simp [h]

theorem symbol_ne_broken (c : Char) (s : List Char) (e : SyntaxError) :
    symbol c s ≠ .broken e := by
  unfold symbol spaced
  cases h : character c (skipSpacing s) with
  | read a r => simp
  | absent e' => simp
  | broken e' => exact absurd h (character_ne_broken c _ e')

theorem optional_symbol_error? (c : Char) (s : List Char) :
    (optional (symbol c) s).error? = none := by
  unfold optional orElse
  cases h : symbol c s with
  | read a r => rfl
  | absent e => rfl
  | broken e => exact absurd h (symbol_ne_broken c s e)

/-! ## Rests -/

/-- A reader hands on an end of the text. -/
def Advances (p : Parser α) : Prop := ∀ s a r, p s = .read a r → r <:+ s

theorem skipSpacing_suffix (s : List Char) : skipSpacing s <:+ s :=
  List.dropWhile_suffix isSpacing

theorem Advances.spaced {p : Parser α} (hp : Advances p) : Advances (spaced p) := by
  intro s a r h
  obtain ⟨v, t, w, -, -, rfl, ht, -⟩ := exists_of_spaced h
  exact (List.suffix_append w r).trans ((hp t a _ ht).trans (List.suffix_append v t))

theorem advances_symbol (c : Char) : Advances (symbol c) := by
  refine Advances.spaced fun s a r h => ?_
  rw [character_eq_read_iff.1 h]
  exact List.suffix_cons c r

theorem advances_keyword : Advances keyword := by
  intro s w r h
  rw [eq_append_of_keyword h]
  exact List.suffix_append _ r

theorem advances_quoted : Advances quoted := by
  intro s t r h
  obtain ⟨u, -, rfl⟩ := quoted_eq_read_iff.1 h
  exact List.suffix_append u r

theorem advances_literal : Advances literal := by
  intro s v r h
  obtain ⟨u, -, rfl⟩ := exists_of_literal h
  exact List.suffix_append u r

/-! ## Tokens -/

theorem splitKeyword_eq_nil_iff :
    (splitKeyword s).1 = [] ↔ startsWith Char.isAlpha s = false := by
  have hletters : s.takeWhile Char.isAlpha = [] ↔ startsWith Char.isAlpha s = false := by
    cases s with
    | nil => simp
    | cons c s => simp [List.takeWhile_cons]
  rw [← hletters]
  unfold splitKeyword
  split
  · rename_i htake _
    simp [htake]
  · exact Iff.rfl

/-- A keyword is missing where no letter stands. -/
theorem keyword_error?_eq_some_iff : (keyword s).error? = some e ↔
    startsWith Char.isAlpha s = false ∧ e = .single .keyword s := by
  rw [← splitKeyword_eq_nil_iff]
  unfold keyword
  split
  · rename_i h
    simp [h, Outcome.error?, eq_comm (a := e)]
  · rename_i hne h
    have hword : (splitKeyword s).1 ≠ [] := by
      rw [h]
      exact hne
    simp [Outcome.error?, hword]

/-- **Keywords.** A keyword is absent where no letter stands, and never broken. -/
theorem keyword_eq_absent_iff : keyword s = .absent e ↔
    startsWith Char.isAlpha s = false ∧ e = .single .keyword s := by
  rw [← keyword_error?_eq_some_iff]
  unfold keyword
  split <;> simp [Outcome.error?]

theorem quotedBy_ne_broken (quote : Char) (s : List Char) (e : SyntaxError) :
    quotedBy quote s ≠ .broken e := by
  intro h
  simp only [quotedBy, bind_eq_broken_iff] at h
  rcases h with h | ⟨_, t, _, h | ⟨body, r, _, h | ⟨_, _, _, h⟩⟩⟩
  · exact character_ne_broken _ _ _ h
  · cases h
  · exact character_ne_broken _ _ _ h
  · cases h

/-- A quoted text is not there, or it is begun and has no end. -/
theorem quotedBy_error? {quote : Char} (h : (quotedBy quote s).error? = some e) :
    e = .single .character s ∨
      ∃ body, quote ∉ body ∧ s = quote :: body ∧ e = .single .character [] := by
  simp only [quotedBy, bind_error?_eq_some_iff, character_error?_eq_some_iff,
    character_eq_read_iff, pure_error?] at h
  rcases h with ⟨-, rfl⟩ | ⟨_, t, rfl, h | ⟨body, r, hup, ⟨hr, rfl⟩ | ⟨_, _, _, h⟩⟩⟩
  · exact .inl rfl
  · cases h
  · -- what is left starts with the quote, unless nothing is left
    obtain ⟨-, hdrop⟩ := Outcome.read.inj hup
    have hstop := startsWith_dropWhile (fun c => decide (c ≠ quote)) t
    rw [hdrop] at hstop
    cases r with
    | nil =>
      refine .inr ⟨t, fun hmem => ?_, rfl, rfl⟩
      simpa using List.dropWhile_eq_nil_iff.1 hdrop quote hmem
    | cons c r =>
      simp only [startsWith_cons, decide_eq_false_iff_not, not_not] at hr hstop
      exact absurd hstop hr
  · cases h

/-- The report on a quoted text is that on one between single quotes. -/
theorem quoted_error? (h : (quoted s).error? = some e) :
    e = .single .character s ∨
      ∃ body, '\'' ∉ body ∧ s = '\'' :: body ∧ e = .single .character [] := by
  refine quotedBy_error? ?_
  unfold quoted orElse at h
  cases hdouble : quotedBy '"' s with
  | read t r => rw [hdouble] at h; cases h
  | absent e' => rw [hdouble] at h; exact h
  | broken e' => exact absurd hdouble (quotedBy_ne_broken _ _ _)

theorem word_error? (h : (word s).error? = some e) : ∃ cause, e = .single cause s := by
  unfold word at h
  cases hk : keyword s with
  | read w r =>
    rw [hk] at h
    cases hv : Literal.ofWord? w with
    | some v => simp only [hv] at h; cases h
    | none => simp only [hv] at h; exact ⟨_, (Option.some.inj h).symm⟩
  | absent e' =>
    rw [hk] at h
    obtain rfl := Option.some.inj h
    exact ⟨_, (keyword_error?_eq_some_iff.1 (error?_of_absent hk)).2⟩
  | broken e' =>
    rw [hk] at h
    obtain rfl := Option.some.inj h
    exact ⟨_, (keyword_error?_eq_some_iff.1 (error?_of_broken hk)).2⟩

/-- A value is wrong from its beginning on. -/
theorem literal_error? (h : (literal s).error? = some e) : ∃ cause, e = .single cause s := by
  unfold literal at h
  split at h
  · cases h
  · split at h
    · rename_i n rest hn
      rw [number_text (Numeral.scan?_wellFormed hn)] at h
      split at h
      · cases h
      · exact ⟨_, (Option.some.inj h).symm⟩
    · exact word_error? h

/-! ## Arguments -/

/-- The places at which the arguments of a comparison can be wrong, with the report. -/
inductive ArgumentsFailure : List Char → SyntaxError → Prop where
  | openBracket {s : List Char} (h : startsWith (· = '[') (skipSpacing s) = false) :
    ArgumentsFailure s (.missing .openArguments s)
  | identifier {s t₁ : List Char} {e : SyntaxError} (h₁ : symbol '[' s = .read () t₁)
    (h : (quoted (skipSpacing t₁)).error? = some e) :
    ArgumentsFailure s (e.within .identifier t₁)
  | comma {s t₁ t₂ : List Char} {id : String} (h₁ : symbol '[' s = .read () t₁)
    (h₂ : spaced quoted t₁ = .read id t₂) (h : startsWith (· = ',') (skipSpacing t₂) = false) :
    ArgumentsFailure s (.missing .argumentComma t₂)
  | value {s t₁ t₂ t₃ : List Char} {id : String} {e : SyntaxError}
    (h₁ : symbol '[' s = .read () t₁) (h₂ : spaced quoted t₁ = .read id t₂)
    (h₃ : symbol ',' t₂ = .read () t₃) (h : (literal (skipSpacing t₃)).error? = some e) :
    ArgumentsFailure s (e.within .value t₃)
  | closeBracket {s t₁ t₂ t₃ t₄ : List Char} {id : String} {v : Literal}
    (h₁ : symbol '[' s = .read () t₁) (h₂ : spaced quoted t₁ = .read id t₂)
    (h₃ : symbol ',' t₂ = .read () t₃) (h₄ : spaced literal t₃ = .read v t₄)
    (h : startsWith (· = ']') (skipSpacing t₄) = false) :
    ArgumentsFailure s (.missing .closeArguments t₄)

theorem ArgumentsFailure.of_error? (h : (arguments s).error? = some e) : ArgumentsFailure s e := by
  simp only [arguments, bind_error?_eq_some_iff, within_eq_read_iff, pure_error?, reduceCtorEq,
    and_false, exists_false, or_false] at h
  rcases h with h | ⟨_, t₁, h₁, h | ⟨id, t₂, h₂, h | ⟨_, t₃, h₃, h | ⟨v, t₄, h₄, h⟩⟩⟩⟩
  · obtain ⟨hc, rfl⟩ := missing_symbol_iff.1 h
    exact .openBracket hc
  · obtain ⟨e', he, rfl⟩ := within_error?_eq_some_iff.1 h
    exact .identifier h₁ (by rwa [spaced_error?] at he)
  · obtain ⟨hc, rfl⟩ := missing_symbol_iff.1 h
    exact .comma h₁ h₂ hc
  · obtain ⟨e', he, rfl⟩ := within_error?_eq_some_iff.1 h
    exact .value h₁ h₂ h₃ (by rwa [spaced_error?] at he)
  · obtain ⟨hc, rfl⟩ := missing_symbol_iff.1 h
    exact .closeBracket h₁ h₂ h₃ h₄ hc

end Parser
end JoinPlan
