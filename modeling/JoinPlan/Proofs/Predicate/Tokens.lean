import JoinPlan.Proofs.Number.Reading
import JoinPlan.Proofs.Predicate.Reading
/-!
# Reading tokens

A keyword, a numeral and a bare word are read as far as they go, so each is found again in front of
a text with which it does not go on. A quoted text ends at its second quote whatever follows.

Results:
* `operator_eq_read_iff`, `quoted_eq_read_iff`: an operator with its colon, a quoted text.
* `exists_of_literal`, `literal_of_value`: what is read as a value is one, and every value is read.
* `arguments_eq_read_iff`: the arguments of a comparison.
-/
namespace JoinPlan

/-- The value that a numeral stands for: an integer if it is written as one and is in range, else
the nearest double, if that is finite. -/
def Numeral.literal? (n : Numeral) : Option Literal :=
  if n.isIntegral ∧ Int64.minValue.toInt ≤ n.integer ∧ n.integer ≤ Int64.maxValue.toInt then
    some (.integer (Int64.ofInt n.integer))
  else
    match n.toBinary64 with
    | .finite negative x => some (.float (.finite negative x))
    | _ => none

namespace Parser
open Text Grammar

variable {s r : List Char}

/-! ## Keywords -/

/-- The characters with which a keyword may go on. -/
def wordGoesOn (c : Char) : Bool := c.isAlphanum || c = '_'

theorem keywordTail_cons {c : Char} (hc : c.isAlphanum = true) (s : List Char) :
    keywordTail (c :: s) = (c :: (keywordTail s).1, (keywordTail s).2) := by
  rw [keywordTail.eq_def]
  split
  · rename_i e; cases e; cases hc
  · rename_i e; cases e; rw [if_pos hc]
  · rename_i e; cases e

theorem keywordTail_stop (hr : startsWith wordGoesOn r = false) : keywordTail r = ([], r) := by
  cases r with
  | nil => rfl
  | cons c r =>
    simp only [startsWith_cons, wordGoesOn, Bool.or_eq_false_iff, decide_eq_false_iff_not] at hr
    rw [keywordTail.eq_def]
    split
    · rename_i e; cases e; exact absurd rfl hr.2
    · rename_i e; cases e; simp [hr.1]
    · rename_i e; cases e

theorem keywordTail_append_of_stop (hr : startsWith wordGoesOn r = false) {w : List Char}
    (hw : keywordTail w = (w, [])) : keywordTail (w ++ r) = (w, r) := by
  fun_induction keywordTail w with
  | case1 c w hc tail rest heq ih =>
    simp only [Prod.mk.injEq, List.cons.injEq, true_and] at hw
    obtain ⟨rfl, rfl⟩ := hw
    simp only [List.cons_append, keywordTail, hc, ↓reduceIte, ih heq]
  | case2 c w hc => simp at hw
  | case3 c w hne hc tail rest heq ih =>
    simp only [Prod.mk.injEq, List.cons.injEq, true_and] at hw
    obtain ⟨rfl, rfl⟩ := hw
    rw [List.cons_append, keywordTail_cons hc, ih heq]
  | case4 c w hne hc => simp at hw
  | case5 => exact keywordTail_stop hr

theorem splitKeyword_append_of_stop (hr : startsWith wordGoesOn r = false) {w : List Char}
    (hw : splitKeyword w = (w, [])) : splitKeyword (w ++ r) = (w, r) := by
  have halpha : startsWith Char.isAlpha r = false :=
    startsWith_eq_false_of_imp (fun c hc => by simp [wordGoesOn, Char.isAlphanum, hc]) hr
  have hsplit : w.takeWhile Char.isAlpha ++ w.dropWhile Char.isAlpha = w :=
    List.takeWhile_append_dropWhile
  have hletters : ∀ c ∈ w.takeWhile Char.isAlpha, c.isAlpha = true :=
    fun _ hc => List.mem_takeWhile_imp hc
  unfold splitKeyword at hw
  split at hw
  · rename_i c letters rest htake hdrop
    rw [htake, hdrop] at hsplit
    rw [htake] at hletters
    have htail : keywordTail ('_' :: rest) = ('_' :: rest, []) := by
      simp only [Prod.mk.injEq] at hw
      exact Prod.ext (List.append_cancel_left (hw.1.trans hsplit.symm)) hw.2
    have hstop : startsWith Char.isAlpha (('_' :: rest) ++ r) = false := rfl
    have happend := keywordTail_append_of_stop hr htail
    rw [← hsplit, List.append_assoc]
    unfold splitKeyword
    rw [takeWhile_append_of_stop hletters hstop, dropWhile_append_of_stop hletters hstop]
    rw [List.cons_append] at happend ⊢
    simp only [happend]
  · obtain ⟨htake, hdrop⟩ := Prod.mk.inj hw
    rw [htake] at hletters
    unfold splitKeyword
    rw [takeWhile_append_of_stop hletters halpha, dropWhile_append_of_stop hletters halpha]
    split
    · exact absurd hr (by simp [wordGoesOn])
    · rfl

theorem splitKeyword_of_isAlpha {w : List Char} (hw : ∀ c ∈ w, c.isAlpha = true) :
    splitKeyword w = (w, []) := by
  have h := takeWhile_append_of_stop hw (startsWith_nil Char.isAlpha)
  have h' := dropWhile_append_of_stop hw (startsWith_nil Char.isAlpha)
  rw [List.append_nil] at h h'
  unfold splitKeyword
  rw [h, h']
  split
  · rename_i e; cases e
  · rfl

theorem splitKeyword_keyword (op : Operator) :
    splitKeyword op.keyword.toList = (op.keyword.toList, []) := by
  rcases op with op | op <;> cases op <;> decide

theorem keyword_of_stop (hr : startsWith wordGoesOn r = false) {w : List Char} (hne : w ≠ [])
    (hw : splitKeyword w = (w, [])) : keyword (w ++ r) = .read (String.ofList w) r := by
  unfold keyword
  rw [splitKeyword_append_of_stop hr hw]
  split
  · rename_i e; cases e; exact absurd rfl hne
  · rename_i e; cases e; rfl

theorem eq_append_of_keyword {w : String} (h : keyword s = .read w r) : s = w.toList ++ r := by
  have hs := splitKeyword_append s
  unfold keyword at h
  split at h
  · cases h
  · rename_i u rest _ e
    cases h
    rw [e] at hs
    rw [String.toList_ofList, hs]

/-! ## Operators -/

theorem startsWith_append_spacing {q : Char → Bool} (hq : ∀ c, isSpacing c = true → q c = false)
    {w t : List Char} (hw : AllSpacing w) (ht : startsWith q t = false) :
    startsWith q (w ++ t) = false := by
  cases w with
  | nil => exact ht
  | cons c w => exact hq c (hw c (by simp))

theorem not_wordGoesOn_of_isSpacing (c : Char) (h : isSpacing c = true) :
    wordGoesOn c = false := by
  simp only [isSpacing, Bool.or_eq_true, decide_eq_true_eq] at h
  rcases h with ((rfl | rfl) | rfl) | rfl <;> decide

/-- The operator of a node, with its colon and spacing around both. -/
theorem operator_eq_read_iff {op : Operator} : operator s = .read op r ↔
    ∃ s₁ s₂ s₃, AllSpacing s₁ ∧ AllSpacing s₂ ∧ AllSpacing s₃ ∧
      s = s₁ ++ (op.keyword.toList ++ (s₂ ++ ':' :: (s₃ ++ r))) ∧
      startsWith isSpacing r = false := by
  simp only [operator, bind_eq_read_iff, within_eq_read_iff, required_eq_read_iff]
  constructor
  · intro h
    obtain ⟨word, t, hword, _, t', hcolon, h⟩ := h
    cases hop : Operator.ofKeyword? word with
    | none => simp only [hop] at h; cases h
    | some op' =>
      simp only [hop] at h
      obtain ⟨rfl, rfl⟩ := pure_eq_read_iff.1 h
      obtain rfl := Operator.ofKeyword?_eq_some_iff.1 hop
      obtain ⟨s₁, u, x, hs₁, hx, rfl, hu, -⟩ := exists_of_spaced hword
      obtain ⟨y, s₃, hy, hs₃, rfl, hr⟩ := (symbol_eq_read_iff (by decide)).1 hcolon
      refine ⟨s₁, x ++ y, s₃, hs₁, hx.append hy, hs₃, ?_, hr⟩
      rw [eq_append_of_keyword hu, List.append_assoc x y]
  · intro h
    obtain ⟨s₁, s₂, s₃, hs₁, hs₂, hs₃, rfl, hr⟩ := h
    obtain ⟨c, u, hcu, hc⟩ := operator_start op
    have hne : op.keyword.toList ≠ [] := by simp [hcu]
    have hcolon : startsWith isSpacing (':' :: (s₃ ++ r)) = false := by simp [isSpacing]
    have hstop : startsWith wordGoesOn (s₂ ++ ':' :: (s₃ ++ r)) = false :=
      startsWith_append_spacing not_wordGoesOn_of_isSpacing hs₂ (by simp [wordGoesOn])
    have hword := keyword_of_stop hstop hne (splitKeyword_keyword op)
    rw [String.ofList_toList] at hword
    have hlead : startsWith isSpacing (op.keyword.toList ++ (s₂ ++ ':' :: (s₃ ++ r))) = false := by
      rw [hcu]; exact not_isSpacing_of_isAlpha hc
    refine ⟨_, _, spaced_of_read hs₁ hs₂ hlead hcolon hword, (), r,
      symbol_of_cons (by decide) hs₃ hr, ?_⟩
    rw [Operator.ofKeyword?_keyword]
    rfl

/-- No operator stands where a block ends. -/
theorem operator_stop (t : List Char) : ∃ e, operator ('\x7d' :: t) = .absent e :=
  ⟨_, rfl⟩

/-! ## Quoted texts -/

theorem quotedBy_eq_read_iff {quote : Char} {t : String} : quotedBy quote s = .read t r ↔
    ∃ body, quote ∉ body ∧ t = String.ofList body ∧ s = quote :: (body ++ quote :: r) := by
  simp only [quotedBy, bind_eq_read_iff, character_eq_read_iff, pure_eq_read_iff]
  constructor
  · intro h
    obtain ⟨_, rest, rfl, body, after, hup, _, _, rfl, rfl, rfl⟩ := h
    simp only [upTo, Outcome.read.injEq] at hup
    obtain ⟨rfl, hdrop⟩ := hup
    refine ⟨_, fun hmem => ?_, rfl, ?_⟩
    · simpa using List.mem_takeWhile_imp hmem
    · rw [← hdrop, List.takeWhile_append_dropWhile]
  · intro h
    obtain ⟨body, hbody, rfl, rfl⟩ := h
    have hne : ∀ c ∈ body, decide (c ≠ quote) = true := by
      intro c hc
      exact decide_eq_true fun h => hbody (h ▸ hc)
    have hstop : startsWith (fun c => decide (c ≠ quote)) (quote :: r) = false := by simp
    refine ⟨(), _, rfl, body, quote :: r, ?_, (), r, rfl, rfl, rfl⟩
    rw [upTo, takeWhile_append_of_stop hne hstop, dropWhile_append_of_stop hne hstop]

theorem quotedBy_absent {quote c : Char} (h : c ≠ quote) (t : List Char) :
    ∃ e, quotedBy quote (c :: t) = .absent e := by
  simp [quotedBy, bind_apply, character, h]

/-- A text between quotes. -/
theorem quoted_eq_read_iff {t : String} :
    quoted s = .read t r ↔ ∃ u, Quoted u t ∧ s = u ++ r := by
  rw [quoted, orElse_eq_read_iff, quotedBy_eq_read_iff, quotedBy_eq_read_iff]
  constructor
  · intro h
    rcases h with ⟨body, hb, rfl, rfl⟩ | ⟨-, body, hb, rfl, rfl⟩
    · exact ⟨_, .mk (.inl rfl) hb, by simp⟩
    · exact ⟨_, .mk (.inr rfl) hb, by simp⟩
  · intro h
    obtain ⟨_, ⟨hq, hb⟩, rfl⟩ := h
    rcases hq with rfl | rfl
    · exact .inl ⟨_, hb, rfl, by simp⟩
    · exact .inr ⟨quotedBy_absent (by decide) _, _, hb, rfl, by simp⟩

theorem quoted_ne_read {c : Char} (h₁ : c ≠ '"') (h₂ : c ≠ '\'') (u : List Char) (t : String) :
    quoted (c :: u) ≠ .read t r := by
  intro h
  obtain ⟨v, hv, he⟩ := quoted_eq_read_iff.1 h
  obtain ⟨d, v', rfl, hd⟩ := hv.start
  rw [List.cons_append] at he
  cases he
  exact hd.elim h₁ h₂

/-! ## Values -/

/-- The range of an integer value is that of the integers of 64 bits. -/
theorem exists_int64_iff {i : Int} :
    (Int64.minValue.toInt ≤ i ∧ i ≤ Int64.maxValue.toInt) ↔ ∃ x : Int64, i = x.toInt := by
  constructor
  · intro h
    obtain ⟨h₁, h₂⟩ := h
    exact ⟨Int64.ofIntLE i h₁ h₂, Int64.toInt_ofIntLE.symm⟩
  · intro h
    obtain ⟨x, rfl⟩ := h
    exact ⟨x.minValue_le_toInt, x.toInt_le⟩

theorem numeral_literal_eq_some_iff {n : Numeral} {v : Literal} : n.literal? = some v ↔
    (∃ i : Int64, n.isIntegral = true ∧ n.integer = i.toInt ∧ v = .integer i) ∨
      (n.isIntegral = true → ∀ i : Int64, n.integer ≠ i.toInt) ∧
        ∃ x, Magnitude.Nearest n.absValue x ∧ v = .float (.finite n.isNegative x) := by
  unfold Numeral.literal?
  split
  · rename_i h
    obtain ⟨hi, i, he⟩ := And.imp_right exists_int64_iff.1 h
    rw [Option.some.injEq, he, Int64.ofInt_toInt]
    constructor
    · rintro rfl
      exact .inl ⟨i, hi, rfl, rfl⟩
    · intro h
      rcases h with ⟨j, -, hj, rfl⟩ | ⟨hne, -⟩
      · rw [Int64.toInt_inj.1 hj]
      · exact absurd rfl (hne hi i)
  · rename_i h
    have hne : n.isIntegral = true → ∀ i : Int64, n.integer ≠ i.toInt :=
      fun hi i he => h ⟨hi, exists_int64_iff.2 ⟨i, he⟩⟩
    constructor
    · intro hv
      split at hv
      · rename_i negative x hx
        obtain ⟨rfl, hnear⟩ := Numeral.toBinary64_eq_finite_iff.1 hx
        exact .inr ⟨hne, x, hnear, (Option.some.inj hv).symm⟩
      · cases hv
    · intro h
      rcases h with ⟨i, hi, he, -⟩ | ⟨-, x, hx, rfl⟩
      · exact absurd he (hne hi i)
      · rw [Numeral.toBinary64_eq_finite_iff.2 ⟨rfl, hx⟩]

/-- What is read from the text of a numeral. The text is never an invalid number. -/
theorem number_text {n : Numeral} (hn : n.WellFormed) (s rest : List Char) :
    number s n.text rest =
      match n.literal? with
      | some v => .read v rest
      | none => .broken (.single .numberRange s) := by
  rw [number, Numeral.readInt64?_text hn, Numeral.readBinary64?_text hn, Numeral.literal?]
  by_cases hint : n.isIntegral ∧ Int64.minValue.toInt ≤ n.integer ∧ n.integer ≤ Int64.maxValue.toInt
  · simp only [if_pos hint]
  · simp only [if_neg hint]
    cases n.toBinary64 <;> rfl

theorem ofWord?_eq_some_iff {w : String} {v : Literal} :
    Literal.ofWord? w = some v ↔ Word w.toList v := by
  constructor
  · intro h
    simp only [Literal.ofWord?] at h
    split at h
    · rename_i hw; cases h; exact .null hw
    · split at h
      · rename_i hw; cases h; exact .boolean hw
      · split at h
        · rename_i hw; cases h; exact .boolean hw
        · cases h
  · intro h
    cases h with
    | null h => simp [Literal.ofWord?, h]
    | @boolean b h => cases b <;> simp [Literal.ofWord?, h]

theorem exists_of_word {v : Literal} (h : word s = .read v r) : ∃ u, Word u v ∧ s = u ++ r := by
  unfold word at h
  split at h
  · rename_i w rest hw
    split at h
    · rename_i value hv
      cases h
      exact ⟨_, ofWord?_eq_some_iff.1 hv, eq_append_of_keyword hw⟩
    · cases h
  · cases h
  · cases h

theorem word_of_word (hr : startsWith wordGoesOn r = false) {u : List Char} {v : Literal}
    (h : Word u v) : word (u ++ r) = .read v r := by
  obtain ⟨hne, ha⟩ := h.isAlpha
  have hv : Literal.ofWord? (String.ofList u) = some v :=
    ofWord?_eq_some_iff.2 (by rwa [String.toList_ofList])
  unfold word
  rw [keyword_of_stop hr hne (splitKeyword_of_isAlpha ha)]
  simp only [hv]

/-- **Soundness.** What is read as a value is one. -/
theorem exists_of_literal {v : Literal} (h : literal s = .read v r) :
    ∃ u, Value u v ∧ s = u ++ r := by
  unfold literal at h
  split at h
  · rename_i t rest hq
    cases h
    obtain ⟨u, hu, rfl⟩ := quoted_eq_read_iff.1 hq
    exact ⟨u, .text hu, rfl⟩
  · split at h
    · rename_i n rest hn
      have hwf := Numeral.scan?_wellFormed hn
      rw [number_text hwf] at h
      split at h
      · rename_i value hv
        cases h
        refine ⟨n.text, ?_, (Numeral.scan?_text hn).symm⟩
        rcases numeral_literal_eq_some_iff.1 hv with ⟨i, hi, he, rfl⟩ | ⟨hi, x, hx, rfl⟩
        · exact .integer hwf hi he
        · exact .float hwf hi hx
      · cases h
    · obtain ⟨u, hu, rfl⟩ := exists_of_word h
      exact ⟨u, .word hu, rfl⟩

/-- The characters with which a value may go on. -/
def valueGoesOn (c : Char) : Bool := wordGoesOn c || c = '.'

theorem valueGoesOn_of_goesOn (c : Char) (h : Numeral.goesOn c = true) : valueGoesOn c = true := by
  simp only [Numeral.goesOn, Numeral.isMark, Bool.or_eq_true, decide_eq_true_eq] at h
  rcases h with (h | rfl) | rfl | rfl
  · simp [valueGoesOn, wordGoesOn, Char.isAlphanum, h]
  all_goals decide

theorem literal_of_numeral (hr : startsWith valueGoesOn r = false) {n : Numeral} {v : Literal}
    (hn : n.WellFormed) (hv : n.literal? = some v) : literal (n.text ++ r) = .read v r := by
  have hr' := startsWith_eq_false_of_imp valueGoesOn_of_goesOn hr
  obtain ⟨c, u, he, hc⟩ := hn.startsWith_text
  have hq : ∀ t rest, quoted (n.text ++ r) ≠ .read t rest := by
    intro t rest
    rw [he]
    exact quoted_ne_read (by rintro rfl; cases hc) (by rintro rfl; cases hc) _ t
  unfold literal
  split
  · rename_i h; exact absurd h (hq _ _)
  · simp only [Numeral.scan?_append hn hr', number_text hn, hv]

/-- **Completeness.** Every value is read in front of a text with which it does not go on. -/
theorem literal_of_value (hr : startsWith valueGoesOn r = false) {u : List Char} {v : Literal}
    (h : Value u v) : literal (u ++ r) = .read v r := by
  cases h with
  | text h =>
    unfold literal
    rw [quoted_eq_read_iff.2 ⟨u, h, rfl⟩]
  | @integer n i hn hi h =>
    exact literal_of_numeral hr hn (numeral_literal_eq_some_iff.2 (.inl ⟨i, hi, h, rfl⟩))
  | @float n x hn hi h =>
    exact literal_of_numeral hr hn (numeral_literal_eq_some_iff.2 (.inr ⟨hi, x, h, rfl⟩))
  | word h =>
    obtain ⟨hne, ha⟩ := h.isAlpha
    obtain ⟨c, u', rfl⟩ := List.exists_cons_of_ne_nil hne
    have hc : c.isAlpha = true := ha c (by simp)
    have hscan : Numeral.scan? ((c :: u') ++ r) = none :=
      Numeral.scan?_eq_none (Numeral.not_opens_of_isAlpha hc)
    have hw := word_of_word
      (startsWith_eq_false_of_imp (fun d hd => by simp [valueGoesOn, hd]) hr) h
    unfold literal
    split
    · rename_i hq
      exact absurd hq (quoted_ne_read (by rintro rfl; cases hc) (by rintro rfl; cases hc) _ _)
    · rw [hscan]; exact hw

/-! ## Arguments -/

theorem not_valueGoesOn_of_isSpacing (c : Char) (h : isSpacing c = true) :
    valueGoesOn c = false := by
  simp only [valueGoesOn, not_wordGoesOn_of_isSpacing c h, Bool.false_or, decide_eq_false_iff_not]
  rintro rfl
  cases h

theorem arguments_apply_eq_read_iff {id : String} {v : Literal} :
    arguments s = .read (id, v) r ↔ ∃ t₁ t₂ t₃ t₄, symbol '[' s = .read () t₁ ∧
      spaced quoted t₁ = .read id t₂ ∧ symbol ',' t₂ = .read () t₃ ∧
      spaced literal t₃ = .read v t₄ ∧ symbol ']' t₄ = .read () r := by
  simp only [arguments, bind_eq_read_iff, within_eq_read_iff, pure_eq_read_iff, Prod.mk.injEq]
  constructor
  · intro h
    obtain ⟨_, t₁, h₁, _, t₂, h₂, _, t₃, h₃, _, t₄, h₄, _, _, h₅, ⟨rfl, rfl⟩, rfl⟩ := h
    exact ⟨t₁, t₂, t₃, t₄, h₁, h₂, h₃, h₄, h₅⟩
  · intro h
    obtain ⟨t₁, t₂, t₃, t₄, h₁, h₂, h₃, h₄, h₅⟩ := h
    exact ⟨(), t₁, h₁, id, t₂, h₂, (), t₃, h₃, v, t₄, h₄, (), r, h₅, ⟨rfl, rfl⟩, rfl⟩

theorem exists_of_arguments {id : String} {v : Literal} (h : arguments s = .read (id, v) r) :
    ∃ x b y, AllSpacing x ∧ Arguments b id v ∧ AllSpacing y ∧ s = x ++ (b ++ (y ++ r)) ∧
      startsWith isSpacing r = false := by
  obtain ⟨t₁, t₂, t₃, t₄, hopen, hid, hcomma, hvalue, hclose⟩ := arguments_apply_eq_read_iff.1 h
  obtain ⟨x, a₁, hx, ha₁, rfl, -⟩ := (symbol_eq_read_iff (by decide)).1 hopen
  obtain ⟨b₁, t, a₂, hb₁, ha₂, rfl, hquoted, -⟩ := exists_of_spaced hid
  obtain ⟨u, hu, rfl⟩ := quoted_eq_read_iff.1 hquoted
  obtain ⟨b₂, a₃, hb₂, ha₃, rfl, -⟩ := (symbol_eq_read_iff (by decide)).1 hcomma
  obtain ⟨b₃, t', a₄, hb₃, ha₄, rfl, hliteral, -⟩ := exists_of_spaced hvalue
  obtain ⟨w, hw, rfl⟩ := exists_of_literal hliteral
  obtain ⟨b₄, y, hb₄, hy, rfl, hr⟩ := (symbol_eq_read_iff (by decide)).1 hclose
  refine ⟨x, _, y, hx, .mk (ha₁.append hb₁) (ha₂.append hb₂) (ha₃.append hb₃) (ha₄.append hb₄)
    hu hw, hy, ?_, hr⟩
  simp

theorem arguments_of_arguments {x b y : List Char} {id : String} {v : Literal}
    (hx : AllSpacing x) (hb : Arguments b id v) (hy : AllSpacing y)
    (hr : startsWith isSpacing r = false) : arguments (x ++ (b ++ (y ++ r))) = .read (id, v) r := by
  obtain @⟨s₁, s₂, s₃, s₄, u, w, _, _, h₁, h₂, h₃, h₄, hu, hw⟩ := hb
  rw [arguments_apply_eq_read_iff]
  -- the texts that are left when a symbol, the identifier or the value has been read
  have hclose : startsWith isSpacing (']' :: (y ++ r)) = false := by simp [isSpacing]
  have hcomma : startsWith isSpacing (',' :: (s₃ ++ (w ++ (s₄ ++ ']' :: (y ++ r))))) = false := by
    simp [isSpacing]
  have hvalue : startsWith isSpacing (w ++ (s₄ ++ ']' :: (y ++ r))) = false := by
    obtain ⟨c, w', rfl, hc⟩ := hw.start
    exact hc
  have hid : startsWith isSpacing
      (u ++ (s₂ ++ ',' :: (s₃ ++ (w ++ (s₄ ++ ']' :: (y ++ r)))))) = false := by
    obtain ⟨c, u', rfl, hc⟩ := hu.start
    rcases hc with rfl | rfl <;> rfl
  have hliteral : literal (w ++ (s₄ ++ ']' :: (y ++ r))) = .read v (s₄ ++ ']' :: (y ++ r)) :=
    literal_of_value (startsWith_append_spacing not_valueGoesOn_of_isSpacing h₄ rfl) hw
  refine ⟨_, _, w ++ (s₄ ++ ']' :: (y ++ r)), _, ?_,
    spaced_of_read allSpacing_nil h₂ hid hcomma (quoted_eq_read_iff.2 ⟨u, hu, rfl⟩), ?_,
    spaced_of_read allSpacing_nil h₄ hvalue hclose hliteral, ?_⟩
  · exact (symbol_eq_read_iff (by decide)).2 ⟨x, s₁, hx, h₁, by simp, hid⟩
  · exact symbol_of_cons (by decide) h₃ hvalue
  · exact symbol_of_cons (by decide) hy hr

/-- **Arguments.** What is read as arguments are arguments, with spacing on both sides. -/
theorem arguments_eq_read_iff {id : String} {v : Literal} : arguments s = .read (id, v) r ↔
    ∃ x b y, AllSpacing x ∧ Arguments b id v ∧ AllSpacing y ∧ s = x ++ (b ++ (y ++ r)) ∧
      startsWith isSpacing r = false := by
  constructor
  · exact exists_of_arguments
  · intro h
    obtain ⟨x, b, y, hx, hb, hy, rfl, hr⟩ := h
    exact arguments_of_arguments hx hb hy hr

end Parser
end JoinPlan
