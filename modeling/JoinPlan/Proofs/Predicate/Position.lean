import JoinPlan.Plan
import JoinPlan.Proofs.Predicate.Rejection
/-!
# Where errors are placed

An error carries what was left of the text where it arose, and its position is found by comparing
lengths. That is right as every reader hands on an end of its text: what a report carries are ends
of the text, and what was being read around a fault begins no further on than the fault.

Results:
* `Text.exists_pos`: the position in front of an end of a text.
* `ArgumentsFailure.placed`, `NodeFailure.placed`, `placed_of_error?`: the reports of each part.
* `Compiled.ofText_error_position`: the position that is told is that of the first fault.
-/
namespace JoinPlan

namespace Text

variable {s t r : List Char}

theorem utf8Length_eq (s : List Char) : utf8Length s = (String.ofList s).utf8ByteSize := by
  induction s with
  | nil => simp [utf8Length]
  | cons c s ih =>
    rw [utf8Length, ih, String.ofList_cons, String.utf8ByteSize_append,
      String.utf8ByteSize_singleton]

/-- What is left further on is further back from the end. -/
theorem offset_le_of_suffix (h : r <:+ t) : offset s t ≤ offset s r := by
  obtain ⟨u, rfl⟩ := h
  unfold offset
  rw [utf8Length_append]
  omega

/-- Where an end of a text begins there is a boundary between characters, and it is found by
comparing lengths. -/
theorem exists_pos {t : String} {before rest : List Char} (h : t.toList = before ++ rest) :
    ∃ p : t.Pos, p.offset.byteIdx = offset t.toList rest ∧
      (t.sliceTo p).copy = String.ofList before ∧ (t.sliceFrom p).copy = String.ofList rest := by
  have ht : t = String.ofList before ++ String.ofList rest := by
    rw [← String.ofList_append, ← h, String.ofList_toList]
  let p : t.Pos := ⟨(String.ofList before).rawEndPos,
    String.Pos.Raw.isValid_iff_exists_append.2 ⟨_, _, ht, rfl⟩⟩
  have hp : p.Splits (String.ofList before) (String.ofList rest) := ⟨ht, rfl⟩
  refine ⟨p, ?_, hp.copy_sliceTo_eq, hp.copy_sliceFrom_eq⟩
  rw [h, offset_append, utf8Length_eq]
  rfl

end Text

namespace Parser
open Text Grammar

variable {s t : List Char} {e : SyntaxError}

/-! ## Reports -/

/-- A report on a text: a fault at an end of it, and at most one thing that was being read there,
which begins no further on. -/
inductive Placed (s : List Char) : SyntaxError → Prop where
  | one {cause : Cause} {r : List Char} (hr : r <:+ s) : Placed s (.single cause r)
  | two {cause outer : Cause} {r t : List Char} (hr : r <:+ t) (ht : t <:+ s) :
    Placed s ((SyntaxError.single cause r).within outer t)

namespace Placed

theorem mono (h : Placed t e) (ht : t <:+ s) : Placed s e := by
  cases h with
  | one hr => exact .one (hr.trans ht)
  | two hr hu => exact .two hr (hu.trans ht)

theorem missing {cause : Cause} (ht : t <:+ s) : Placed s (.missing cause t) :=
  .two (skipSpacing_suffix t) ht

theorem length_eq (h : Placed s e) : e.faults.length = 1 ∨ e.faults.length = 2 := by
  cases h with
  | one hr => exact .inl rfl
  | two hr ht => exact .inr rfl

theorem suffix (h : Placed s e) : ∀ f ∈ e.faults, f.rest <:+ s := by
  cases h with
  | one hr => simpa [SyntaxError.faults, SyntaxError.single] using hr
  | two hr ht =>
    simpa [SyntaxError.faults, SyntaxError.single, SyntaxError.within] using ⟨hr.trans ht, ht⟩

theorem pairwise (h : Placed s e) :
    e.faults.Pairwise fun inner outer => inner.rest <:+ outer.rest := by
  cases h with
  | one hr => simp [SyntaxError.faults, SyntaxError.single]
  | two hr ht => simpa [SyntaxError.faults, SyntaxError.single, SyntaxError.within] using hr

end Placed

theorem ArgumentsFailure.placed (h : ArgumentsFailure s e) : Placed s e := by
  cases h with
  | openBracket h => exact .missing List.suffix_rfl
  | @identifier t₁ e h₁ h =>
    have ht₁ := advances_symbol _ _ _ _ h₁
    rcases quoted_error? h with rfl | ⟨body, -, -, rfl⟩
    · exact .two (skipSpacing_suffix t₁) ht₁
    · exact .two List.nil_suffix ht₁
  | comma h₁ h₂ h =>
    exact .missing ((advances_quoted.spaced _ _ _ h₂).trans (advances_symbol _ _ _ _ h₁))
  | @value t₁ t₂ t₃ id e h₁ h₂ h₃ h =>
    obtain ⟨cause, rfl⟩ := literal_error? h
    exact .two (skipSpacing_suffix t₃) ((advances_symbol _ _ _ _ h₃).trans
      ((advances_quoted.spaced _ _ _ h₂).trans (advances_symbol _ _ _ _ h₁)))
  | closeBracket h₁ h₂ h₃ h₄ h =>
    exact .missing ((advances_literal.spaced _ _ _ h₄).trans ((advances_symbol _ _ _ _ h₃).trans
      ((advances_quoted.spaced _ _ _ h₂).trans (advances_symbol _ _ _ _ h₁))))

theorem NodeFailure.placed (h : NodeFailure s e) : Placed s e := by
  cases h with
  | keyword h => exact .one (skipSpacing_suffix s)
  | colon hw h => exact .missing (advances_keyword.spaced _ _ _ hw)
  | unknown hw hc h => exact .one List.suffix_rfl
  | openBlock ho h => exact .missing (advances_operator _ _ _ ho)
  | @closeBlock t u v w op cs ho hb hs hc h =>
    have hu := (advances_symbol _ _ _ _ hb).trans (advances_operator _ _ _ ho)
    obtain ⟨-, hlist⟩ := exists_of_block hb hs
    have hv : v <:+ u := by
      rcases hlist with ⟨-, rfl⟩ | ⟨_, _, x, y, -, -, -, rfl⟩
      · exact List.suffix_rfl
      · exact (List.suffix_append y v).trans (List.suffix_append x _)
    have hw : w <:+ v := by
      split at hc
      · exact (pure_eq_read_iff.1 hc).2 ▸ List.suffix_rfl
      · rcases optional_eq_read_iff.1 hc with hc | ⟨-, rfl⟩
        · exact advances_symbol _ _ _ _ hc
        · exact List.suffix_rfl
    exact .missing (hw.trans (hv.trans hu))
  | arguments ho h => exact h.placed.mono (advances_operator _ _ _ ho)

/-- **Reports.** The faults of a report are ends of the text, from the inside out. -/
theorem placed_of_error? (h : (node s).error? = some e) : Placed s e := by
  obtain ⟨t, ht, hown⟩ := exists_failure h
  exact hown.placed.mono ht.suffix

end Parser

/-! ## Positions -/

theorem Predicate.placed_of_parse_error {s : List Char} {e : SyntaxError}
    (h : parse s = .error e) : Parser.Placed s e ∨ ∃ p r, parsePrefix s = .read p r ∧ r <:+ s ∧
      e = (SyntaxError.single .trailingText r).within .unreadText (Text.trim r) := by
  rcases exists_of_parse_error h with rfl | hnode | ⟨p, r, hread, rfl⟩
  · exact .inl (.one List.suffix_rfl)
  · exact .inl (Parser.placed_of_error? hnode)
  · exact .inr ⟨p, r, hread, Parser.advances_constraint _ _ _ hread, rfl⟩

namespace Compiled

variable (strict : Bool) (aliases : Option AliasMap) {t : String} {e : SyntaxError}

theorem ofText_value_of_error (h : Predicate.parse t.toList = .error e) :
    (ofText strict aliases t).value = .error (.syntaxError (e.offset t.toList) e.message) := by
  rw [ofText, Logged.bind_value, Predicate.read, h]
  rfl

/-- The position that compiling a text reports is that of the first fault. -/
theorem exists_error_pos (he : Predicate.parse t.toList = .error e)
    (h : e.innermost.rest <:+ t.toList) :
    ∃ p : t.Pos, (t.sliceFrom p).copy = String.ofList e.innermost.rest ∧
      p.offset.byteIdx = e.offset t.toList ∧ e.offset? t.toList = some p.offset.byteIdx ∧
      p.offset.byteIdx + Text.utf8Length e.innermost.rest = t.utf8ByteSize ∧
      (ofText strict aliases t).value = .error (.syntaxError p.offset.byteIdx e.message) ∧
      (CompileError.syntaxError p.offset.byteIdx e.message).message =
        "Predicate parse error at byte " ++ toString p.offset.byteIdx ++ ":\n" ++ e.message := by
  obtain ⟨before, hbefore⟩ := h
  obtain ⟨p, hp, -, hrest⟩ := Text.exists_pos hbefore.symm
  have hoffset : p.offset.byteIdx = e.offset t.toList := hp
  have hsize : Text.utf8Length t.toList = t.utf8ByteSize := by
    rw [Text.utf8Length_eq, String.ofList_toList]
  refine ⟨p, hrest, hoffset, ?_, ?_, ?_, rfl⟩
  · rw [SyntaxError.offset?_eq, hoffset]
  · rw [hp, ← hsize, ← hbefore, Text.offset_append, Text.utf8Length_append]
  · rw [hoffset]
    exact ofText_value_of_error strict aliases he

/-- **Positions.** A text that is no predicate is refused with one or two faults. The rest at the
first one is what the text holds from a position on, between two characters, and that position is
the one that compiling the text reports. All faults of a node are ends of the text, each at a
position that is not behind that of the one before; where the whole is refused, only the blanks
around what was not read may be missing. -/
theorem ofText_error_position (t : String) :
    (∀ e, Predicate.parse t.toList = .error e →
      (e.faults.length = 1 ∨ e.faults.length = 2) ∧
      (∃ p : t.Pos, (t.sliceFrom p).copy = String.ofList e.innermost.rest ∧
        p.offset.byteIdx = e.offset t.toList ∧ e.offset? t.toList = some p.offset.byteIdx ∧
        p.offset.byteIdx + Text.utf8Length e.innermost.rest = t.utf8ByteSize ∧
        (ofText strict aliases t).value = .error (.syntaxError p.offset.byteIdx e.message) ∧
        (CompileError.syntaxError p.offset.byteIdx e.message).message =
          "Predicate parse error at byte " ++ toString p.offset.byteIdx ++ ":\n" ++ e.message) ∧
      ((∀ f ∈ e.faults, f.rest <:+ t.toList) ∨
        ∃ q r, Predicate.parsePrefix t.toList = .read q r ∧
          e.faults = [⟨.trailingText, r⟩, ⟨.unreadText, Text.trim r⟩])) ∧
    ∀ e, (Predicate.parsePrefix t.toList).error? = some e →
      (∀ f ∈ e.faults, f.rest <:+ t.toList) ∧
      e.faults.Pairwise fun inner outer =>
        Text.offset t.toList outer.rest ≤ Text.offset t.toList inner.rest := by
  refine ⟨fun e he => ?_, fun e he => ?_⟩
  · rcases Predicate.placed_of_parse_error he with h | ⟨q, r, hread, hr, rfl⟩
    · exact ⟨h.length_eq, exists_error_pos strict aliases he (h.suffix _ (List.mem_cons_self ..)),
        .inl h.suffix⟩
    · exact ⟨.inr rfl, exists_error_pos strict aliases he hr, .inr ⟨q, r, hread, rfl⟩⟩
  · have h := Parser.placed_of_error? he
    exact ⟨h.suffix, h.pairwise.imp fun hsuffix => Text.offset_le_of_suffix hsuffix⟩

/-- Something behind a predicate, with two bytes for one of the characters in front of it; and a
quote without an end in a block. -/
theorem ofText_error_position_of_two_faults :
    let t := "eq:['é',null] x "
    let u := "match_any:\x7beq:['é"
    let e : SyntaxError := ⟨⟨.trailingText, "x ".toList⟩, [⟨.unreadText, "x".toList⟩]⟩
    let d : SyntaxError := ⟨⟨.character, []⟩, [⟨.identifier, "'é".toList⟩]⟩
    (Predicate.parse t.toList = .error e ∧ ¬ "x".toList <:+ t.toList ∧
      ∃ p : t.Pos, p.offset.byteIdx = 15 ∧ (t.sliceFrom p).copy = "x " ∧
        (ofText false none t).value = .error (.syntaxError 15 e.message)) ∧
    (Predicate.parsePrefix u.toList).error? = some d ∧
      ∀ f ∈ d.faults, f.rest <:+ u.toList := by
  intro t u e d
  have ht : Predicate.parse t.toList = .error e := by
    subst t e
    rw [Predicate.parse, Predicate.parsePrefix, Parser.node]
    rfl
  have hu : (Predicate.parsePrefix u.toList).error? = some d := by
    subst u
    have hnode : Parser.node "eq:['é".toList = .broken d :=
      (Parser.node_of_comparison (by rfl)).trans rfl
    have hway : Parser.Visits "match_any:\x7beq:['é".toList "eq:['é".toList :=
      .inside (by rfl) (by rfl) (.first _) (.here _)
    exact Parser.error?_of_broken (hway.broken hnode)
  obtain ⟨-, ⟨p, hrest, hp, -, -, hvalue, -⟩, -⟩ := (ofText_error_position false none t).1 e ht
  have hoffset : p.offset.byteIdx = 15 := hp.trans (by decide)
  rw [hoffset] at hvalue
  exact ⟨⟨ht, by decide, p, hoffset, hrest, hvalue⟩, hu,
    ((ofText_error_position false none u).2 d hu).1⟩

end Compiled
end JoinPlan
