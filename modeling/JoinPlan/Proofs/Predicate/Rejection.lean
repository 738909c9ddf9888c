import JoinPlan.Proofs.Predicate.Failure
import JoinPlan.Proofs.Predicate.Recognition
/-!
# Where a text is refused

A node is looked for where a text begins and where a constraint may stand. It is absent where no
letter stands, and then a list of constraints ends; every other failure breaks off the whole, with
the report of the place at which it arose.

Results:
* `node_of_logical`: the constraints of a node are read as nodes; their bound is never met.
* `node_eq_absent_iff`: a node is absent where no letter stands.
* `separated_spec`, `separated_of_rounds`: how a list of constraints goes wrong and where it ends.
* `Visits.broken`, `exists_failure`: a refusal is that of one place, and reading came to that place.
* `Predicate.no_constraint_skipped`: what is absent, what breaks off, and where lists end.
-/
namespace JoinPlan
namespace Parser
open Text Grammar

variable {α β : Type} {s t r : List Char} {e : SyntaxError}

/-! ## Nodes without a bound -/

theorem length_lt_of_symbol {c : Char} (h : symbol c s = .read () t) : t.length < s.length := by
  obtain ⟨v, u, w, -, -, rfl, hu, -⟩ := exists_of_spaced h
  rw [character_eq_read_iff.1 hu]
  simp only [List.length_append, List.length_cons]
  omega

/-- A node takes something from the text. -/
theorem length_lt_of_node {p : Predicate} (h : node s = .read p r) : r.length < s.length := by
  obtain ⟨u, hu, rfl, -⟩ := node_eq_read_iff.1 h
  obtain ⟨w, c, u', -, rfl, -⟩ := hu.exists_lead
  simp
  omega

/-- The reader of the constraints of a node, which are nodes. -/
def constraint : Parser Predicate := node

theorem constraint_apply (s : List Char) : constraint s = node s := rfl

theorem reads_constraint (n : Nat) : Reads n constraint Node where
  iff _ _ _ _ := node_eq_read_iff
  prepend hs hu := hu.prepend hs
  lead hu := exists_lead_of_node hu
  stop t := node_stop t

theorem advances_constraint : Advances constraint := by
  intro s p r h
  obtain ⟨u, -, rfl, -⟩ := node_eq_read_iff.1 h
  exact List.suffix_append u r

theorem advances_operator : Advances operator := by
  intro s op r h
  obtain ⟨s₁, s₂, s₃, -, -, -, rfl, -⟩ := operator_eq_read_iff.1 h
  refine ⟨s₁ ++ (op.keyword.toList ++ (s₂ ++ ':' :: s₃)), ?_⟩
  simp

/-- Items are looked for behind a separator, where less of the text is left. -/
theorem following_shorterNode {n : Nat} (hs : s.length ≤ n) :
    following (symbol ',') (shorterNode n) s = following (symbol ',') constraint s := by
  induction hl : s.length using Nat.strongRecOn generalizing s with
  | ind l ih =>
    rw [following, following.eq_def (symbol ',') constraint]
    cases hsep : symbol ',' s with
    | absent e => rfl
    | broken e => rfl
    | read _ t =>
      have ht := length_lt_of_symbol hsep
      have hbound : shorterNode n t = constraint t := by
        rw [shorterNode, if_pos (by omega), constraint_apply]
      simp only [hbound]
      cases hnode : constraint t with
      | absent e => rfl
      | broken e => rfl
      | read p r =>
        have hr := length_lt_of_node hnode
        simp only [ih r.length (by omega) (by omega) rfl]

theorem separated_shorterNode {n : Nat} (hs : s.length < n) :
    separated (symbol ',') (shorterNode n) s = separated (symbol ',') constraint s := by
  have hbound : shorterNode n s = constraint s := by
    rw [shorterNode, if_pos hs, constraint_apply]
  unfold separated
  rw [hbound]
  cases hnode : constraint s with
  | absent e => rfl
  | broken e => rfl
  | read p r =>
    have hr := length_lt_of_node hnode
    simp only [following_shorterNode (s := r) (n := n) (by omega)]

theorem constraints_shorterNode {n : Nat} (hs : s.length ≤ n) :
    constraints (shorterNode n) s = constraints constraint s := by
  unfold constraints
  rw [bind_apply, bind_apply]
  cases hopen : within .openConstraints (symbol '\x7b') s with
  | absent e => rfl
  | broken e => rfl
  | read _ t =>
    have ht := length_lt_of_symbol (within_eq_read_iff.1 hopen)
    simp only
    rw [bind_apply, bind_apply, separated_shorterNode (by omega)]

/-- The constraints of a logical node are read as nodes. -/
theorem node_of_logical {op : LogicalOperator} (h : operator s = .read (.logical op) t) :
    node s = (do return .logical op (← required (constraints constraint)) : Parser Predicate) t := by
  have hsame := constraints_shorterNode (length_le_of_operator h)
  rw [node, bind_apply, h]
  change (do return .logical op (← required (constraints (shorterNode s.length))) :
    Parser Predicate) t = _
  rw [bind_apply, bind_apply, required, required, hsame]

theorem node_of_comparison {op : ComparisonOperator} (h : operator s = .read (.comparison op) t) :
    node s = (do
      let (identifier, value) ← required arguments
      return .comparison op identifier value : Parser Predicate) t := by
  rw [node, bind_apply, h]

/-! ## Absent nodes -/

/-- Behind a keyword no operator is absent. -/
theorem operator_eq_absent_iff : operator s = .absent e ↔
    startsWith Char.isAlpha (skipSpacing s) = false ∧ e = .single .keyword (skipSpacing s) := by
  rw [← keyword_eq_absent_iff, ← spaced_eq_absent_iff]
  simp only [operator, bind_eq_absent_iff, within_required_ne_absent, false_or]
  refine or_iff_left ?_
  rintro ⟨word, t, -, _, t', -, h⟩
  cases hop : Operator.ofKeyword? word with
  | none => simp only [hop] at h; cases h
  | some op => simp only [hop] at h; cases h

/-- **Absent.** A node is absent where no letter stands. -/
theorem node_eq_absent_iff : node s = .absent e ↔
    startsWith Char.isAlpha (skipSpacing s) = false ∧ e = .single .keyword (skipSpacing s) := by
  rw [← operator_eq_absent_iff, node]
  simp only [bind_eq_absent_iff]
  refine or_iff_left ?_
  rintro ⟨op | op, t, -, h⟩
  all_goals
    rcases bind_eq_absent_iff.1 h with h | ⟨_, _, _, h⟩
    · exact required_ne_absent _ _ _ h
    · cases h

/-! ## Lists of constraints -/

/-- Reading constraints from `s` on comes to look for one in front of `t`. -/
inductive Rounds : List Char → List Char → Prop where
  | first (s : List Char) : Rounds s s
  | next {s t u v : List Char} {p : Predicate} (hp : constraint s = .read p t)
    (hc : symbol ',' t = .read () u) (hr : Rounds u v) : Rounds s v

theorem Rounds.suffix {u : List Char} (h : Rounds s u) : u <:+ s := by
  induction h with
  | first s => exact List.suffix_rfl
  | next hp hc _ ih =>
    exact (ih.trans (advances_symbol _ _ _ _ hc)).trans (advances_constraint _ _ _ hp)

/-- Every round makes progress: it takes at least a comma. -/
theorem length_lt_of_round {p : Predicate} (hc : symbol ',' s = .read () t)
    (hp : constraint t = .read p r) : r.length < s.length :=
  (length_lt_of_node hp).trans (length_lt_of_symbol hc)

section

variable {p : Predicate} {ps : List Predicate}

theorem following_of_no_comma (hc : symbol ',' s = .absent e) :
    following (symbol ',') constraint s = .read [] s := by
  rw [following.eq_def, hc]

theorem following_of_absent (hc : symbol ',' s = .read () t) (hp : constraint t = .absent e) :
    following (symbol ',') constraint s = .read [] s := by
  rw [following.eq_def, hc]
  simp only [hp]

theorem following_of_broken (hc : symbol ',' s = .read () t) (hp : constraint t = .broken e) :
    following (symbol ',') constraint s = .broken e := by
  rw [following.eq_def, hc]
  simp only [hp]

theorem following_of_round (hc : symbol ',' s = .read () t) (hp : constraint t = .read p r) :
    following (symbol ',') constraint s =
      match following (symbol ',') constraint r with
      | .read ps r' => .read (p :: ps) r'
      | outcome => outcome := by
  rw [following.eq_def, hc]
  simp only [hp]
  rw [if_pos (length_lt_of_round hc hp)]
  cases following (symbol ',') constraint r <;> rfl

end

/-- Where a list of constraints may end: no comma stands there, or no constraint behind it. -/
def ListEnd (s : List Char) : Prop :=
  ∀ t, symbol ',' s = .read () t → ∃ e, constraint t = .absent e

/-- **Lists.** A list goes on up to a constraint that is broken, or up to its end. By induction on
what is left, as every round makes progress. -/
theorem following_spec (s : List Char) :
    (∃ t u e, symbol ',' s = .read () t ∧ Rounds t u ∧ constraint u = .broken e ∧
      following (symbol ',') constraint s = .broken e) ∨
    ∃ ps r, ListEnd r ∧ following (symbol ',') constraint s = .read ps r := by
  induction hl : s.length using Nat.strongRecOn generalizing s with
  | ind l ih =>
    cases hc : symbol ',' s with
    | absent e => exact .inr ⟨[], s, by simp [ListEnd, hc], following_of_no_comma hc⟩
    | broken e => exact absurd hc (symbol_ne_broken _ _ _)
    | read _ t =>
      cases hp : constraint t with
      | absent e => exact .inr ⟨[], s, by simp [ListEnd, hc, hp], following_of_absent hc hp⟩
      | broken e => exact .inl ⟨t, t, e, rfl, .first t, hp, following_of_broken hc hp⟩
      | read p r =>
        rw [following_of_round hc hp]
        rcases ih r.length (hl ▸ length_lt_of_round hc hp) r rfl with
          ⟨t', u, e, hc', hr, hu, hf⟩ | ⟨ps, r', hend, hf⟩
        · exact .inl ⟨t, u, e, rfl, .next hp hc' hr, hu, by rw [hf]⟩
        · exact .inr ⟨p :: ps, r', hend, by rw [hf]⟩

theorem following_of_rounds {u : List Char} (hr : Rounds t u) (hu : constraint u = .broken e)
    (hc : symbol ',' s = .read () t) : following (symbol ',') constraint s = .broken e := by
  induction hr generalizing s with
  | first t => exact following_of_broken hc hu
  | next hp hc' hr ih => rw [following_of_round hc hp, ih hu hc']

/-- The list of a block is broken as one of its constraints is, and ends where a list may end. -/
theorem separated_spec (s : List Char) :
    (∃ u e, Rounds s u ∧ constraint u = .broken e ∧
      separated (symbol ',') constraint s = .broken e) ∨
    (∃ e, constraint s = .absent e ∧ separated (symbol ',') constraint s = .read [] s) ∨
    ∃ p ps r, ListEnd r ∧ separated (symbol ',') constraint s = .read (p :: ps) r := by
  unfold separated
  cases hp : constraint s with
  | absent e => exact .inr (.inl ⟨e, rfl, rfl⟩)
  | broken e => exact .inl ⟨s, e, .first s, hp, rfl⟩
  | read p r =>
    rcases following_spec r with ⟨t, u, e, hc, hr, hu, hf⟩ | ⟨ps, r', hend, hf⟩
    · exact .inl ⟨u, e, .next hp hc hr, hu, by simp only [hf]⟩
    · exact .inr (.inr ⟨p, ps, r', hend, by simp only [hf]⟩)

theorem separated_of_rounds {u : List Char} (hr : Rounds s u) (hu : constraint u = .broken e) :
    separated (symbol ',') constraint s = .broken e := by
  unfold separated
  cases hr with
  | first s => rw [hu]
  | next hp hc hr =>
    rw [hp]
    simp only [following_of_rounds hr hu hc]

/-! ## Places -/

/-- Reading a node from `s` on comes to look for a node in front of `t`. -/
inductive Visits : List Char → List Char → Prop where
  | here (s : List Char) : Visits s s
  | inside {s t u v w : List Char} {op : LogicalOperator}
    (ho : operator s = .read (.logical op) t) (hb : symbol '\x7b' t = .read () u)
    (hr : Rounds u v) (hv : Visits v w) : Visits s w

theorem Visits.suffix (h : Visits s t) : t <:+ s := by
  induction h with
  | here s => exact List.suffix_rfl
  | inside ho hb hr _ ih =>
    exact ((ih.trans hr.suffix).trans (advances_symbol _ _ _ _ hb)).trans
      (advances_operator _ _ _ ho)

/-- What is broken inside a node breaks the node, with the same report. By induction on the way
there. -/
theorem Visits.broken (h : Visits s t) (ht : node t = .broken e) : node s = .broken e := by
  induction h with
  | here s => exact ht
  | inside ho hb hr _ ih =>
    have hlist := separated_of_rounds hr (ih ht)
    rw [node_of_logical ho, bind_eq_broken_iff]
    refine .inl ?_
    unfold required constraints
    rw [bind_apply, within_eq_read_iff.2 hb]
    simp only [bind_apply, hlist]

/-- The places at which a node itself can be wrong, with the report. -/
inductive NodeFailure : List Char → SyntaxError → Prop where
  | keyword {s : List Char} (h : startsWith Char.isAlpha (skipSpacing s) = false) :
    NodeFailure s (.single .keyword (skipSpacing s))
  | colon {s t : List Char} {word : String} (hw : spaced keyword s = .read word t)
    (h : startsWith (· = ':') (skipSpacing t) = false) : NodeFailure s (.missing .colon t)
  | unknown {s t u : List Char} {word : String} (hw : spaced keyword s = .read word t)
    (hc : symbol ':' t = .read () u) (h : Operator.ofKeyword? word = none) :
    NodeFailure s (.single .unknownOperator s)
  | openBlock {s t : List Char} {op : LogicalOperator} (ho : operator s = .read (.logical op) t)
    (h : startsWith (· = '\x7b') (skipSpacing t) = false) :
    NodeFailure s (.missing .openConstraints t)
  | closeBlock {s t u v w : List Char} {op : LogicalOperator} {cs : List Predicate}
    (ho : operator s = .read (.logical op) t) (hb : symbol '\x7b' t = .read () u)
    (hs : separated (symbol ',') constraint u = .read cs v)
    (hc : (if cs.isEmpty then pure () else optional (symbol ',')) v = .read () w)
    (h : startsWith (· = '\x7d') (skipSpacing w) = false) :
    NodeFailure s (.missing .closeConstraints w)
  | arguments {s t : List Char} {op : ComparisonOperator} {e : SyntaxError}
    (ho : operator s = .read (.comparison op) t) (h : ArgumentsFailure t e) : NodeFailure s e

theorem NodeFailure.of_operator (h : (operator s).error? = some e) : NodeFailure s e := by
  simp only [operator, bind_error?_eq_some_iff, within_eq_read_iff, required_eq_read_iff] at h
  rcases h with h | ⟨word, t, hw, h | ⟨_, u, hc, h⟩⟩
  · rw [spaced_error?] at h
    obtain ⟨ha, rfl⟩ := keyword_error?_eq_some_iff.1 h
    exact .keyword ha
  · obtain ⟨e', he, rfl⟩ := within_error?_eq_some_iff.1 h
    rw [required_error?] at he
    obtain ⟨hc, rfl⟩ := symbol_error?_eq_some_iff.1 he
    exact .colon hw hc
  · cases hop : Operator.ofKeyword? word with
    | none =>
      simp only [hop] at h
      obtain rfl := Option.some.inj h
      exact .unknown hw hc hop
    | some op => simp only [hop] at h; cases h

/-- A failing block is broken inside, or it is not opened or not closed. -/
theorem exists_of_constraints_error? {op : LogicalOperator}
    (ho : operator s = .read (.logical op) t) (h : (constraints constraint t).error? = some e) :
    NodeFailure s e ∨
      ∃ u v, symbol '\x7b' t = .read () u ∧ Rounds u v ∧ constraint v = .broken e := by
  simp only [constraints, bind_error?_eq_some_iff, within_eq_read_iff] at h
  rcases h with h | ⟨_, u, hb, h | ⟨cs, v, hs, h⟩⟩
  · obtain ⟨hc, rfl⟩ := missing_symbol_iff.1 h
    exact .inl (.openBlock ho hc)
  · rcases separated_spec u with ⟨v, e', hr, hv, he⟩ | ⟨_, _, he⟩ | ⟨_, _, _, _, he⟩
    · rw [he] at h
      obtain rfl := Option.some.inj h
      exact .inr ⟨u, v, hb, hr, hv⟩
    · rw [he] at h; cases h
    · rw [he] at h; cases h
  · -- what is missing is the brace, as neither nothing nor an optional comma is ever missed
    left
    cases cs with
    | nil =>
      simp only [List.isEmpty_nil, ↓reduceIte, bind_error?_eq_some_iff, pure_error?, reduceCtorEq,
        and_false, exists_false, or_false] at h
      obtain ⟨hc, rfl⟩ := missing_symbol_iff.1 h
      exact .closeBlock ho hb hs rfl hc
    | cons c cs =>
      simp only [List.isEmpty_cons, Bool.false_eq_true, ↓reduceIte, bind_error?_eq_some_iff,
        optional_symbol_error?, pure_error?, reduceCtorEq, and_false, exists_false, or_false,
        false_or] at h
      obtain ⟨_, w, hcomma, h⟩ := h
      obtain ⟨hc, rfl⟩ := missing_symbol_iff.1 h
      exact .closeBlock ho hb hs hcomma hc

/-- **Reports.** The report of a refusal is that of one place that reading came to. By induction on
the length of the text, as a constraint stands further on than the node that holds it. -/
theorem exists_failure (h : (node s).error? = some e) : ∃ t, Visits s t ∧ NodeFailure t e := by
  induction hl : s.length using Nat.strongRecOn generalizing s with
  | ind l ih =>
    cases ho : operator s with
    | absent e' =>
      refine ⟨s, .here s, .of_operator ?_⟩
      rw [node, bind_apply, ho] at h
      rwa [ho]
    | broken e' =>
      refine ⟨s, .here s, .of_operator ?_⟩
      rw [node, bind_apply, ho] at h
      rwa [ho]
    | read op t =>
      cases op with
      | logical op =>
        simp only [node_of_logical ho, bind_error?_eq_some_iff, required_error?, pure_error?,
          reduceCtorEq, and_false, exists_false, or_false] at h
        rcases exists_of_constraints_error? ho h with hown | ⟨u, v, hb, hr, hv⟩
        · exact ⟨s, .here s, hown⟩
        · have hlt : v.length < s.length :=
            (hr.suffix.length_le.trans_lt (length_lt_of_symbol hb)).trans_le
              (length_le_of_operator ho)
          obtain ⟨w, hw, hown⟩ := ih v.length (hl ▸ hlt) (error?_of_broken hv) rfl
          exact ⟨w, .inside ho hb hr hw, hown⟩
      | comparison op =>
        simp only [node_of_comparison ho, bind_error?_eq_some_iff, required_error?, pure_error?,
          reduceCtorEq, and_false, exists_false, or_false] at h
        exact ⟨s, .here s, .arguments ho (.of_error? h)⟩

/-! ## Lists that end -/

/-- The list of a block takes an end of the text in front of which no spacing is left. -/
theorem exists_of_block {cs : List Predicate} (hb : symbol '\x7b' s = .read () t)
    (hs : separated (symbol ',') constraint t = .read cs r) :
    startsWith isSpacing r = false ∧ (cs = [] ∧ t = r ∨ ∃ c cs' u v, cs = c :: cs' ∧ Node u c ∧
      Further Node v cs' ∧ t = u ++ (v ++ r)) := by
  obtain ⟨-, -, -, -, -, ht⟩ := (symbol_eq_read_iff (by decide)).1 hb
  rcases exists_of_separated (reads_constraint _) ht (Nat.lt_succ_self _) hs with
    ⟨rfl, rfl⟩ | ⟨c, cs', u, v, rfl, hu, hv, rfl, hr⟩
  · exact ⟨ht, .inl ⟨rfl, rfl⟩⟩
  · exact ⟨hr, .inr ⟨c, cs', u, v, rfl, hu, hv, rfl⟩⟩

theorem ListEnd.cases (h : ListEnd s) : (∃ e, symbol ',' s = .absent e) ∨
    ∃ t, symbol ',' s = .read () t ∧ startsWith Char.isAlpha (skipSpacing t) = false := by
  cases hc : symbol ',' s with
  | absent e => exact .inl ⟨e, rfl⟩
  | broken e => exact absurd hc (symbol_ne_broken _ _ _)
  | read _ t =>
    obtain ⟨e, he⟩ := h t hc
    exact .inr ⟨t, rfl, (node_eq_absent_iff.1 he).1⟩

end Parser

namespace Predicate
open JoinPlan.Parser JoinPlan.Text

variable {s : List Char} {e : SyntaxError}

/-- A text is refused because it is blank, because of a node, or because of what is left of it. -/
theorem exists_of_parse_error (h : parse s = .error e) : e = .single .emptyPredicate s ∨
    (parsePrefix s).error? = some e ∨ ∃ p r, parsePrefix s = .read p r ∧
      e = (SyntaxError.single .trailingText r).within .unreadText (trim r) := by
  unfold parse at h
  split at h
  · exact .inl (Except.error.inj h).symm
  · right
    cases hnode : parsePrefix s with
    | read p r =>
      simp only [hnode] at h
      split at h
      · cases h
      · exact .inr ⟨p, r, rfl, (Except.error.inj h).symm⟩
    | absent e' =>
      simp only [hnode] at h
      exact .inl (by rw [Except.error.inj h]; rfl)
    | broken e' =>
      simp only [hnode] at h
      exact .inl (by rw [Except.error.inj h]; rfl)

/-- **No constraint is skipped.** An attempt at a node has three outcomes. Wherever reading comes to
look for a node, at any depth, it is absent exactly if no letter stands there; else it is read, or it
is broken, and then the whole is broken with the same report. The constraints of a logical node are
read by the list of nodes, with no other outcome. That list is never absent, as every round makes
progress, and it ends for want of a comma or in front of something that is not a letter. -/
theorem no_constraint_skipped (s : List Char) :
    (∀ t, Visits s t →
      ((∃ e, parsePrefix t = .absent e) ↔ startsWith Char.isAlpha (skipSpacing t) = false) ∧
      (startsWith Char.isAlpha (skipSpacing t) = true →
        (∃ p r, parsePrefix t = .read p r) ∨ ∃ e, parsePrefix t = .broken e) ∧
      ∀ e, parsePrefix t = .broken e → parsePrefix s = .broken e) ∧
    (∀ op t, operator s = .read (.logical op) t →
      parsePrefix s =
        (do return .logical op (← required (constraints parsePrefix)) : Parser Predicate) t) ∧
    (∀ t p r, symbol ',' s = .read () t → parsePrefix t = .read p r → r.length < s.length) ∧
    (∀ e, separated (symbol ',') parsePrefix s ≠ .absent e) ∧
    ∀ cs r, separated (symbol ',') parsePrefix s = .read cs r →
      cs = [] ∧ r = s ∧ startsWith Char.isAlpha (skipSpacing s) = false ∨
      cs ≠ [] ∧ ((∃ e, symbol ',' r = .absent e) ∨
        ∃ t, symbol ',' r = .read () t ∧ startsWith Char.isAlpha (skipSpacing t) = false) := by
  have habsent : ∀ t, (∃ e, parsePrefix t = .absent e) ↔
      startsWith Char.isAlpha (skipSpacing t) = false := by
    intro t
    constructor
    · rintro ⟨e, he⟩
      exact (node_eq_absent_iff.1 he).1
    · exact fun h => ⟨_, node_eq_absent_iff.2 ⟨h, rfl⟩⟩
  refine ⟨fun t ht => ⟨habsent t, fun hletter => ?_, fun e => ht.broken⟩,
    fun op t ho => node_of_logical ho, fun t p r => length_lt_of_round, fun e he => ?_,
    fun cs r h => ?_⟩
  · cases hnode : parsePrefix t with
    | read p r => exact .inl ⟨p, r, rfl⟩
    | broken e => exact .inr ⟨e, rfl⟩
    | absent e => rw [(habsent t).1 ⟨e, hnode⟩] at hletter; cases hletter
  · rcases separated_spec s with ⟨_, _, _, _, hs⟩ | ⟨_, _, hs⟩ | ⟨_, _, _, _, hs⟩
    all_goals cases he.symm.trans hs
  · rcases separated_spec s with ⟨_, _, _, _, hs⟩ | ⟨e, hno, hs⟩ | ⟨p, ps, r', hend, hs⟩
    · cases h.symm.trans hs
    · obtain ⟨rfl, rfl⟩ := Outcome.read.inj (h.symm.trans hs)
      exact .inl ⟨rfl, rfl, (habsent r).1 ⟨e, hno⟩⟩
    · obtain ⟨rfl, rfl⟩ := Outcome.read.inj (h.symm.trans hs)
      exact .inr ⟨List.cons_ne_nil p ps, hend.cases⟩

/-- A comparison without arguments behind a sound one, in a block inside a block; and a list that
ends in front of a comma, as a brace is behind it. -/
theorem no_constraint_skipped_nested :
    parsePrefix "match_all:\x7bmatch_any:\x7beq:['a',null],lt:5\x7d\x7d".toList =
      .broken (.missing .openArguments "5\x7d\x7d".toList) ∧
    separated (symbol ',') parsePrefix "eq:['a',null],\x7d".toList =
      .read [.comparison .eq "a" .null] ",\x7d".toList ∧
    ∃ t, symbol ',' ",\x7d".toList = .read () t ∧
      startsWith Char.isAlpha (skipSpacing t) = false := by
  have hsound : parsePrefix "eq:['a',null],lt:5\x7d\x7d".toList =
      .read (.comparison .eq "a" .null) ",lt:5\x7d\x7d".toList :=
    (node_of_comparison (by rfl)).trans rfl
  have hbroken : parsePrefix "lt:5\x7d\x7d".toList =
      .broken (.missing .openArguments "5\x7d\x7d".toList) :=
    (node_of_comparison (by rfl)).trans rfl
  have hway : Visits "match_all:\x7bmatch_any:\x7beq:['a',null],lt:5\x7d\x7d".toList
      "lt:5\x7d\x7d".toList :=
    .inside (by rfl) (by rfl) (.first _)
      (.inside (by rfl) (by rfl) (.next hsound (by rfl) (.first _)) (.here _))
  have hlast : parsePrefix "eq:['a',null],\x7d".toList =
      .read (.comparison .eq "a" .null) ",\x7d".toList :=
    (node_of_comparison (by rfl)).trans rfl
  have hlist : separated (symbol ',') parsePrefix "eq:['a',null],\x7d".toList =
      .read [.comparison .eq "a" .null] ",\x7d".toList := by
    obtain ⟨e, he⟩ := node_stop []
    have hend : following (symbol ',') parsePrefix ",\x7d".toList = .read [] ",\x7d".toList :=
      following_of_absent (by rfl) he
    unfold separated
    simp only [hlast, hend]
  refine ⟨((no_constraint_skipped _).1 _ hway).2.2 _ hbroken, hlist, ?_⟩
  obtain ⟨hnone, -⟩ | ⟨-, ⟨e, he⟩ | hend⟩ := (no_constraint_skipped _).2.2.2.2 _ _ hlist
  · cases hnone
  · cases he
  · exact hend

end Predicate
end JoinPlan
