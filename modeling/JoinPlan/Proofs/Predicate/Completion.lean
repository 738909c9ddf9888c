import JoinPlan.Proofs.Predicate.Position
/-!
# Texts that can still be completed

Reading stops no further on than it has to: what stands in front of the position of an error is the
beginning of a predicate. Where a node is looked for, every node can be completed to one that holds
it; and at each place that can be wrong, what was read there is the beginning of a node. A word that
is no operator is the one exception, as it is refused for the colon that is not behind it.

Results:
* `Rounds.completable`, `Visits.completable`: what stands in front of a constraint.
* `ArgumentsFailure.completable`, `NodeFailure.completable`: what stands in front of a fault.
* `Predicate.completable_of_parse_error`: what stands in front of the position of an error.
-/
namespace JoinPlan

namespace Grammar
open Text

/-! ## Sample texts -/

theorem value_null : Value ['n', 'u', 'l', 'l'] .null := .word (.null rfl)

theorem quoted_empty : Quoted ['\'', '\''] (String.ofList []) :=
  @Quoted.mk '\'' [] (.inr rfl) List.not_mem_nil

theorem block_empty {α : Type} {Item : List Char → α → Prop} : Block Item ['\x7b', '\x7d'] [] :=
  .empty allSpacing_nil

/-- Behind every operator and its colon something can stand. -/
theorem exists_body (op : Operator) : ∃ body, ∀ u, Framed op body u → ∃ p, Node u p := by
  cases op with
  | logical op => exact ⟨_, fun u hu => ⟨_, .logical hu block_empty⟩⟩
  | comparison op =>
    have harguments := Arguments.mk allSpacing_nil allSpacing_nil allSpacing_nil allSpacing_nil
      quoted_empty value_null
    exact ⟨_, fun u hu => ⟨_, .comparison hu harguments⟩⟩

theorem exists_node : ∃ u p, Node u p := by
  obtain ⟨body, h⟩ := exists_body (.logical .matchAny)
  exact ⟨_, h _ (.mk allSpacing_nil allSpacing_nil allSpacing_nil allSpacing_nil)⟩

end Grammar

namespace Parser
open Text Grammar

variable {s t : List Char} {e : SyntaxError}

/-! ## What was read -/

/-- What is read where no spacing stands comes first. -/
theorem read_of_spaced {α : Type} {p : Parser α} {a : α} (hs : startsWith isSpacing s = false)
    (h : spaced p s = .read a t) :
    ∃ w, AllSpacing w ∧ p s = .read a (w ++ t) ∧ startsWith isSpacing t = false := by
  obtain ⟨v, r, w, hv, hw, rfl, hr, ht⟩ := exists_of_spaced h
  obtain rfl := hv.eq_nil hs
  exact ⟨w, hw, hr, ht⟩

theorem cons_of_symbol {c : Char} (hs : startsWith isSpacing s = false)
    (h : symbol c s = .read () t) :
    ∃ w, AllSpacing w ∧ s = c :: (w ++ t) ∧ startsWith isSpacing t = false := by
  obtain ⟨w, hw, hc, ht⟩ := read_of_spaced hs h
  exact ⟨w, hw, character_eq_read_iff.1 hc, ht⟩

theorem append_of_quoted {id : String} (hs : startsWith isSpacing s = false)
    (h : spaced quoted s = .read id t) :
    ∃ u w, Quoted u id ∧ AllSpacing w ∧ s = u ++ (w ++ t) ∧ startsWith isSpacing t = false := by
  obtain ⟨w, hw, hquoted, ht⟩ := read_of_spaced hs h
  obtain ⟨u, hu, rfl⟩ := quoted_eq_read_iff.1 hquoted
  exact ⟨u, w, hu, hw, rfl, ht⟩

/-- An operator that is read is the head of a node, whatever body follows. -/
theorem exists_head_of_operator {op : Operator} (h : operator s = .read op t) :
    ∃ head, s = head ++ t ∧ startsWith isSpacing t = false ∧
      ∀ body, Framed op body (head ++ body) := by
  obtain ⟨s₁, s₂, s₃, h₁, h₂, h₃, rfl, ht⟩ := operator_eq_read_iff.1 h
  refine ⟨s₁ ++ (op.keyword.toList ++ (s₂ ++ ':' :: s₃)), by simp, ht, fun body => ?_⟩
  have hu : Framed op body
      (s₁ ++ (op.keyword.toList ++ (s₂ ++ ':' :: (s₃ ++ (body ++ []))))) :=
    .mk h₁ h₂ h₃ allSpacing_nil
  simpa using hu

/-! ## In front of a constraint -/

/-- What stands in front of a constraint in a list goes on with any node as a list. By induction on
the rounds. -/
theorem Rounds.completable (h : Rounds s t) : ∃ c, s = c ++ t ∧ ∀ u p, Node u p →
    ∃ x y q qs, c ++ u = x ++ y ∧ Node x q ∧ Further Node y qs := by
  induction h with
  | first s => exact ⟨[], rfl, fun u p hu => ⟨u, [], p, [], by simp, hu, .nil⟩⟩
  | next hp hc _ ih =>
    obtain ⟨x, hx, rfl, ht⟩ := node_eq_read_iff.1 hp
    obtain ⟨w, hw, rfl, -⟩ := cons_of_symbol ht hc
    obtain ⟨c, rfl, hlist⟩ := ih
    refine ⟨x ++ ',' :: (w ++ c), by simp, fun u p hu => ?_⟩
    obtain ⟨x', y', q, qs, he, hx', hy'⟩ := hlist u p hu
    exact ⟨x, _, _, _, by simp [he], hx, .cons (hx'.prepend hw) hy'⟩

/-- What stands in front of a node goes on with any node, and what closes the blocks, as a node. By
induction on the blocks around it. -/
theorem Visits.completable (h : Visits s t) :
    ∃ b, s = b ++ t ∧ ∀ u p, Node u p → ∃ u' p', Node (b ++ (u ++ u')) p' := by
  induction h with
  | here s => exact ⟨[], rfl, fun u p hu => ⟨[], p, by simpa using hu⟩⟩
  | inside ho hb hr _ ih =>
    obtain ⟨head, rfl, ht, hframed⟩ := exists_head_of_operator ho
    obtain ⟨w, hw, rfl, -⟩ := cons_of_symbol ht hb
    obtain ⟨c, rfl, hlist⟩ := hr.completable
    obtain ⟨b, rfl, hnode⟩ := ih
    refine ⟨head ++ '\x7b' :: (w ++ (c ++ b)), by simp, fun u p hu => ?_⟩
    obtain ⟨u', p', hp'⟩ := hnode u p hu
    obtain ⟨x, y, q, qs, he, hx, hy⟩ := hlist _ _ hp'
    have hblock : Block Node ('\x7b' :: ((w ++ x) ++ (y ++ ([] ++ ['\x7d'])))) (q :: qs) :=
      .items (hx.prepend hw) hy .none
    have hnode := Node.logical (hframed _) hblock
    -- the block closes right behind the node, so the brace is all that the node still needs
    have he' := congrArg (· ++ ['\x7d']) he
    simp only [List.append_assoc] at he'
    exact ⟨u' ++ ['\x7d'], _, by simpa [he'] using hnode⟩

/-! ## In front of a fault -/

/-- What stands in front of a fault in the arguments of a comparison is the beginning of some. -/
theorem ArgumentsFailure.completable (h : ArgumentsFailure s e)
    (hs : startsWith isSpacing s = false) :
    ∃ b u id v, s = b ++ e.innermost.rest ∧ Arguments (b ++ u) id v := by
  cases h with
  | openBracket h =>
    have hargs := Arguments.mk allSpacing_nil allSpacing_nil allSpacing_nil allSpacing_nil
      quoted_empty value_null
    exact ⟨[], _, _, _, (skipSpacing_eq_self hs).symm, hargs⟩
  | @identifier t₁ e h₁ h =>
    obtain ⟨w, hw, rfl, ht₁⟩ := cons_of_symbol hs h₁
    rw [skipSpacing_eq_self ht₁] at h
    rcases quoted_error? h with rfl | ⟨body, hb, rfl, rfl⟩
    -- nothing of the identifier stands in front of the fault, or all of it but the closing quote
    · have hargs := Arguments.mk hw allSpacing_nil allSpacing_nil allSpacing_nil quoted_empty
        value_null
      exact ⟨'[' :: w, _, _, _, rfl, hargs⟩
    · have hargs := Arguments.mk hw allSpacing_nil allSpacing_nil allSpacing_nil
        (.mk (.inr rfl) hb) value_null
      exact ⟨'[' :: (w ++ '\'' :: body), ['\'', ',', 'n', 'u', 'l', 'l', ']'], _, _,
        (List.append_nil _).symm, by simpa using hargs⟩
  | @comma t₁ t₂ id h₁ h₂ h =>
    obtain ⟨w₁, hw₁, rfl, ht₁⟩ := cons_of_symbol hs h₁
    obtain ⟨q, w₂, hq, hw₂, rfl, ht₂⟩ := append_of_quoted ht₁ h₂
    have hargs := Arguments.mk hw₁ hw₂ allSpacing_nil allSpacing_nil hq value_null
    exact ⟨'[' :: (w₁ ++ (q ++ w₂)), [',', 'n', 'u', 'l', 'l', ']'], _, _,
      by simp [skipSpacing_eq_self ht₂], by simpa using hargs⟩
  | @value t₁ t₂ t₃ id e h₁ h₂ h₃ h =>
    obtain ⟨w₁, hw₁, rfl, ht₁⟩ := cons_of_symbol hs h₁
    obtain ⟨q, w₂, hq, hw₂, rfl, ht₂⟩ := append_of_quoted ht₁ h₂
    obtain ⟨w₃, hw₃, rfl, ht₃⟩ := cons_of_symbol ht₂ h₃
    rw [skipSpacing_eq_self ht₃] at h
    obtain ⟨cause, rfl⟩ := literal_error? h
    have hargs := Arguments.mk hw₁ hw₂ hw₃ allSpacing_nil hq value_null
    exact ⟨'[' :: (w₁ ++ (q ++ (w₂ ++ ',' :: w₃))), ['n', 'u', 'l', 'l', ']'], _, _, by simp,
      by simpa using hargs⟩
  | @closeBracket t₁ t₂ t₃ t₄ id v h₁ h₂ h₃ h₄ h =>
    obtain ⟨w₁, hw₁, rfl, ht₁⟩ := cons_of_symbol hs h₁
    obtain ⟨q, w₂, hq, hw₂, rfl, ht₂⟩ := append_of_quoted ht₁ h₂
    obtain ⟨w₃, hw₃, rfl, ht₃⟩ := cons_of_symbol ht₂ h₃
    obtain ⟨w₄, hw₄, hliteral, ht₄⟩ := read_of_spaced ht₃ h₄
    obtain ⟨x, hx, rfl⟩ := exists_of_literal hliteral
    have hargs := Arguments.mk hw₁ hw₂ hw₃ hw₄ hq hx
    exact ⟨'[' :: (w₁ ++ (q ++ (w₂ ++ ',' :: (w₃ ++ (x ++ w₄))))), [']'], _, _,
      by simp [skipSpacing_eq_self ht₄], by simpa using hargs⟩

/-- The colon is missing behind a word that is not the keyword of an operator. -/
def UnknownWord (s : List Char) (e : SyntaxError) : Prop :=
  ∃ word t, spaced keyword s = .read word t ∧ (∀ op : Operator, op.keyword ≠ word) ∧
    startsWith (· = ':') (skipSpacing t) = false ∧ e = .missing .colon t

/-- What stands in front of a list that goes no further is the beginning of a block. -/
theorem exists_block_of_separated {u v w : List Char} {cs : List Predicate}
    (hs : startsWith isSpacing s = false) (hb : symbol '\x7b' s = .read () u)
    (hl : separated (symbol ',') constraint u = .read cs v)
    (hc : (if cs.isEmpty then pure () else optional (symbol ',')) v = .read () w) :
    startsWith isSpacing w = false ∧
      ∃ b, s = b ++ w ∧ Block Node (b ++ ['\x7d']) cs := by
  obtain ⟨x, hx, rfl, -⟩ := cons_of_symbol hs hb
  obtain ⟨hv, ⟨rfl, rfl⟩ | ⟨c, cs', y, z, rfl, hy, hz, rfl⟩⟩ := exists_of_block hb hl
  · obtain ⟨-, rfl⟩ := pure_eq_read_iff.1 hc
    have hblock : Block Node _ [] := .empty hx
    exact ⟨hv, '\x7b' :: x, rfl, by simpa using hblock⟩
  · rcases optional_eq_read_iff.1 hc with hc | ⟨-, rfl⟩
    · obtain ⟨r, hr, rfl, hw⟩ := cons_of_symbol hv hc
      have hblock := Block.items (hy.prepend hx) hz (.comma hr)
      exact ⟨hw, '\x7b' :: (x ++ (y ++ (z ++ ',' :: r))), by simp, by simpa using hblock⟩
    · have hblock := Block.items (hy.prepend hx) hz .none
      exact ⟨hv, '\x7b' :: (x ++ (y ++ z)), by simp, by simpa using hblock⟩

/-- What stands in front of a fault of a node itself is the beginning of a node. -/
theorem NodeFailure.completable (h : NodeFailure s e) (hknown : ¬ UnknownWord s e) :
    ∃ b u p, s = b ++ e.innermost.rest ∧ Node (b ++ u) p := by
  cases h with
  | keyword h =>
    obtain ⟨u, p, hu⟩ := exists_node
    obtain ⟨w, hw, he⟩ := exists_spacing s
    exact ⟨w, u, p, he, hu.prepend hw⟩
  | @colon t word hword h =>
    -- in front of the colon stands a keyword, so its body is what is missing
    have hop : ∃ op : Operator, op.keyword = word := by
      by_contra hno
      exact hknown ⟨word, t, hword, not_exists.1 hno, h, rfl⟩
    obtain ⟨op, rfl⟩ := hop
    obtain ⟨v, r, w, hv, hw, rfl, hr, ht⟩ := exists_of_spaced hword
    obtain rfl := eq_append_of_keyword hr
    obtain ⟨body, hbody⟩ := exists_body op
    obtain ⟨p, hp⟩ := hbody _ (.mk hv hw allSpacing_nil allSpacing_nil)
    exact ⟨v ++ (op.keyword.toList ++ w), ':' :: body, p, by simp [skipSpacing_eq_self ht],
      by simpa using hp⟩
  | unknown hw hc h =>
    -- an unknown operator with its colon is placed in front of the word
    obtain ⟨u, p, hu⟩ := exists_node
    exact ⟨[], u, p, rfl, hu⟩
  | @openBlock t op ho h =>
    obtain ⟨head, rfl, ht, hframed⟩ := exists_head_of_operator ho
    exact ⟨head, ['\x7b', '\x7d'], _, by simp [skipSpacing_eq_self ht],
      .logical (hframed _) block_empty⟩
  | @closeBlock t u v w op cs ho hb hl hc h =>
    obtain ⟨head, rfl, ht, hframed⟩ := exists_head_of_operator ho
    obtain ⟨hw, b, rfl, hblock⟩ := exists_block_of_separated ht hb hl hc
    refine ⟨head ++ b, ['\x7d'], .logical op cs, by simp [skipSpacing_eq_self hw], ?_⟩
    rw [List.append_assoc]
    exact .logical (hframed _) hblock
  | @arguments t op e ho h =>
    obtain ⟨head, rfl, ht, hframed⟩ := exists_head_of_operator ho
    obtain ⟨b, u, id, v, rfl, hargs⟩ := h.completable ht
    refine ⟨head ++ b, u, .comparison op id v, (List.append_assoc ..).symm, ?_⟩
    rw [List.append_assoc]
    exact .comparison (hframed _) hargs

/-- **Completion.** What stands in front of the fault of a node is the beginning of a node, unless a
word that is no operator was read. -/
theorem completable_of_error? (h : (node s).error? = some e)
    (hknown : ∀ t, Visits s t → ¬ UnknownWord t e) :
    ∃ b u p, s = b ++ e.innermost.rest ∧ Node (b ++ u) p := by
  obtain ⟨t, ht, hown⟩ := exists_failure h
  obtain ⟨b, u, p, rfl, hp⟩ := hown.completable (hknown t ht)
  obtain ⟨c, rfl, hnode⟩ := ht.completable
  obtain ⟨u', p', hp'⟩ := hnode _ p hp
  exact ⟨c ++ b, u ++ u', p', by simp, by simpa using hp'⟩

end Parser

namespace Predicate
open JoinPlan.Parser Text Grammar

/-- **Completable texts.** What a refused text holds up to the position of the error can be completed
to a predicate, unless a colon is missing behind a word that is not the keyword of an operator. -/
theorem completable_of_parse_error {t : String} {e : SyntaxError}
    (h : parse t.toList = .error e) (hknown : ∀ s, Visits t.toList s → ¬ UnknownWord s e) :
    ∃ p : t.Pos, p.offset.byteIdx = e.offset t.toList ∧
      ∃ (u : String) (q : Predicate), parse ((t.sliceTo p).copy ++ u).toList = .ok q := by
  have hbegin : ∃ b u q, t.toList = b ++ e.innermost.rest ∧ parse (b ++ u) = .ok q := by
    have hparse : ∀ u q, Node u q → parse u = .ok q := fun u q hu =>
      parse_of_document ⟨u, [], (List.append_nil u).symm, hu, by simp⟩
    rcases exists_of_parse_error h with rfl | hnode | ⟨q, r, hread, rfl⟩
    · obtain ⟨u, q, hu⟩ := exists_node
      exact ⟨[], u, q, rfl, hparse _ _ hu⟩
    · obtain ⟨b, u, q, hb, hu⟩ := completable_of_error? hnode hknown
      exact ⟨b, u, q, hb, hparse _ _ hu⟩
    · obtain ⟨b, hb, he, -⟩ := node_eq_read_iff.1 hread
      exact ⟨b, [], q, he, hparse _ _ (by simpa using hb)⟩
  obtain ⟨b, u, q, hb, hq⟩ := hbegin
  obtain ⟨p, hp, hto, -⟩ := exists_pos hb
  refine ⟨p, hp, String.ofList u, q, ?_⟩
  rw [hto, String.toList_append, String.toList_ofList, String.toList_ofList, hq]

/-- A quote without an end, in a block without an end. -/
theorem completable_of_open_quote :
    let t := "match_any:\x7beq:['é"
    let e : SyntaxError := ⟨⟨.character, []⟩, [⟨.identifier, "'é".toList⟩]⟩
    parse t.toList = .error e ∧ (∀ s, Visits t.toList s → ¬ UnknownWord s e) ∧
      ∃ p : t.Pos, p.offset.byteIdx = 18 ∧
        ∃ (u : String) (q : Predicate), parse ((t.sliceTo p).copy ++ u).toList = .ok q := by
  intro t e
  have hnode : parsePrefix t.toList = .broken e := by
    subst t
    have hinner : node "eq:['é".toList = .broken e := (node_of_comparison (by rfl)).trans rfl
    have hway : Visits "match_any:\x7beq:['é".toList "eq:['é".toList :=
      .inside (by rfl) (by rfl) (.first _) (.here _)
    exact hway.broken hinner
  have hparse : parse t.toList = .error e := by
    have hblank : (trim t.toList).isEmpty = false := by decide
    rw [parse, hblank, hnode]
    rfl
  have hknown : ∀ s, Visits t.toList s → ¬ UnknownWord s e := by
    rintro s - ⟨_, _, -, -, -, he⟩
    have haround := congrArg SyntaxError.around he
    cases haround
  obtain ⟨p, hp, hcompleted⟩ := completable_of_parse_error hparse hknown
  have hoffset : e.offset t.toList = 18 := by decide
  exact ⟨hparse, hknown, p, hp.trans hoffset, hcompleted⟩

end Predicate
end JoinPlan
