import JoinPlan.Proofs.Predicate.Tokens
/-!
# The texts that are read as predicates

The reader accepts the language of the grammar and builds the tree that the text derives.

Results:
* `node_eq_read_iff`: reading from the front of a text takes one node and all spacing behind it.
* `parse_of_document`, `document_of_parse`: a text is read as a predicate exactly if it derives it.
* `document_unique`: a text derives one predicate at most.
-/
namespace JoinPlan
open Text Grammar

namespace Parser

variable {s r : List Char} {p : Predicate}

/-! ## Nodes -/

/-- A constraint list is read with a reader of nodes that are shorter than `n`. -/
def shorterNode (n : Nat) : Parser Predicate := fun r =>
  if r.length < n then node r else fail .keyword r

theorem node_eq_read_iff_operator : node s = .read p r ↔
    (∃ op cs t, operator s = .read (.logical op) t ∧
      constraints (shorterNode s.length) t = .read cs r ∧ p = .logical op cs) ∨
    ∃ op id v t, operator s = .read (.comparison op) t ∧ arguments t = .read (id, v) r ∧
      p = .comparison op id v := by
  rw [node, bind_eq_read_iff]
  constructor
  · intro h
    obtain ⟨op | op, t, hop, h⟩ := h
    · obtain ⟨cs, t', hcs, h⟩ := bind_eq_read_iff.1 h
      obtain ⟨rfl, rfl⟩ := pure_eq_read_iff.1 h
      exact .inl ⟨op, cs, t, hop, required_eq_read_iff.1 hcs, rfl⟩
    · obtain ⟨⟨id, v⟩, t', ha, h⟩ := bind_eq_read_iff.1 h
      obtain ⟨rfl, rfl⟩ := pure_eq_read_iff.1 h
      exact .inr ⟨op, id, v, t, hop, required_eq_read_iff.1 ha, rfl⟩
  · intro h
    rcases h with ⟨op, cs, t, hop, hcs, rfl⟩ | ⟨op, id, v, t, hop, ha, rfl⟩
    · exact ⟨_, t, hop, bind_eq_read_iff.2 ⟨cs, r, required_eq_read_iff.2 hcs, rfl⟩⟩
    · exact ⟨_, t, hop, bind_eq_read_iff.2 ⟨(id, v), r, required_eq_read_iff.2 ha, rfl⟩⟩

theorem node_stop (t : List Char) : ∃ e, node ('\x7d' :: t) = .absent e := by
  obtain ⟨e, he⟩ := operator_stop t
  exact ⟨e, by rw [node, bind_apply, he]⟩

theorem exists_framed {op : Operator} {t v b w : List Char} (hop : operator s = .read op t)
    (hv : AllSpacing v) (hw : AllSpacing w) (ht : t = v ++ (b ++ (w ++ r))) :
    ∃ u, Framed op b u ∧ s = u ++ r := by
  obtain ⟨s₁, s₂, s₃, h₁, h₂, h₃, rfl, -⟩ := operator_eq_read_iff.1 hop
  exact ⟨_, .mk h₁ h₂ (h₃.append hv) hw, by simp [ht]⟩

theorem operator_of_framed {op : Operator} {b u : List Char} (hu : Framed op b u)
    (hb : ∀ t, startsWith isSpacing (b ++ t) = false) :
    ∃ w, AllSpacing w ∧ ∀ t, operator (u ++ t) = .read op (b ++ (w ++ t)) := by
  obtain ⟨h₁, h₂, h₃, h₄⟩ := hu
  refine ⟨_, h₄, fun t => operator_eq_read_iff.2 ⟨_, _, _, h₁, h₂, h₃, by simp, hb _⟩⟩

theorem length_le_of_operator {op : Operator} {t : List Char} (h : operator s = .read op t) :
    t.length ≤ s.length := by
  obtain ⟨s₁, s₂, s₃, -, -, -, rfl, -⟩ := operator_eq_read_iff.1 h
  simp only [List.length_append, List.length_cons]
  omega

theorem exists_lead_of_node {u : List Char} (hu : Node u p) :
    ∃ s c u', AllSpacing s ∧ u = s ++ c :: u' ∧ isSpacing c = false ∧ Node (c :: u') p := by
  obtain ⟨w, c, u', hw, rfl, hc, hu⟩ := hu.exists_lead
  exact ⟨w, c, u', hw, rfl, not_isSpacing_of_isAlpha hc, hu⟩

/-- What is known of the texts that are shorter than `n` is what a constraint list needs. -/
theorem reads_shorterNode {n : Nat}
    (h : ∀ t : List Char, t.length < n → ∀ p r,
      node t = .read p r ↔ ∃ u, Node u p ∧ t = u ++ r ∧ startsWith isSpacing r = false) :
    Reads n (shorterNode n) Node where
  iff t ht q r := by
    rw [shorterNode, if_pos ht]
    exact h t ht q r
  prepend hs hu := hu.prepend hs
  lead hu := exists_lead_of_node hu
  stop t := by
    unfold shorterNode
    split
    · exact node_stop t
    · exact ⟨_, rfl⟩

/-- **Nodes.** A node is read from the front of a text, with all spacing behind it. By induction on
the length of the text, as a constraint stands further on than the node that holds it. -/
theorem node_eq_read_iff : node s = .read p r ↔
    ∃ u, Node u p ∧ s = u ++ r ∧ startsWith isSpacing r = false := by
  induction hn : s.length using Nat.strongRecOn generalizing s p r with
  | ind n ih =>
    have hreads := reads_shorterNode (n := s.length) fun t ht q r => ih t.length (hn ▸ ht) rfl
    rw [node_eq_read_iff_operator]
    constructor
    · intro h
      rcases h with ⟨op, cs, t, hop, hcs, rfl⟩ | ⟨op, id, v, t, hop, ha, rfl⟩
      · obtain ⟨x, b, y, hx, hb, hy, ht, hr⟩ :=
          (constraints_eq_read_iff hreads (length_le_of_operator hop)).1 hcs
        obtain ⟨u, hu, rfl⟩ := exists_framed hop hx hy ht
        exact ⟨u, .logical hu hb, rfl, hr⟩
      · obtain ⟨x, b, y, hx, hb, hy, ht, hr⟩ := arguments_eq_read_iff.1 ha
        obtain ⟨u, hu, rfl⟩ := exists_framed hop hx hy ht
        exact ⟨u, .comparison hu hb, rfl, hr⟩
    · intro h
      obtain ⟨u, hu, rfl, hr⟩ := h
      cases hu with
      | @logical op _ body cs hu hb =>
        obtain ⟨w, hw, hop⟩ := operator_of_framed hu (by cases hb <;> simp [isSpacing])
        exact .inl ⟨op, cs, _, hop r,
          (constraints_eq_read_iff hreads (length_le_of_operator (hop r))).2
            ⟨[], body, w, allSpacing_nil, hb, hw, rfl, hr⟩, rfl⟩
      | @comparison op _ body id v hu hb =>
        obtain ⟨w, hw, hop⟩ := operator_of_framed hu (by cases hb; simp [isSpacing])
        exact .inr ⟨op, id, v, _, hop r,
          arguments_eq_read_iff.2 ⟨[], body, w, allSpacing_nil, hb, hw, rfl, hr⟩, rfl⟩

end Parser

/-! ## Whole texts -/

namespace Predicate
open JoinPlan.Parser

variable {s : List Char} {p : Predicate}

theorem parse_eq_ok_iff_node : parse s = .ok p ↔
    trim s ≠ [] ∧ ∃ r, node s = .read p r ∧ ∀ c ∈ r, isBlank c = true := by
  unfold parse parsePrefix
  split
  · rename_i hs; simp [List.isEmpty_iff.1 hs]
  · rename_i hs
    rw [and_iff_right (mt List.isEmpty_iff.2 hs)]
    cases node s with
    | read q r =>
      simp only [Outcome.read.injEq, ← trim_eq_nil_iff, List.isEmpty_iff]
      by_cases hr : trim r = []
      · simp [hr]
      · simp [hr]
    | absent e => simp
    | broken e => simp

/-- **Soundness.** A text that is read as a predicate derives it. -/
theorem document_of_parse (h : parse s = .ok p) : Document s p := by
  obtain ⟨-, r, hnode, hr⟩ := parse_eq_ok_iff_node.1 h
  obtain ⟨u, hu, rfl, -⟩ := node_eq_read_iff.1 hnode
  exact ⟨u, r, rfl, hu, hr⟩

/-- **Completeness.** A text that derives a predicate is read as it. -/
theorem parse_of_document (h : Document s p) : parse s = .ok p := by
  obtain ⟨u, z, rfl, hu, hz⟩ := h
  rw [parse_eq_ok_iff_node]
  constructor
  · obtain ⟨w, c, u', -, rfl, hc, -⟩ := hu.exists_lead
    rw [Ne, trim_eq_nil_iff]
    intro hblank
    have := hblank c (by simp)
    rw [not_isBlank_of_isAlpha hc] at this
    cases this
  -- the node takes the spacing in front of the other blanks
  · obtain ⟨w, hw, he⟩ := exists_spacing z
    refine ⟨skipSpacing z, node_eq_read_iff.2 ⟨u ++ w, hu.append hw, ?_,
      startsWith_skipSpacing z⟩, fun c hc => hz c ?_⟩
    · rw [List.append_assoc, ← he]
    · exact (List.dropWhile_sublist isSpacing).mem hc

/-- A text derives one predicate at most. -/
theorem document_unique {q : Predicate} (hp : Document s p) (hq : Document s q) : p = q := by
  have h := parse_of_document hp
  rw [parse_of_document hq] at h
  cases h
  rfl

/-- **Recognition.** A text is read as a predicate exactly if it derives it. -/
theorem parse_eq_ok_iff_document (t : String) (p : Predicate) :
    parse t.toList = .ok p ↔ Document t.toList p :=
  ⟨document_of_parse, parse_of_document⟩

end Predicate
end JoinPlan
