import JoinPlan.Predicate.Printer
import JoinPlan.Proofs.Number.ReadBack
import JoinPlan.Proofs.Predicate.Recognition
import JoinPlan.Proofs.Predicate.Writable
/-!
# Reading written predicates back

The text of a predicate that can be written derives it in the grammar, so it is read as the same
predicate. No other predicate is read as an equal one, as reading makes only such predicates.

Results:
* `Literal.value_write`, `Predicate.node_write`: a text derives what it was written for.
* `Predicate.parse_text`: reading a written predicate gives it back.
* `Predicate.readsBack_iff`: which predicates are read back as equal ones.
-/
namespace JoinPlan
open Text Grammar

theorem quoted_writeQuoted {t : String} (h : isQuotable t = true) : Quoted (writeQuoted t) t := by
  have mk : ∀ {quote : Char}, quote = '"' ∨ quote = '\'' → quote ∉ t.toList →
      Quoted (quote :: (t.toList ++ [quote])) t := by
    intro quote hq hb
    have := Quoted.mk hq hb
    rwa [String.ofList_toList] at this
  rcases writeQuoted_eq t with ⟨he, hd⟩ | ⟨he, hd⟩
  · rw [he]
    exact mk (.inl rfl) hd
  · rw [he]
    refine mk (.inr rfl) fun hs => ?_
    simp [isQuotable, hd, hs] at h

/-- The text of a value derives it. -/
theorem Literal.value_write {v : Literal} (h : v.isWritable = true) : Value v.write v := by
  cases v with
  | integer i => exact .integer (Numeral.wellFormed_ofInt _) rfl (Numeral.integer_ofInt _)
  | float x =>
    cases x with
    | finite negative x =>
      -- a float is never written like an integer
      have hi : (Predicate.floatForm.numeral negative x).isIntegral = true →
          ∀ i : Int64, (Predicate.floatForm.numeral negative x).integer ≠ i.toInt := by
        rw [Notation.isIntegral_numeral]; simp
      have hv := Value.float (Notation.wellFormed_numeral Predicate.floatForm negative x) hi
        (Notation.absValue_numeral Predicate.floatForm negative x)
      rwa [Notation.text_numeral, Notation.isNegative_numeral] at hv
    | infinite negative => cases h
    | nan => cases h
  | text t => exact .text (quoted_writeQuoted h)
  | boolean b => cases b <;> exact .word (.boolean (by decide))
  | null => exact .word (.null (by decide))

namespace Predicate

/-! ## Derivations of written texts -/

/-- The items of a block are written with a space behind each comma, and spacing may follow. -/
theorem items_writeAll {p : Predicate} {ps : List Predicate}
    (h : ∀ q ∈ p :: ps, Node q.write q) {z : List Char} (hz : AllSpacing z) :
    ∃ u v, Node u p ∧ Further Node v ps ∧ writeAll (p :: ps) ++ z = u ++ v := by
  induction ps generalizing p with
  | nil => exact ⟨p.write ++ z, [], (h p (by simp)).append hz, .nil, by simp [writeAll]⟩
  | cons q qs ih =>
    obtain ⟨u, v, hu, hv, he⟩ := ih fun r hr => h r (List.mem_cons_of_mem p hr)
    refine ⟨p.write, ',' :: (([' '] ++ u) ++ v), h p (by simp),
      .cons (hu.prepend allSpacing_space) hv, ?_⟩
    simp [writeAll, he]

theorem block_writeAll {cs : List Predicate} (h : ∀ c ∈ cs, Node c.write c) :
    Block Node ('\x7b' :: ([' '] ++ (writeAll cs ++ ([' '] ++ ['\x7d'])))) cs := by
  cases cs with
  | nil => exact .empty (allSpacing_space.append allSpacing_space)
  | cons c cs =>
    obtain ⟨u, v, hu, hv, he⟩ := items_writeAll h allSpacing_space
    have hb := Block.items (hu.prepend allSpacing_space) hv .none
    rw [List.nil_append] at hb
    rw [← List.append_assoc (writeAll (c :: cs)), he]
    simpa using hb

theorem arguments_write {id : String} {v : Literal} (hid : isQuotable id = true)
    (hv : v.isWritable = true) :
    Arguments ('[' :: (writeQuoted id ++ (',' :: ' ' :: (v.write ++ [']'])))) id v := by
  exact .mk allSpacing_nil allSpacing_nil allSpacing_space allSpacing_nil
    (quoted_writeQuoted hid) (Literal.value_write hv)

/-- A keyword, a colon and a space in front of what they belong to. -/
theorem framed_write (op : Operator) (body : List Char) :
    Framed op body (op.keyword.toList ++ (':' :: ' ' :: body)) := by
  have h : Framed op body ([] ++ (op.keyword.toList ++ ([] ++ ':' :: ([' '] ++ (body ++ []))))) :=
    .mk allSpacing_nil allSpacing_nil allSpacing_space allSpacing_nil
  simpa using h

/-- The text of a predicate derives it. -/
theorem node_write (p : Predicate) : p.isWritable = true → Node p.write p := by
  induction p using induction with
  | logical op cs ih =>
    intro h
    rw [isWritable, allWritable_iff] at h
    have hb := block_writeAll fun c hc => ih c hc (h c hc)
    have hw := Node.logical (framed_write (.logical op) _) hb
    simpa [write, Operator.keyword] using hw
  | comparison op id v =>
    intro h
    rw [isWritable, Bool.and_eq_true] at h
    have hw := Node.comparison (framed_write (.comparison op) _) (arguments_write h.1 h.2)
    simpa [write, Operator.keyword] using hw

/-- Reading a written predicate gives it back, to the sign of its zeros. -/
theorem parse_text {p : Predicate} (h : p.isWritable = true) : parse p.text.toList = .ok p := by
  refine parse_of_document ⟨p.write, [], ?_, node_write p h, by simp⟩
  rw [text, String.toList_ofList, List.append_nil]

/-- **Round trip.** A written predicate is read as an equal one exactly if all its identifiers and
text values can be quoted and all its floats are finite. -/
theorem readsBack_iff (p : Predicate) :
    (∃ q, parse p.text.toList = .ok q ∧ q.sameValue p = true) ↔ p.isWritable = true := by
  constructor
  · intro h
    obtain ⟨q, hq, hsame⟩ := h
    obtain ⟨u, -, -, hu, -⟩ := document_of_parse hq
    exact isWritable_of_sameValue hsame (isWritable_of_node q u hu)
  · intro h
    exact ⟨p, parse_text h, sameValue_self h⟩

end Predicate
end JoinPlan
