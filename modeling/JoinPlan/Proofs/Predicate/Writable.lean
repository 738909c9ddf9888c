import JoinPlan.Proofs.Predicate.Grammar
/-!
# Predicates that can be written

The text form has no escapes and no names for infinities. A predicate can be written in it if every
identifier and every text value can stand between quotes and every float is finite.

Results:
* `Predicate.induction`: induction over the tree, with a hypothesis for each constraint.
* `isWritable_of_node`: only such predicates are derived by texts.
* `isWritable_of_sameValue`: equal predicates agree about it.
-/
namespace JoinPlan
open Text

/-- Whether a value has a text form that is a value again. -/
def Literal.isWritable : Literal → Bool
  | .float x => x.isFinite
  | .text t => isQuotable t
  | _ => true

namespace Predicate

mutual

/-- Whether all identifiers and text values can be quoted and all floats are finite. -/
def isWritable : Predicate → Bool
  | .logical _ cs => allWritable cs
  | .comparison _ id v => isQuotable id && v.isWritable

def allWritable : List Predicate → Bool
  | [] => true
  | p :: ps => p.isWritable && allWritable ps

end

theorem allWritable_iff {ps : List Predicate} :
    allWritable ps = true ↔ ∀ p ∈ ps, p.isWritable = true := by
  induction ps with
  | nil => simp [allWritable]
  | cons p ps ih => simp [allWritable, ih]

/-- A property that passes from all constraints to a logical node, and that comparisons have, holds
of every predicate. -/
theorem induction {motive : Predicate → Prop}
    (logical : ∀ op cs, (∀ c ∈ cs, motive c) → motive (.logical op cs))
    (comparison : ∀ op id v, motive (.comparison op id v)) (p : Predicate) : motive p := by
  refine Predicate.rec (motive_2 := fun cs => ∀ c ∈ cs, motive c) logical comparison ?_ ?_ p
  · simp
  · intro c cs hc hcs
    exact List.forall_mem_cons.2 ⟨hc, hcs⟩

end Predicate

/-! ## What is derived can be written -/

namespace Grammar

theorem Quoted.isQuotable {u : List Char} {t : String} (h : Quoted u t) : isQuotable t = true := by
  cases h with
  | mk hq hb => rcases hq with rfl | rfl <;> simp [JoinPlan.isQuotable, hb]

theorem Word.isWritable {u : List Char} {v : Literal} (h : Word u v) : v.isWritable = true := by
  cases h <;> rfl

theorem Value.isWritable {u : List Char} {v : Literal} (h : Value u v) : v.isWritable = true := by
  cases h with
  | text h => exact h.isQuotable
  | integer => rfl
  | float => rfl
  | word h => exact h.isWritable

theorem Further.exists_item {α : Type} {Item : List Char → α → Prop} {u : List Char} {as : List α}
    (h : Further Item u as) : ∀ a ∈ as, ∃ v, Item v a := by
  induction h with
  | nil => simp
  | cons hu hv ih =>
    exact List.forall_mem_cons.2 ⟨⟨_, hu⟩, ih⟩

theorem Block.exists_item {α : Type} {Item : List Char → α → Prop} {u : List Char} {as : List α}
    (h : Block Item u as) : ∀ a ∈ as, ∃ v, Item v a := by
  cases h with
  | empty hs => simp
  | items hu hv hw => exact (Further.cons hu hv).exists_item

end Grammar

namespace Predicate
open Grammar

/-- Every quoted text is quotable, and every float that is read is finite. -/
theorem isWritable_of_node (p : Predicate) : ∀ u, Node u p → p.isWritable = true := by
  induction p using induction with
  | logical op cs ih =>
    intro u h
    cases h with
    | logical hu hb =>
      rw [isWritable, allWritable_iff]
      intro c hc
      obtain ⟨v, hv⟩ := hb.exists_item c hc
      exact ih c hc v hv
  | comparison op id v =>
    intro u h
    cases h with
    | comparison hu hb =>
      cases hb with
      | mk h₁ h₂ h₃ h₄ hid hv => rw [isWritable, hid.isQuotable, hv.isWritable]; rfl

/-! ## Equality of values -/

theorem literal_isWritable_of_sameValue {v w : Literal} (h : v.sameValue w = true)
    (hv : v.isWritable = true) : w.isWritable = true := by
  unfold Literal.sameValue at h
  split at h
  · rename_i x y
    cases x <;> cases y <;> simp_all [Binary64.sameValue, Literal.isWritable, Binary64.isFinite]
  · obtain rfl := of_decide_eq_true h
    exact hv

theorem literal_sameValue_self {v : Literal} (hv : v.isWritable = true) :
    v.sameValue v = true := by
  unfold Literal.sameValue
  split
  · rename_i x y
    cases x <;> cases y <;> simp_all [Binary64.sameValue, Literal.isWritable, Binary64.isFinite]
  · exact decide_eq_true rfl

mutual

theorem isWritable_of_sameValue : ∀ {p q : Predicate}, p.sameValue q = true →
    p.isWritable = true → q.isWritable = true
  | .logical _ cs, .logical _ ds, h, hp => by
    simp only [sameValue, Bool.and_eq_true] at h
    exact allWritable_of_allSameValue h.2 hp
  | .comparison _ id v, .comparison _ id' v', h, hp => by
    simp only [sameValue, Bool.and_eq_true, decide_eq_true_eq] at h
    obtain ⟨⟨-, rfl⟩, hv⟩ := h
    simp only [isWritable, Bool.and_eq_true] at hp ⊢
    exact ⟨hp.1, literal_isWritable_of_sameValue hv hp.2⟩
  | .logical _ _, .comparison _ _ _, h, _ => by simp [sameValue] at h
  | .comparison _ _ _, .logical _ _, h, _ => by simp [sameValue] at h

theorem allWritable_of_allSameValue : ∀ {ps qs : List Predicate}, allSameValue ps qs = true →
    allWritable ps = true → allWritable qs = true
  | [], [], _, h => h
  | p :: ps, q :: qs, h, hp => by
    simp only [allSameValue, allWritable, Bool.and_eq_true] at h hp ⊢
    exact ⟨isWritable_of_sameValue h.1 hp.1, allWritable_of_allSameValue h.2 hp.2⟩
  | [], _ :: _, h, _ => by simp [allSameValue] at h
  | _ :: _, [], h, _ => by simp [allSameValue] at h

end

mutual

theorem sameValue_self : ∀ {p : Predicate}, p.isWritable = true → p.sameValue p = true
  | .logical _ cs, h => by
    simp only [sameValue, decide_true, Bool.true_and]
    exact allSameValue_self h
  | .comparison _ _ _, h => by
    simp only [isWritable, Bool.and_eq_true] at h
    simp only [sameValue, decide_true, Bool.true_and, literal_sameValue_self h.2]

theorem allSameValue_self : ∀ {ps : List Predicate}, allWritable ps = true →
    allSameValue ps ps = true
  | [], _ => rfl
  | p :: ps, h => by
    simp only [allWritable, Bool.and_eq_true] at h
    simp only [allSameValue, sameValue_self h.1, allSameValue_self h.2, Bool.and_self]

end

end Predicate
end JoinPlan
