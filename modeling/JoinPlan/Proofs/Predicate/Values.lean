import JoinPlan.Proofs.Predicate.Writable
/-!
# What a predicate holds

A predicate holds identifiers and values, from left to right. The conditions under which its forms
can be read back are conditions on these, wherever in the tree they stand.

Results:
* `Predicate.isWritable_iff`: being writable is having quotable texts and finite floats.
* `Predicate.hasQuotableTexts_logical`, `Predicate.hasFiniteFloats_logical`: a node has what each of
  its constraints has.
* `Predicate.values_mapIdentifiers`: replacing identifiers keeps the values.
-/
namespace JoinPlan

namespace Literal

/-- Whether a value is no text that cannot be quoted. -/
def hasQuotableText : Literal → Bool
  | .text t => isQuotable t
  | _ => true

/-- Whether a value is no infinite float and no float that is not a number. -/
def hasFiniteFloat : Literal → Bool
  | .float x => x.isFinite
  | _ => true

def isFloat : Literal → Bool
  | .float _ => true
  | _ => false

end Literal

namespace Predicate

mutual

/-- The values of the comparisons from left to right. -/
def values : Predicate → List Literal
  | .logical _ cs => allValues cs
  | .comparison _ _ v => [v]

def allValues : List Predicate → List Literal
  | [] => []
  | p :: ps => p.values ++ allValues ps

end

/-- Every identifier and every text value can stand between quotes. -/
def HasQuotableTexts (p : Predicate) : Prop :=
  (∀ id ∈ p.identifiers, isQuotable id = true) ∧ ∀ v ∈ p.values, v.hasQuotableText = true

/-- No float is infinite or not a number. -/
def HasFiniteFloats (p : Predicate) : Prop :=
  ∀ v ∈ p.values, v.hasFiniteFloat = true

/-- There are no floats. -/
def HasNoFloats (p : Predicate) : Prop :=
  ∀ v ∈ p.values, v.isFloat = false

instance (p : Predicate) : Decidable p.HasQuotableTexts :=
  inferInstanceAs (Decidable (_ ∧ _))

instance (p : Predicate) : Decidable p.HasFiniteFloats :=
  inferInstanceAs (Decidable (∀ v ∈ p.values, v.hasFiniteFloat = true))

instance (p : Predicate) : Decidable p.HasNoFloats :=
  inferInstanceAs (Decidable (∀ v ∈ p.values, v.isFloat = false))

section

variable {op : LogicalOperator} {cs : List Predicate}

theorem mem_identifiers_logical {id : String} :
    id ∈ (logical op cs).identifiers ↔ ∃ c ∈ cs, id ∈ c.identifiers := by
  rw [identifiers]
  induction cs with
  | nil => simp [allIdentifiers]
  | cons c cs ih => simp [allIdentifiers, ih]

theorem mem_values_logical {v : Literal} :
    v ∈ (logical op cs).values ↔ ∃ c ∈ cs, v ∈ c.values := by
  rw [values]
  induction cs with
  | nil => simp [allValues]
  | cons c cs ih => simp [allValues, ih]

theorem hasQuotableTexts_logical :
    (logical op cs).HasQuotableTexts ↔ ∀ c ∈ cs, c.HasQuotableTexts := by
  simp only [HasQuotableTexts, mem_identifiers_logical, mem_values_logical]
  constructor
  · intro h c hc
    exact ⟨fun id hid => h.1 id ⟨c, hc, hid⟩, fun v hv => h.2 v ⟨c, hc, hv⟩⟩
  · intro h
    exact ⟨fun id ⟨c, hc, hid⟩ => (h c hc).1 id hid, fun v ⟨c, hc, hv⟩ => (h c hc).2 v hv⟩

theorem hasFiniteFloats_logical :
    (logical op cs).HasFiniteFloats ↔ ∀ c ∈ cs, c.HasFiniteFloats := by
  simp only [HasFiniteFloats, mem_values_logical]
  exact ⟨fun h c hc v hv => h v ⟨c, hc, hv⟩, fun h v ⟨c, hc, hv⟩ => h c hc v hv⟩

theorem hasNoFloats_logical : (logical op cs).HasNoFloats ↔ ∀ c ∈ cs, c.HasNoFloats := by
  simp only [HasNoFloats, mem_values_logical]
  exact ⟨fun h c hc v hv => h v ⟨c, hc, hv⟩, fun h v ⟨c, hc, hv⟩ => h c hc v hv⟩

end

section

variable {op : ComparisonOperator} {id : String} {v : Literal}

theorem hasQuotableTexts_comparison : (comparison op id v).HasQuotableTexts ↔
    isQuotable id = true ∧ v.hasQuotableText = true := by
  simp [HasQuotableTexts, identifiers, values]

theorem hasFiniteFloats_comparison :
    (comparison op id v).HasFiniteFloats ↔ v.hasFiniteFloat = true := by
  simp [HasFiniteFloats, values]

theorem hasNoFloats_comparison : (comparison op id v).HasNoFloats ↔ v.isFloat = false := by
  simp [HasNoFloats, values]

end

/-- Where there are no floats, all are finite. -/
theorem HasNoFloats.hasFiniteFloats {p : Predicate} (h : p.HasNoFloats) : p.HasFiniteFloats := by
  intro v hv
  have hfloat := h v hv
  cases v with
  | float x => cases hfloat
  | _ => rfl

/-- Being writable is a condition on texts and one on floats. -/
theorem isWritable_iff (p : Predicate) :
    p.isWritable = true ↔ p.HasQuotableTexts ∧ p.HasFiniteFloats := by
  induction p using induction with
  | logical op cs ih =>
    rw [isWritable, allWritable_iff, hasQuotableTexts_logical, hasFiniteFloats_logical]
    exact ⟨fun h => ⟨fun c hc => ((ih c hc).1 (h c hc)).1, fun c hc => ((ih c hc).1 (h c hc)).2⟩,
      fun h c hc => (ih c hc).2 ⟨h.1 c hc, h.2 c hc⟩⟩
  | comparison op id v =>
    rw [isWritable, Bool.and_eq_true, hasQuotableTexts_comparison, hasFiniteFloats_comparison]
    cases v <;> simp [Literal.isWritable, Literal.hasQuotableText, Literal.hasFiniteFloat]

mutual

theorem values_mapIdentifiers (f : String → String) :
    ∀ p : Predicate, (p.mapIdentifiers f).values = p.values
  | .logical op cs => by rw [mapIdentifiers, values, values, allValues_mapAllIdentifiers f cs]
  | .comparison op id v => rfl

theorem allValues_mapAllIdentifiers (f : String → String) :
    ∀ ps : List Predicate, allValues (mapAllIdentifiers f ps) = allValues ps
  | [] => rfl
  | p :: ps => by
    rw [mapAllIdentifiers, allValues, allValues, values_mapIdentifiers f p,
      allValues_mapAllIdentifiers f ps]

end

end Predicate
end JoinPlan
