import JoinPlan.Proofs.Plan.Identifiers
/-!
# Resolution before compilation

Aliases are looked up where identifiers are checked, where their paths are taken and where the
predicate is put into canonical form. All three see the same identifiers, so the canonical form can
as well be made first and compiled without aliases.

Results:
* `AliasMap.resolve_eq_iff`: a look-up takes one entry and goes no further.
* `Predicate.eq_mapIdentifiers_iff`: replacing identifiers keeps everything else.
* `Compiled.ofPredicate_resolve`: compiling the canonical form without aliases is compiling with
  them.
-/
namespace JoinPlan

/-! ## Look-ups -/

/-- A look-up gives what the entry of an alias says, whatever that stands for in turn, and leaves
an identifier that is no alias. -/
theorem AliasMap.resolve_eq_iff {m : AliasMap} {identifier canonical : String} :
    m.resolve identifier = canonical ↔ (identifier, canonical) ∈ m.entries ∨
      canonical = identifier ∧ ∀ e ∈ m.entries, e.1 ≠ identifier := by
  rw [resolve, get?]
  cases hfind : m.entries.find? (·.1 = identifier) with
  | none =>
    have hnone : ∀ e ∈ m.entries, e.1 ≠ identifier := by simpa using List.find?_eq_none.1 hfind
    have hnot : (identifier, canonical) ∉ m.entries := fun h => hnone _ h rfl
    simp only [Option.map_none, Option.getD_none, hnot, false_or]
    exact ⟨fun h => ⟨h.symm, hnone⟩, fun h => h.1.symm⟩
  | some e =>
    have hmem := List.mem_of_find?_eq_some hfind
    have hkey : e.1 = identifier := by simpa using List.find?_some hfind
    simp only [Option.map_some, Option.getD_some]
    constructor
    · rintro rfl
      exact .inl (by rw [← hkey]; exact hmem)
    · rintro (h | ⟨-, hnone⟩)
      · have heq := List.inj_on_of_nodup_map m.distinct hmem h hkey
        rw [heq]
      · exact absurd hkey (hnone e hmem)

/-! ## What replacing identifiers keeps -/

/-- A predicate without its identifiers. -/
inductive Outline where
  | logical (op : LogicalOperator) (constraints : List Outline)
  | comparison (op : ComparisonOperator) (value : Literal)

namespace Predicate

mutual

/-- The operators, values and order of constraints of a predicate. -/
def outline : Predicate → Outline
  | .logical op cs => .logical op (outlines cs)
  | .comparison op _ v => .comparison op v

def outlines : List Predicate → List Outline
  | [] => []
  | p :: ps => p.outline :: outlines ps

end

mutual

theorem outline_mapIdentifiers (f : String → String) :
    ∀ p : Predicate, (p.mapIdentifiers f).outline = p.outline
  | .logical op cs => by rw [mapIdentifiers, outline, outlines_mapAllIdentifiers f cs, outline]
  | .comparison op id v => rfl

theorem outlines_mapAllIdentifiers (f : String → String) :
    ∀ ps : List Predicate, outlines (mapAllIdentifiers f ps) = outlines ps
  | [] => rfl
  | p :: ps => by
    rw [mapAllIdentifiers, outlines, outline_mapIdentifiers f p, outlines_mapAllIdentifiers f ps,
      outlines]

end

mutual

/-- Predicates of one outline have as many identifiers. -/
theorem length_identifiers_of_outline_eq : ∀ {p q : Predicate}, p.outline = q.outline →
    p.identifiers.length = q.identifiers.length
  | .logical _ cs, .logical _ ds, h => by
    rw [outline, outline, Outline.logical.injEq] at h
    rw [identifiers, identifiers]
    exact length_allIdentifiers_of_outlines_eq h.2
  | .comparison _ _ _, .comparison _ _ _, _ => rfl
  | .logical _ _, .comparison _ _ _, h => by simp [outline] at h
  | .comparison _ _ _, .logical _ _, h => by simp [outline] at h

theorem length_allIdentifiers_of_outlines_eq : ∀ {ps qs : List Predicate},
    outlines ps = outlines qs → (allIdentifiers ps).length = (allIdentifiers qs).length
  | [], [], _ => rfl
  | p :: ps, q :: qs, h => by
    rw [outlines, outlines, List.cons.injEq] at h
    rw [allIdentifiers, allIdentifiers, List.length_append, List.length_append,
      length_identifiers_of_outline_eq h.1, length_allIdentifiers_of_outlines_eq h.2]
  | [], _ :: _, h => by simp [outlines] at h
  | _ :: _, [], h => by simp [outlines] at h

end

mutual

/-- The outline and the identifiers are all there is to a predicate. -/
theorem eq_of_outline_eq : ∀ {p q : Predicate}, p.outline = q.outline →
    p.identifiers = q.identifiers → p = q
  | .logical _ cs, .logical _ ds, h, hids => by
    rw [outline, outline, Outline.logical.injEq] at h
    rw [identifiers, identifiers] at hids
    rw [h.1, all_eq_of_outlines_eq h.2 hids]
  | .comparison _ _ _, .comparison _ _ _, h, hids => by
    rw [outline, outline, Outline.comparison.injEq] at h
    rw [identifiers, identifiers, List.cons.injEq] at hids
    rw [h.1, h.2, hids.1]
  | .logical _ _, .comparison _ _ _, h, _ => by simp [outline] at h
  | .comparison _ _ _, .logical _ _, h, _ => by simp [outline] at h

theorem all_eq_of_outlines_eq : ∀ {ps qs : List Predicate}, outlines ps = outlines qs →
    allIdentifiers ps = allIdentifiers qs → ps = qs
  | [], [], _, _ => rfl
  | p :: ps, q :: qs, h, hids => by
    rw [outlines, outlines, List.cons.injEq] at h
    rw [allIdentifiers, allIdentifiers] at hids
    obtain ⟨hp, hps⟩ := List.append_inj hids (length_identifiers_of_outline_eq h.1)
    rw [eq_of_outline_eq h.1 hp, all_eq_of_outlines_eq h.2 hps]
  | [], _ :: _, h, _ => by simp [outlines] at h
  | _ :: _, [], h, _ => by simp [outlines] at h

end

/-- Replacing identifiers keeps the outline, replaces each identifier in its place, and is
determined by that. -/
theorem eq_mapIdentifiers_iff {f : String → String} {p q : Predicate} :
    q = p.mapIdentifiers f ↔ q.outline = p.outline ∧ q.identifiers = p.identifiers.map f := by
  constructor
  · rintro rfl
    exact ⟨outline_mapIdentifiers f p, identifiers_mapIdentifiers f p⟩
  · rintro ⟨houtline, hids⟩
    refine eq_of_outline_eq ?_ ?_
    · rw [houtline, outline_mapIdentifiers]
    · rw [hids, identifiers_mapIdentifiers]

/-! ## Canonical forms -/

theorem resolve_none (p : Predicate) : p.resolve none = p := by
  rw [resolve, eq_comm, eq_mapIdentifiers_iff]
  exact ⟨rfl, (List.map_id p.identifiers).symm⟩

theorem canonicalIdentifiers_resolve (aliases : Option AliasMap) (p : Predicate) :
    (p.resolve aliases).canonicalIdentifiers none = p.canonicalIdentifiers aliases := by
  rw [canonicalIdentifiers, canonicalIdentifiers, resolve, identifiers_mapIdentifiers]
  exact List.map_id _

end Predicate

/-- **Resolve first.** Compiling the canonical form of a predicate without aliases is compiling the
predicate with them, in success and in failure. The canonical form has the outline of the predicate,
and for each identifier the one that a single look-up gives. -/
theorem Compiled.ofPredicate_resolve (strict : Bool) (m : AliasMap) (p : Predicate) :
    (ofPredicate strict none (p.resolve (some m))).value = (ofPredicate strict (some m) p).value ∧
    (∀ q : Predicate, q = p.resolve (some m) ↔
      q.outline = p.outline ∧ q.identifiers = p.identifiers.map m.resolve) ∧
    ∀ id canonical, m.resolve id = canonical ↔ (id, canonical) ∈ m.entries ∨
      canonical = id ∧ ∀ e ∈ m.entries, e.1 ≠ id := by
  refine ⟨?_, fun q => Predicate.eq_mapIdentifiers_iff, fun id canonical => AliasMap.resolve_eq_iff⟩
  rw [ofPredicate_value, ofPredicate_value, Predicate.canonicalIdentifiers_resolve,
    Predicate.resolve_none]

end JoinPlan
