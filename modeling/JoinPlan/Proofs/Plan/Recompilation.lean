import JoinPlan.Proofs.Plan.Resolution
/-!
# Compiling what was compiled

The predicate that comes with a plan is in canonical form, and it may be compiled again with the
same aliases. As a look-up goes one step only, a canonical form that is itself an alias is then
replaced once more. A second compilation changes nothing exactly if it meets no such form that
stands for something else.

Results:
* `AliasMap.forall_resolve_eq_iff`: when every canonical form stands for itself.
* `Predicate.resolve_eq_self_iff`: when a predicate stays as it is.
* `Compiled.recompiled_iff`: when one predicate is compiled a second time without a change.
* `Compiled.recompiles_iff_closed`: with which aliases every predicate is.
-/
namespace JoinPlan

namespace AliasMap

/-- Whether every canonical form that is an alias itself stands for itself. -/
def Closed (m : AliasMap) : Prop :=
  ∀ e ∈ m.entries, ∀ e' ∈ m.entries, e'.1 = e.2 → e'.2 = e.2

instance (m : AliasMap) : Decidable m.Closed :=
  inferInstanceAs (Decidable (∀ e ∈ m.entries, ∀ e' ∈ m.entries, e'.1 = e.2 → e'.2 = e.2))

/-- **Two look-ups.** A second look-up never goes further exactly if no alias stands for one that
stands for something else. -/
theorem forall_resolve_eq_iff {m : AliasMap} :
    (∀ id, m.resolve (m.resolve id) = m.resolve id) ↔ m.Closed := by
  constructor
  · rintro h ⟨short, _⟩ he ⟨canonical, next⟩ he' rfl
    have hfirst : m.resolve short = canonical := resolve_eq_iff.2 (.inl he)
    have hsecond : m.resolve canonical = next := resolve_eq_iff.2 (.inl he')
    rw [← hsecond, ← hfirst, h]
  · intro h id
    rcases resolve_eq_iff.1 (Eq.refl (m.resolve id)) with he | ⟨hid, -⟩
    · rcases resolve_eq_iff.1 (Eq.refl (m.resolve (m.resolve id))) with he' | ⟨hsame, -⟩
      · exact h _ he _ he' rfl
      · exact hsame
    · rw [hid, hid]

end AliasMap

theorem map_eq_self_iff {f : String → String} {ids : List String} :
    ids.map f = ids ↔ ∀ id ∈ ids, f id = id := by
  have h : ids.map f = ids.map id ↔ ∀ x ∈ ids, f x = id x := List.map_inj_left
  rwa [List.map_id] at h

theorem Predicate.resolve_eq_self_iff {aliases : Option AliasMap} {p : Predicate} :
    p.resolve aliases = p ↔ ∀ id ∈ p.identifiers, resolveIdentifier aliases id = id := by
  rw [eq_comm, resolve, eq_mapIdentifiers_iff, and_iff_right rfl, eq_comm, map_eq_self_iff]

namespace Compiled

variable {strict : Bool} {aliases : Option AliasMap} {p : Predicate} {c : Compiled}

/-- Whether a second compilation of what was compiled succeeds with the same outcome. -/
def Recompiles (strict : Bool) (aliases : Option AliasMap) (c : Compiled) : Prop :=
  ∃ c', (ofPredicate strict aliases c.predicate).value = .ok c' ∧ c'.predicate = c.predicate ∧
    c'.plan.tree = c.plan.tree ∧ c'.plan.expression = c.plan.expression

/-- **One predicate.** A second compilation changes nothing exactly if it changes no identifier:
then the check of segments, the tree and the canonical form see what they saw before. -/
theorem recompiled_iff (h : (ofPredicate strict aliases p).value = .ok c) :
    Recompiles strict aliases c ↔
      ∀ id ∈ p.canonicalIdentifiers aliases, resolveIdentifier aliases id = id := by
  obtain ⟨hplan, hpredicate⟩ := ofPredicate_eq_ok_iff.1 h
  have hids : c.predicate.identifiers = p.canonicalIdentifiers aliases := by
    rw [hpredicate, Predicate.resolve, Predicate.identifiers_mapIdentifiers,
      Predicate.canonicalIdentifiers]
  rw [← hids, ← Predicate.resolve_eq_self_iff]
  constructor
  · rintro ⟨c', hc', hsame, -, -⟩
    rw [← (ofPredicate_eq_ok_iff.1 hc').2, hsame]
  · intro hfixed
    have hcanonical :
        c.predicate.canonicalIdentifiers aliases = p.canonicalIdentifiers aliases := by
      rw [← hids, Predicate.canonicalIdentifiers, map_eq_self_iff,
        ← Predicate.resolve_eq_self_iff, hfixed]
    exact ⟨c, ofPredicate_eq_ok_iff.2 ⟨hcanonical ▸ hplan, hfixed.symm⟩, rfl, rfl, rfl⟩

/-- **Stability.** With some aliases every predicate that is compiled can be compiled a second time
without a change, under either rules, exactly if every canonical form that is an alias itself stands
for itself. -/
theorem recompiles_iff_closed (m : AliasMap) :
    (∀ (strict : Bool) (p : Predicate) (c : Compiled),
      (ofPredicate strict (some m) p).value = .ok c →
      ∃ c', (ofPredicate strict (some m) c.predicate).value = .ok c' ∧
        c'.predicate = c.predicate ∧ c'.plan.tree = c.plan.tree ∧
        c'.plan.expression = c.plan.expression) ↔
    ∀ e ∈ m.entries, ∀ e' ∈ m.entries, e'.1 = e.2 → e'.2 = e.2 := by
  change (∀ strict p c, (ofPredicate strict (some m) p).value = .ok c →
    Recompiles strict (some m) c) ↔ m.Closed
  rw [← AliasMap.forall_resolve_eq_iff]
  constructor
  · intro h id
    -- a comparison of one field is compiled under lenient rules, whatever its name is
    have hone : (ofPredicate false (some m) (.comparison .eq id .null)).value =
        .ok ⟨.comparison .eq (m.resolve id) .null, _⟩ := rfl
    exact (recompiled_iff hone).1 (h false _ _ hone) (m.resolve id) (List.mem_singleton_self _)
  · intro h strict p c hc
    refine (recompiled_iff hc).2 fun id hid => ?_
    obtain ⟨id, -, rfl⟩ := List.mem_map.1 hid
    exact h id

/-- An alias of an alias: with the first aliases the second one stands for itself and what is
compiled stays as it is; with the others a second compilation of some predicate goes one step
further. -/
theorem recompiles_iff_closed_of_chain :
    let looped := AliasMap.ofList [("pay", "dept.pay"), ("dept.pay", "dept.pay")]
    let chained := AliasMap.ofList [("pay", "dept.pay"), ("dept.pay", "dept.salaries.pay")]
    let p : Predicate := .comparison .geq "pay" .null
    let c : Compiled := ⟨.comparison .geq "dept.pay" .null, ⟨⟨"", [.leaf "dept"]⟩⟩⟩
    ((ofPredicate true (some looped) p).value = .ok c ∧
      ∃ c', (ofPredicate true (some looped) c.predicate).value = .ok c' ∧
        c'.predicate = c.predicate ∧ c'.plan.tree = c.plan.tree ∧
        c'.plan.expression = c.plan.expression) ∧
    ¬ ∀ (strict : Bool) (p : Predicate) (c : Compiled),
      (ofPredicate strict (some chained) p).value = .ok c →
      ∃ c', (ofPredicate strict (some chained) c.predicate).value = .ok c' ∧
        c'.predicate = c.predicate ∧ c'.plan.tree = c.plan.tree ∧
        c'.plan.expression = c.plan.expression := by
  intro looped chained p c
  have hpay : looped.resolve "pay" = "dept.pay" := by decide
  have hids : p.canonicalIdentifiers (some looped) = ["dept.pay"] := congrArg ([·]) hpay
  have hplan : Plan.ofIdentifiers true ["dept.pay"] = .ok c.plan := rfl
  have hpredicate : c.predicate = p.resolve (some looped) :=
    congrArg (Predicate.comparison .geq · .null) hpay.symm
  have hc : (ofPredicate true (some looped) p).value = .ok c :=
    ofPredicate_eq_ok_iff.2 ⟨hids ▸ hplan, hpredicate⟩
  have hclosed : looped.Closed := by decide
  have hchained : ¬ chained.Closed := by decide
  exact ⟨⟨hc, (recompiles_iff_closed looped).2 hclosed true p c hc⟩,
    fun h => hchained ((recompiles_iff_closed chained).1 h)⟩

end Compiled
end JoinPlan
