import JoinPlan.Predicate.Parser
import JoinPlan.Proofs.Predicate.Grammar
/-!
# What readers read

For each way to put readers together, when it reads a given value and leaves a given rest. The rest
of a spaced reader does not start with spacing, so a rule of the grammar that ends with spacing is
read together with all of it.

Results:
* `bind_eq_read_iff`, `within_eq_read_iff`, `required_eq_read_iff`, `orElse_eq_read_iff`,
  `optional_eq_read_iff`: the combinators.
* `spaced_of_read`, `exists_of_spaced`, `symbol_eq_read_iff`: readers with spacing on both sides.
* `exists_of_following`, `following_of_further`: the items behind the first one.
* `constraints_eq_read_iff`: a block of items that stand in a given language.
-/
namespace JoinPlan.Parser
open Text Grammar

variable {α β : Type} {s r : List Char}

/-! ## Combinators -/

theorem pure_eq_read_iff {a b : α} : (pure a : Parser α) s = .read b r ↔ a = b ∧ s = r := by
  rw [pure_apply, Outcome.read.injEq]

theorem bind_eq_read_iff {p : Parser α} {f : α → Parser β} {b : β} :
    (p >>= f) s = .read b r ↔ ∃ a t, p s = .read a t ∧ f a t = .read b r := by
  rw [bind_apply]
  cases h : p s <;> simp

theorem within_eq_read_iff {cause : Cause} {p : Parser α} {a : α} :
    within cause p s = .read a r ↔ p s = .read a r := by
  unfold within
  cases h : p s <;> simp

theorem required_eq_read_iff {p : Parser α} {a : α} :
    required p s = .read a r ↔ p s = .read a r := by
  unfold required
  cases h : p s <;> simp

theorem orElse_eq_read_iff {p q : Parser α} {a : α} :
    p.orElse q s = .read a r ↔ p s = .read a r ∨ (∃ e, p s = .absent e) ∧ q s = .read a r := by
  unfold orElse
  cases h : p s <;> simp

theorem optional_eq_read_iff {p : Parser Unit} :
    optional p s = .read () r ↔ p s = .read () r ∨ (∃ e, p s = .absent e) ∧ s = r := by
  rw [optional, orElse_eq_read_iff, pure_eq_read_iff, eq_self, true_and]

/-! ## Spacing -/

theorem spaced_of_read {p : Parser α} {a : α} {v u w : List Char} (hv : AllSpacing v)
    (hw : AllSpacing w) (hu : startsWith isSpacing (u ++ (w ++ r)) = false)
    (hr : startsWith isSpacing r = false) (hp : p (u ++ (w ++ r)) = .read a (w ++ r)) :
    spaced p (v ++ (u ++ (w ++ r))) = .read a r := by
  unfold spaced
  rw [skipSpacing_append_of_all hv, skipSpacing_eq_self hu, hp]
  simp only [Outcome.read.injEq, true_and]
  rw [skipSpacing_append_of_all hw, skipSpacing_eq_self hr]

/-- A spaced reader reads behind spacing, and skips the spacing behind what it has read. -/
theorem exists_of_spaced {p : Parser α} {a : α} (h : spaced p s = .read a r) :
    ∃ v t w, AllSpacing v ∧ AllSpacing w ∧ s = v ++ t ∧ p t = .read a (w ++ r) ∧
      startsWith isSpacing r = false := by
  unfold spaced at h
  split at h
  · rename_i b rest hp
    simp only [Outcome.read.injEq] at h
    obtain ⟨rfl, rfl⟩ := h
    obtain ⟨v, hv, hs⟩ := exists_spacing s
    obtain ⟨w, hw, hrest⟩ := exists_spacing rest
    exact ⟨v, _, w, hv, hw, hs, by rw [← hrest]; exact hp, startsWith_skipSpacing rest⟩
  · rename_i hne
    exact absurd h (hne _ _)

theorem character_eq_read_iff {c : Char} {a : Unit} :
    character c s = .read a r ↔ s = c :: r := by
  cases s with
  | nil => simp [character]
  | cons d t =>
    simp only [character]
    split
    · rename_i h; simp [h]
    · rename_i h; simp [h]

/-- A symbol with the spacing around it. -/
theorem symbol_eq_read_iff {c : Char} (hc : isSpacing c = false) :
    symbol c s = .read () r ↔ ∃ v w, AllSpacing v ∧ AllSpacing w ∧ s = v ++ c :: (w ++ r) ∧
      startsWith isSpacing r = false := by
  constructor
  · intro h
    obtain ⟨v, t, w, hv, hw, hs, ht, hr⟩ := exists_of_spaced h
    exact ⟨v, w, hv, hw, by rw [hs, character_eq_read_iff.1 ht], hr⟩
  · intro h
    obtain ⟨v, w, hv, hw, rfl, hr⟩ := h
    exact spaced_of_read (u := [c]) hv hw hc hr (character_eq_read_iff.2 rfl)

/-- A symbol that comes next is read with the spacing behind it. -/
theorem symbol_of_cons {c : Char} (hc : isSpacing c = false) {w : List Char} (hw : AllSpacing w)
    (hr : startsWith isSpacing r = false) : symbol c (c :: (w ++ r)) = .read () r :=
  (symbol_eq_read_iff hc).2 ⟨[], w, allSpacing_nil, hw, rfl, hr⟩

/-- A symbol that does not come next is absent. -/
theorem symbol_absent {c : Char} (hs : startsWith isSpacing s = false)
    (hc : startsWith (· = c) s = false) : ∃ e, symbol c s = .absent e := by
  unfold symbol spaced
  rw [skipSpacing_eq_self hs]
  cases s with
  | nil => exact ⟨_, rfl⟩
  | cons d t =>
    have hd : d ≠ c := by simpa using hc
    exact ⟨_, by simp only [character, hd, ↓reduceIte]; rfl⟩

/-! ## Lists -/

/-- No item: whatever separator there is stays where it is. -/
theorem eq_of_following_nil {separator : Parser Unit} {p : Parser α}
    (h : following separator p s = .read [] r) : s = r := by
  unfold following at h
  split at h
  · cases h; rfl
  · cases h
  · split at h
    · cases h; rfl
    · cases h
    · split at h
      · split at h
        · cases h
        · rename_i hne; exact absurd h (hne _ _)
      · cases h

/-- One round: a separator, an item and the items behind it. -/
theorem exists_of_following_cons {separator : Parser Unit} {p : Parser α} {a : α} {as : List α}
    (h : following separator p s = .read (a :: as) r) :
    ∃ t t', separator s = .read () t ∧ p t = .read a t' ∧
      following separator p t' = .read as r := by
  unfold following at h
  split at h
  · cases h
  · cases h
  · rename_i t hsep
    split at h
    · cases h
    · cases h
    · rename_i b t' hitem
      split at h
      · split at h
        · rename_i bs r' hrest
          simp only [Outcome.read.injEq, List.cons.injEq] at h
          obtain ⟨⟨rfl, rfl⟩, rfl⟩ := h
          exact ⟨t, t', hsep, hitem, hrest⟩
        · rename_i hne; exact absurd h (hne _ _)
      · cases h

/-- Up to a length, `p` reads what stands in the language `Item`, and all spacing behind it. An item
may have spacing in front, and does not start with a brace. -/
structure Reads (n : Nat) (p : Parser α) (Item : List Char → α → Prop) : Prop where
  iff : ∀ s, s.length < n → ∀ a r,
    p s = .read a r ↔ ∃ u, Item u a ∧ s = u ++ r ∧ startsWith isSpacing r = false
  prepend : ∀ {s u a}, AllSpacing s → Item u a → Item (s ++ u) a
  lead : ∀ {u a}, Item u a →
    ∃ s c u', AllSpacing s ∧ u = s ++ c :: u' ∧ isSpacing c = false ∧ Item (c :: u') a
  stop : ∀ s, ∃ e, p ('\x7d' :: s) = .absent e

section Lists

variable {n : Nat} {p : Parser α} {Item : List Char → α → Prop}

theorem further_startsWith {v : List Char} {as : List α} (h : Further Item v as) {t : List Char}
    (ht : startsWith isSpacing t = false) : startsWith isSpacing (v ++ t) = false := by
  cases h with
  | nil => exact ht
  | cons hu hv => rfl

/-- What `following` reads is a list of further items. By induction on the list, as every round takes
one comma and one item from the front. -/
theorem exists_of_following (hp : Reads n p Item) (hs : startsWith isSpacing s = false)
    (hlen : s.length ≤ n) {as : List α} (h : following (symbol ',') p s = .read as r) :
    ∃ v, Further Item v as ∧ s = v ++ r ∧ startsWith isSpacing r = false := by
  induction as generalizing s with
  | nil =>
    obtain rfl := eq_of_following_nil h
    exact ⟨[], .nil, rfl, hs⟩
  | cons a as ih =>
    obtain ⟨t, t', hsep, hitem, hrest⟩ := exists_of_following_cons h
    obtain ⟨v, w, hv, hw, rfl, -⟩ := (symbol_eq_read_iff (by decide)).1 hsep
    simp only [List.length_append, List.length_cons] at hlen
    obtain ⟨u, hu, rfl, ht'⟩ := (hp.iff t (by omega) _ _).1 hitem
    simp only [List.length_append] at hlen
    obtain ⟨x, hx, rfl, hr⟩ := ih ht' (by omega) hrest
    -- no spacing is left in front of the comma
    obtain rfl := hv.eq_nil hs
    exact ⟨',' :: ((w ++ u) ++ x), .cons (hp.prepend hw hu) hx, by simp, hr⟩

/-- Further items are read up to a text at which no item follows. -/
theorem following_of_further (hp : Reads n p Item) {v t : List Char} {as : List α}
    (h : Further Item v as) (hlen : (v ++ t).length ≤ n) (ht : startsWith isSpacing t = false)
    (hstop : following (symbol ',') p t = .read [] t) :
    following (symbol ',') p (v ++ t) = .read as t := by
  induction h with
  | nil => exact hstop
  | @cons u v a as hu hv ih =>
    obtain ⟨s, c, u', hs, rfl, hc, hu'⟩ := hp.lead hu
    have hrest := further_startsWith hv ht
    have hsep : symbol ',' (',' :: ((s ++ c :: u') ++ v) ++ t) = .read () (c :: u' ++ (v ++ t)) :=
      (symbol_eq_read_iff (by decide)).2 ⟨[], s, allSpacing_nil, hs, by simp, hc⟩
    simp only [List.length_append, List.length_cons] at hlen
    have hitem : p (c :: u' ++ (v ++ t)) = .read a (v ++ t) :=
      (hp.iff _ (by simp; omega) _ _).2 ⟨_, hu', rfl, hrest⟩
    rw [following, hsep]
    simp only [hitem, ih (by simp; omega)]
    rw [if_pos (by simp; omega)]

/-- What `separated` reads is nothing, or an item and further ones. -/
theorem exists_of_separated (hp : Reads n p Item) (hs : startsWith isSpacing s = false)
    (hlen : s.length < n) {as : List α} (h : separated (symbol ',') p s = .read as r) :
    as = [] ∧ s = r ∨ ∃ a as' u v, as = a :: as' ∧ Item u a ∧ Further Item v as' ∧
      s = u ++ (v ++ r) ∧ startsWith isSpacing r = false := by
  unfold separated at h
  split at h
  · cases h; exact .inl ⟨rfl, rfl⟩
  · cases h
  · rename_i a rest hitem
    split at h
    · rename_i as' rest' hrest
      cases h
      obtain ⟨u, hu, rfl, hr⟩ := (hp.iff s hlen _ _).1 hitem
      obtain ⟨v, hv, rfl, hr'⟩ := exists_of_following hp hr (by simp at hlen; omega) hrest
      exact .inr ⟨a, as', u, v, rfl, hu, hv, rfl, hr'⟩
    · rename_i hne; exact absurd h (hne _ _)

/-- In front of what closes a block the list of its items ends. -/
theorem following_stop (hp : Reads n p Item) {w : List Char} (hw : Trailing w) (t : List Char) :
    following (symbol ',') p (w ++ '\x7d' :: t) = .read [] (w ++ '\x7d' :: t) := by
  cases hw with
  | none =>
    obtain ⟨e, he⟩ := symbol_absent (c := ',') (s := '\x7d' :: t) (by simp [isSpacing]) (by simp)
    rw [following, List.nil_append, he]
  | @comma s hs =>
    have hsep : symbol ',' (',' :: s ++ '\x7d' :: t) = .read () ('\x7d' :: t) :=
      symbol_of_cons (by decide) hs (by simp [isSpacing])
    obtain ⟨e, he⟩ := hp.stop t
    rw [following, hsep]
    simp only [he]

/-- What closes a block is read by an optional comma and a brace. -/
theorem optional_of_trailing {w : List Char} (hw : Trailing w) (t : List Char) :
    optional (symbol ',') (w ++ '\x7d' :: t) = .read () ('\x7d' :: t) := by
  refine optional_eq_read_iff.2 ?_
  cases hw with
  | none => exact .inr ⟨symbol_absent (by simp [isSpacing]) (by simp), rfl⟩
  | @comma s hs =>
    exact .inl (symbol_of_cons (by decide) hs (by simp [isSpacing]))

theorem exists_trailing {t : List Char} (hs : startsWith isSpacing s = false)
    (h : optional (symbol ',') s = .read () t) (ht : symbol '\x7d' t = .read () r) :
    ∃ w y, Trailing w ∧ AllSpacing y ∧ s = w ++ '\x7d' :: (y ++ r) := by
  obtain ⟨v, y, hv, hy, rfl, -⟩ := (symbol_eq_read_iff (by decide)).1 ht
  rcases optional_eq_read_iff.1 h with h | ⟨-, rfl⟩
  · obtain ⟨x, z, hx, hz, rfl, -⟩ := (symbol_eq_read_iff (by decide)).1 h
    obtain rfl := hx.eq_nil hs
    exact ⟨',' :: (z ++ v), y, .comma (hz.append hv), hy, by simp⟩
  · obtain rfl := hv.eq_nil hs
    exact ⟨[], y, .none, hy, rfl⟩

end Lists

/-! ## Blocks -/

section Blocks

variable {n : Nat} {p : Parser Predicate} {Item : List Char → Predicate → Prop}

theorem constraints_apply_eq_read_iff {cs : List Predicate} :
    constraints p s = .read cs r ↔ ∃ t t' t'', symbol '\x7b' s = .read () t ∧
      separated (symbol ',') p t = .read cs t' ∧
      (if cs.isEmpty then pure () else optional (symbol ',')) t' = .read () t'' ∧
      symbol '\x7d' t'' = .read () r := by
  simp only [constraints, bind_eq_read_iff, within_eq_read_iff]
  constructor
  · intro h
    obtain ⟨_, t, h₁, as, t', h₂, h⟩ := h
    cases as with
    | nil =>
      simp only [List.isEmpty_nil, ↓reduceIte, bind_eq_read_iff, within_eq_read_iff,
        pure_eq_read_iff] at h
      obtain ⟨_, _, h₃, rfl, rfl⟩ := h
      exact ⟨t, t', t', h₁, h₂, rfl, h₃⟩
    | cons a as =>
      simp only [List.isEmpty_cons, Bool.false_eq_true, ↓reduceIte, bind_eq_read_iff,
        within_eq_read_iff, pure_eq_read_iff] at h
      obtain ⟨_, t'', h₃, _, _, h₄, rfl, rfl⟩ := h
      exact ⟨t, t', t'', h₁, h₂, h₃, h₄⟩
  · intro h
    obtain ⟨t, t', t'', h₁, h₂, h₃, h₄⟩ := h
    refine ⟨(), t, h₁, cs, t', h₂, ?_⟩
    cases cs with
    | nil =>
      obtain ⟨-, rfl⟩ := pure_eq_read_iff.1 h₃
      simp only [List.isEmpty_nil, ↓reduceIte, bind_eq_read_iff, within_eq_read_iff,
        pure_eq_read_iff]
      exact ⟨(), r, h₄, trivial, rfl⟩
    | cons a as =>
      simp only [List.isEmpty_cons, Bool.false_eq_true, ↓reduceIte, bind_eq_read_iff,
        within_eq_read_iff, pure_eq_read_iff]
      exact ⟨(), t'', h₃, (), r, h₄, trivial, rfl⟩

theorem exists_of_constraints (hp : Reads n p Item) (hlen : s.length ≤ n) {cs : List Predicate}
    (h : constraints p s = .read cs r) : ∃ v b w, AllSpacing v ∧ Block Item b cs ∧ AllSpacing w ∧
      s = v ++ (b ++ (w ++ r)) ∧ startsWith isSpacing r = false := by
  obtain ⟨t, t', t'', hopen, hitems, hcomma, hclose⟩ := constraints_apply_eq_read_iff.1 h
  obtain ⟨v, x, hv, hx, rfl, ht⟩ := (symbol_eq_read_iff (by decide)).1 hopen
  obtain ⟨-, -, -, -, -, hr⟩ := (symbol_eq_read_iff (by decide)).1 hclose
  simp only [List.length_append, List.length_cons] at hlen
  rcases exists_of_separated hp ht (by omega) hitems with
    ⟨rfl, rfl⟩ | ⟨a, as, u, f, rfl, hu, hf, rfl, ht'⟩
  · obtain ⟨-, rfl⟩ := pure_eq_read_iff.1 hcomma
    obtain ⟨y, w, hy, hw, rfl, -⟩ := (symbol_eq_read_iff (by decide)).1 hclose
    exact ⟨v, _, w, hv, .empty (hx.append hy), hw, by simp, hr⟩
  · obtain ⟨z, w, hz, hw, rfl⟩ := exists_trailing ht' hcomma hclose
    exact ⟨v, _, w, hv, .items (hp.prepend hx hu) hf hz, hw, by simp, hr⟩

theorem constraints_of_block (hp : Reads n p Item) {v b w : List Char} {cs : List Predicate}
    (hv : AllSpacing v) (hb : Block Item b cs) (hw : AllSpacing w)
    (hlen : (v ++ (b ++ (w ++ r))).length ≤ n) (hr : startsWith isSpacing r = false) :
    constraints p (v ++ (b ++ (w ++ r))) = .read cs r := by
  rw [constraints_apply_eq_read_iff]
  have hclose : symbol '\x7d' ('\x7d' :: (w ++ r)) = .read () r :=
    symbol_of_cons (by decide) hw hr
  cases hb with
  | @empty x hx =>
    refine ⟨_, _, _, (symbol_eq_read_iff (by decide)).2 ⟨v, x, hv, hx, by simp; rfl, ?_⟩, ?_, rfl,
      hclose⟩
    · simp [isSpacing]
    · obtain ⟨e, he⟩ := hp.stop (w ++ r)
      simp only [separated, he]
  | @items u f z a as hu hf hz =>
    obtain ⟨x, c, u', hx, rfl, hc, hu'⟩ := hp.lead hu
    have hend : startsWith isSpacing (z ++ '\x7d' :: (w ++ r)) = false := by
      cases hz <;> simp [isSpacing]
    have hrest := further_startsWith hf hend
    simp only [List.length_append, List.length_cons] at hlen
    refine ⟨c :: u' ++ (f ++ (z ++ '\x7d' :: (w ++ r))), z ++ '\x7d' :: (w ++ r), _,
      (symbol_eq_read_iff (by decide)).2 ⟨v, x, hv, hx, by simp, hc⟩, ?_, optional_of_trailing hz _,
      hclose⟩
    have hitem := (hp.iff (c :: u' ++ (f ++ (z ++ '\x7d' :: (w ++ r)))) (by simp; omega) a _).2
      ⟨_, hu', rfl, hrest⟩
    have hmore := following_of_further hp hf (by simp; omega) hend (following_stop hp hz _)
    simp only [separated, hitem, hmore]

/-- **Blocks.** What is read as a block is a block of items, with spacing on both sides. -/
theorem constraints_eq_read_iff (hp : Reads n p Item) (hlen : s.length ≤ n)
    {cs : List Predicate} : constraints p s = .read cs r ↔
      ∃ v b w, AllSpacing v ∧ Block Item b cs ∧ AllSpacing w ∧ s = v ++ (b ++ (w ++ r)) ∧
        startsWith isSpacing r = false := by
  constructor
  · exact exists_of_constraints hp hlen
  · intro h
    obtain ⟨v, b, w, hv, hb, hw, rfl, hr⟩ := h
    exact constraints_of_block hp hv hb hw hlen hr

end Blocks

end JoinPlan.Parser
