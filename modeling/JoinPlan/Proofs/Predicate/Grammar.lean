import JoinPlan.Predicate.Basic
import JoinPlan.Proofs.Number.Numeral
/-!
# The grammar of predicates

The language of predicates, rule by rule and without a reader. `S` is any run of space, tab,
carriage return and line feed.

* node: `S op S ':' S body S`, where the body of a logical operator is a block and that of a
  comparison is its arguments;
* block: `'{' S '}'`, or `'{' node (',' node)* [',' S] '}'`;
* arguments: `'[' S quoted S ',' S value S ']'`;
* value: a quoted text, a number, or one of the words `null`, `true` and `false` in any case.

Results:
* `Value.start`, `Node.exists_lead`: how the text of a value and that of a node begin.
* `Node.prepend`, `Node.append`: a node may have more spacing around it.
-/
namespace JoinPlan.Grammar
open Text

/-- A text between two quotes of one kind that do not occur in it. -/
inductive Quoted : List Char → String → Prop where
  | mk {quote : Char} {body : List Char} (hq : quote = '"' ∨ quote = '\'') (hb : quote ∉ body) :
    Quoted (quote :: (body ++ [quote])) (String.ofList body)

/-- A bare word that is a value, whatever the case of its letters. -/
inductive Word : List Char → Literal → Prop where
  | null {u : List Char} : u.map Char.toLower = "null".toList → Word u .null
  | boolean {u : List Char} {b : Bool} :
    u.map Char.toLower = (if b then "true" else "false").toList → Word u (.boolean b)

/-- A value. A numeral of sign and digits is an integer where that is one of 64 bits; every other
numeral is the nearest double, which has to be finite. -/
inductive Value : List Char → Literal → Prop where
  | text {u : List Char} {t : String} : Quoted u t → Value u (.text t)
  | integer {n : Numeral} {i : Int64} (hn : n.WellFormed) (hi : n.isIntegral = true)
    (h : n.integer = i.toInt) : Value n.text (.integer i)
  | float {n : Numeral} {x : Magnitude} (hn : n.WellFormed)
    (hi : n.isIntegral = true → ∀ i : Int64, n.integer ≠ i.toInt)
    (h : Magnitude.Nearest n.absValue x) : Value n.text (.float (.finite n.isNegative x))
  | word {u : List Char} {v : Literal} : Word u v → Value u v

/-- `'[' S quoted S ',' S value S ']'` -/
inductive Arguments : List Char → String → Literal → Prop where
  | mk {s₁ s₂ s₃ s₄ u w : List Char} {id : String} {v : Literal} (h₁ : AllSpacing s₁)
    (h₂ : AllSpacing s₂) (h₃ : AllSpacing s₃) (h₄ : AllSpacing s₄) (hu : Quoted u id)
    (hw : Value w v) :
    Arguments ('[' :: (s₁ ++ (u ++ (s₂ ++ ',' :: (s₃ ++ (w ++ (s₄ ++ [']']))))))) id v

/-- `(',' item)*` -/
inductive Further {α : Type} (Item : List Char → α → Prop) : List Char → List α → Prop where
  | nil : Further Item [] []
  | cons {u v : List Char} {a : α} {as : List α} (hu : Item u a) (hv : Further Item v as) :
    Further Item (',' :: (u ++ v)) (a :: as)

/-- `[',' S]` -/
inductive Trailing : List Char → Prop where
  | none : Trailing []
  | comma {s : List Char} : AllSpacing s → Trailing (',' :: s)

/-- `'{' S '}'`, or `'{' item (',' item)* [',' S] '}'` -/
inductive Block {α : Type} (Item : List Char → α → Prop) : List Char → List α → Prop where
  | empty {s : List Char} (hs : AllSpacing s) : Block Item ('{' :: (s ++ ['}'])) []
  | items {u v w : List Char} {a : α} {as : List α} (hu : Item u a) (hv : Further Item v as)
    (hw : Trailing w) : Block Item ('{' :: (u ++ (v ++ (w ++ ['}'])))) (a :: as)

/-- `S op S ':' S body S` -/
inductive Framed (op : Operator) (body : List Char) : List Char → Prop where
  | mk {s₁ s₂ s₃ s₄ : List Char} (h₁ : AllSpacing s₁) (h₂ : AllSpacing s₂) (h₃ : AllSpacing s₃)
    (h₄ : AllSpacing s₄) :
    Framed op body (s₁ ++ (op.keyword.toList ++ (s₂ ++ ':' :: (s₃ ++ (body ++ s₄)))))

/-- A predicate. -/
inductive Node : List Char → Predicate → Prop where
  | logical {op : LogicalOperator} {u body : List Char} {cs : List Predicate}
    (hu : Framed (.logical op) body u) (hb : Block Node body cs) : Node u (.logical op cs)
  | comparison {op : ComparisonOperator} {u body : List Char} {id : String} {v : Literal}
    (hu : Framed (.comparison op) body u) (hb : Arguments body id v) :
    Node u (.comparison op id v)

/-- A predicate and blanks behind it. -/
def Document (s : List Char) (p : Predicate) : Prop :=
  ∃ u z, s = u ++ z ∧ Node u p ∧ ∀ c ∈ z, isBlank c = true

/-! ## How texts begin -/

theorem Word.isAlpha {u : List Char} {v : Literal} (h : Word u v) :
    u ≠ [] ∧ ∀ c ∈ u, c.isAlpha = true := by
  have key : ∀ w : List Char, w ≠ [] → w.all Char.isAlpha = true → u.map Char.toLower = w →
      u ≠ [] ∧ ∀ c ∈ u, c.isAlpha = true := by
    rintro _ hne ha rfl
    refine ⟨by simpa using hne, fun c hc => isAlpha_of_toLower ?_⟩
    exact List.all_eq_true.1 ha _ (List.mem_map_of_mem hc)
  cases h with
  | null h => exact key _ (by decide) (by decide) h
  | @boolean b h => cases b <;> exact key _ (by decide) (by decide) h

theorem Quoted.start {u : List Char} {t : String} (h : Quoted u t) :
    ∃ c u', u = c :: u' ∧ (c = '"' ∨ c = '\'') := by
  cases h with
  | mk hq hb => exact ⟨_, _, rfl, hq⟩

/-- A value does not start with spacing. -/
theorem Value.start {u : List Char} {v : Literal} (h : Value u v) :
    ∃ c u', u = c :: u' ∧ isSpacing c = false := by
  have numeral : ∀ {n : Numeral}, n.WellFormed → ∃ c u', n.text = c :: u' ∧ isSpacing c = false := by
    intro n hn
    obtain ⟨c, u', he, hc⟩ := hn.startsWith_text
    exact ⟨c, u', he, Numeral.not_isSpacing_of_opens hc⟩
  cases h with
  | text h =>
    obtain ⟨c, u', rfl, hc⟩ := h.start
    exact ⟨c, u', rfl, by rcases hc with rfl | rfl <;> decide⟩
  | integer hn => exact numeral hn
  | float hn => exact numeral hn
  | word h =>
    obtain ⟨hne, ha⟩ := h.isAlpha
    obtain ⟨c, u', rfl⟩ := List.exists_cons_of_ne_nil hne
    exact ⟨c, u', rfl, not_isSpacing_of_isAlpha (ha c (by simp))⟩

theorem operator_start (op : Operator) : ∃ c u, op.keyword.toList = c :: u ∧ c.isAlpha = true := by
  rcases op with op | op <;> cases op <;> exact ⟨_, _, rfl, by decide⟩

namespace Framed

variable {op : Operator} {body u : List Char}

theorem prepend (h : Framed op body u) {s : List Char} (hs : AllSpacing s) :
    Framed op body (s ++ u) := by
  cases h with
  | mk h₁ h₂ h₃ h₄ =>
    rw [← List.append_assoc]
    exact .mk (hs.append h₁) h₂ h₃ h₄

theorem append (h : Framed op body u) {s : List Char} (hs : AllSpacing s) :
    Framed op body (u ++ s) := by
  cases h with
  | @mk s₁ s₂ s₃ s₄ h₁ h₂ h₃ h₄ =>
    have h : Framed op body
        (s₁ ++ (op.keyword.toList ++ (s₂ ++ ':' :: (s₃ ++ (body ++ (s₄ ++ s)))))) :=
      .mk h₁ h₂ h₃ (h₄.append hs)
    simpa using h

/-- Spacing comes first, and then a letter. -/
theorem exists_lead (h : Framed op body u) :
    ∃ s c u', AllSpacing s ∧ u = s ++ c :: u' ∧ c.isAlpha = true ∧ Framed op body (c :: u') := by
  cases h with
  | @mk s₁ s₂ s₃ s₄ h₁ h₂ h₃ h₄ =>
    obtain ⟨c, k, hk, hc⟩ := operator_start op
    have hf : Framed op body ([] ++ (op.keyword.toList ++ (s₂ ++ ':' :: (s₃ ++ (body ++ s₄))))) :=
      .mk allSpacing_nil h₂ h₃ h₄
    rw [hk] at hf
    exact ⟨s₁, c, _, h₁, by rw [hk]; rfl, hc, hf⟩

end Framed

namespace Node

variable {u : List Char} {p : Predicate}

theorem prepend (h : Node u p) {s : List Char} (hs : AllSpacing s) : Node (s ++ u) p := by
  cases h with
  | logical hu hb => exact .logical (hu.prepend hs) hb
  | comparison hu hb => exact .comparison (hu.prepend hs) hb

theorem append (h : Node u p) {s : List Char} (hs : AllSpacing s) : Node (u ++ s) p := by
  cases h with
  | logical hu hb => exact .logical (hu.append hs) hb
  | comparison hu hb => exact .comparison (hu.append hs) hb

theorem exists_lead (h : Node u p) :
    ∃ s c u', AllSpacing s ∧ u = s ++ c :: u' ∧ c.isAlpha = true ∧ Node (c :: u') p := by
  cases h with
  | logical hu hb =>
    obtain ⟨s, c, u', hs, he, hc, hf⟩ := hu.exists_lead
    exact ⟨s, c, u', hs, he, hc, .logical hf hb⟩
  | comparison hu hb =>
    obtain ⟨s, c, u', hs, he, hc, hf⟩ := hu.exists_lead
    exact ⟨s, c, u', hs, he, hc, .comparison hf hb⟩

end Node

end JoinPlan.Grammar
