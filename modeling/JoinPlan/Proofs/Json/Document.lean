import JoinPlan.Json.Parser
import JoinPlan.Proofs.Json.Number
import JoinPlan.Proofs.Json.Text
/-!
# Reading written values

A value that is written on one line and read again comes back with its numbers reread, unless its
arrays and objects are nested too deep for the reader. Behind a value in a written text there is
nothing, a comma or a closing bracket, so no number goes on there.

Results:
* `readItems?_joined`: items with a comma between them, for every reader of items.
* `read?_numeral`, `parse?_numeral`: a number by its numeral.
* `read?_compact`: a value in front of a text, at every limit of nesting.
* `parse?_compact`: a whole text.
-/
namespace JoinPlan.Json
open Text

/-! ## Nesting and rereading -/

mutual

/-- How deep arrays and objects are nested. -/
def nesting : Json → ℕ
  | .array vs => allNesting vs + 1
  | .object ms => membersNesting ms + 1
  | _ => 0

def allNesting : List Json → ℕ
  | [] => 0
  | v :: vs => max v.nesting (allNesting vs)

def membersNesting : List (String × Json) → ℕ
  | [] => 0
  | (_, v) :: ms => max v.nesting (membersNesting ms)

end

mutual

/-- The value with every number reread; none if a number is out of range then. -/
def reread? : Json → Option Json
  | .number n => n.reread?.map .number
  | .array vs => (rereadAll? vs).map .array
  | .object ms => (rereadMembers? ms).map .object
  | v => some v

def rereadAll? : List Json → Option (List Json)
  | [] => some []
  | v :: vs => do return (← v.reread?) :: (← rereadAll? vs)

def rereadMembers? : List (String × Json) → Option (List (String × Json))
  | [] => some []
  | (key, v) :: ms => do return (key, ← v.reread?) :: (← rereadMembers? ms)

end

/-- What is left of a value for a reader with a limit of nesting. -/
def rereadWithin? (depth : ℕ) (v : Json) : Option Json :=
  if v.nesting ≤ depth then v.reread? else none

theorem mapM_rereadWithin? (depth : ℕ) (vs : List Json) :
    vs.mapM (rereadWithin? depth) = if allNesting vs ≤ depth then rereadAll? vs else none := by
  induction vs with
  | nil => rfl
  | cons v vs ih =>
    rw [List.mapM_cons, ih, rereadWithin?, allNesting, rereadAll?]
    by_cases hv : v.nesting ≤ depth <;> by_cases hvs : allNesting vs ≤ depth <;>
      simp [hv, hvs]

theorem mapM_rereadWithin?_members (depth : ℕ) (ms : List (String × Json)) :
    ms.mapM (fun m => (rereadWithin? depth m.2).map fun v => (m.1, v)) =
      if membersNesting ms ≤ depth then rereadMembers? ms else none := by
  induction ms with
  | nil => rfl
  | cons m ms ih =>
    rw [List.mapM_cons, ih, rereadWithin?, membersNesting, rereadMembers?]
    by_cases hv : m.2.nesting ≤ depth <;> by_cases hvs : membersNesting ms ≤ depth <;>
      simp [hv, hvs, Option.bind_map]

/-! ## Items -/

section

variable {α β : Type}

/-- The texts of items with a comma between them. -/
def joined (text : β → List Char) : List β → List Char
  | [] => []
  | [b] => text b
  | b :: c :: bs => text b ++ ',' :: joined text (c :: bs)

theorem compactItems_eq (vs : List Json) : compactItems vs = joined compact vs := by
  induction vs with
  | nil => rfl
  | cons v vs ih =>
    cases vs with
    | nil => rfl
    | cons w vs => rw [compactItems, ih, joined]

/-- The text of a member. -/
def compactMember (m : String × Json) : List Char := writeText m.1 ++ ':' :: m.2.compact

theorem compactMembers_eq (ms : List (String × Json)) :
    compactMembers ms = joined compactMember ms := by
  induction ms with
  | nil => rfl
  | cons m ms ih =>
    cases ms with
    | nil => rfl
    | cons m' ms => rw [compactMembers, ih, joined, compactMember]; simp

theorem expect?_cons {c : Char} (hc : isSpacing c = false) (s : List Char) :
    expect? c (c :: s) = some s := by
  rw [expect?, skipSpacing_eq_self (startsWith_cons .. ▸ hc)]
  simp

theorem expect?_cons_of_ne {c d : Char} (hd : isSpacing d = false) (hne : d ≠ c) (s : List Char) :
    expect? c (d :: s) = none := by
  rw [expect?, skipSpacing_eq_self (startsWith_cons .. ▸ hd)]
  simp [hne]

/-- **Items.** If a reader makes `f b` of the text of each item `b`, in front of a comma or the
closing character, then of the texts with a comma between them the list of these is made. -/
theorem readItems?_joined {item? : List Char → Option (α × List Char)} {close : Char}
    (hclose : isSpacing close = false) (hcomma : ',' ≠ close) {text : β → List Char}
    {f : β → Option α} (rest : List Char) : ∀ {b : β} {bs : List β},
    (∀ c ∈ b :: bs, ∀ d ∈ [',', close], ∀ s,
      item? (text c ++ d :: s) = (f c).map fun a => (a, d :: s)) →
    readItems? item? close (joined text (b :: bs) ++ close :: rest) =
      ((b :: bs).mapM f).map fun as => (as, rest) := by
  intro b bs
  induction bs generalizing b with
  | nil =>
    intro h
    rw [readItems?, joined, h b (by simp) close (by simp)]
    cases hb : f b with
    | none => simp [hb]
    | some a => simp [hb, expect?_cons hclose]
  | cons c bs ih =>
    intro h
    rw [readItems?, joined, List.append_assoc, List.cons_append, h b (by simp) ',' (by simp)]
    cases hb : f b with
    | none => simp [hb]
    | some a =>
      have hnext := ih fun d hd => h d (List.mem_cons_of_mem b hd)
      simp only [Option.map_some, Option.bind_eq_bind, Option.bind_some,
        expect?_cons_of_ne (c := close) (d := ',') rfl hcomma, expect?_cons (c := ',') rfl]
      have hshorter : (joined text (c :: bs) ++ close :: rest).length <
          (text b ++ ',' :: (joined text (c :: bs) ++ close :: rest)).length := by
        simp only [List.length_append, List.length_cons]
        omega
      rw [if_pos hshorter, hnext, List.mapM_cons (a := b), hb]
      cases (c :: bs).mapM f <;> rfl

/-- A list in its brackets. -/
theorem readList?_joined {item? : List Char → Option (α × List Char)} {close : Char}
    (hclose : isSpacing close = false) (hcomma : ',' ≠ close) {text : β → List Char}
    {f : β → Option α} {bs : List β} (rest : List Char)
    (hstart : ∀ b ∈ bs, ∃ c u, text b = c :: u ∧ isSpacing c = false ∧ c ≠ close)
    (h : ∀ b ∈ bs, ∀ d ∈ [',', close], ∀ s,
      item? (text b ++ d :: s) = (f b).map fun a => (a, d :: s)) :
    readList? item? close (joined text bs ++ close :: rest) =
      (bs.mapM f).map fun as => (as, rest) := by
  cases bs with
  | nil => simp [readList?, joined, expect?_cons hclose]
  | cons b bs =>
    have hnone : expect? close (joined text (b :: bs) ++ close :: rest) = none := by
      obtain ⟨c, u, htext, hspacing, hne⟩ := hstart b (by simp)
      cases bs with
      | nil => rw [joined, htext]; exact expect?_cons_of_ne hspacing hne _
      | cons b' bs =>
        rw [joined, htext, List.append_assoc]
        exact expect?_cons_of_ne hspacing hne _
    rw [readList?, hnone]
    exact readItems?_joined hclose hcomma rest h

end

/-! ## Values -/

/-- Behind a value in a written text. -/
theorem not_goesOn_of_mem {close d : Char} (hclose : close = ']' ∨ close = '\x7d')
    (hd : d ∈ [',', close]) (s : List Char) : startsWith Numeral.goesOn (d :: s) = false := by
  simp only [List.mem_cons, List.not_mem_nil, or_false] at hd
  rcases hd with rfl | rfl
  · rfl
  · rcases hclose with rfl | rfl <;> rfl

theorem ne_of_opens {c d : Char} (hc : Numeral.opens c = true) (hd : Numeral.opens d = false) :
    c ≠ d := by
  rintro rfl
  rw [hc] at hd
  cases hd

/-- A written value starts with a character that is neither spacing nor a closing bracket. -/
theorem compact_start (v : Json) : ∃ c u, v.compact = c :: u ∧ isSpacing c = false ∧
    c ≠ ']' ∧ c ≠ '\x7d' := by
  cases v with
  | null => exact ⟨'n', _, rfl, by decide⟩
  | boolean b => cases b with
    | true => exact ⟨'t', _, rfl, by decide⟩
    | false => exact ⟨'f', _, rfl, by decide⟩
  | number n =>
    obtain ⟨c, u, htext, hopens⟩ := n.wellFormed_numeral.startsWith_text
    rw [compact, ← n.text_numeral]
    exact ⟨c, u, htext, Numeral.not_isSpacing_of_opens hopens, ne_of_opens hopens (by decide),
      ne_of_opens hopens (by decide)⟩
  | text s => exact ⟨'"', _, rfl, by decide⟩
  | array vs => exact ⟨'[', _, rfl, by decide⟩
  | object ms => exact ⟨'\x7b', _, rfl, by decide⟩

theorem read?_of_scalar (depth : ℕ) {c : Char} {s : List Char} (hspacing : isSpacing c = false)
    (harray : c ≠ '[') (hobject : c ≠ '\x7b') : read? depth (c :: s) = readScalar? (c :: s) := by
  have hskip : skipSpacing (c :: s) = c :: s := skipSpacing_eq_self hspacing
  cases depth with
  | zero => rw [read?, hskip]
  | succ depth =>
    rw [read?, hskip]
    split
    · rename_i he; cases he; exact absurd rfl harray
    · rename_i he; cases he; exact absurd rfl hobject
    · rfl

theorem read?_array (depth : ℕ) (s : List Char) : read? (depth + 1) ('[' :: s) =
    (readList? (read? depth) ']' s).map fun (vs, rest) => (.array vs, rest) := by
  rw [read?, skipSpacing_eq_self rfl]
  rfl

theorem read?_object (depth : ℕ) (s : List Char) : read? (depth + 1) ('\x7b' :: s) =
    (readList? (readMember? (read? depth)) '\x7d' s).map fun (ms, rest) => (.object ms, rest) := by
  rw [read?, skipSpacing_eq_self rfl]
  rfl

theorem read?_zero_object (s : List Char) : read? 0 ('\x7b' :: s) = none := by
  simp [read?, skipSpacing, isSpacing, readScalar?, readNumber?, Numeral.scan?,
    Numeral.takeSign, Numeral.takeDigits, Numeral.takeFraction]

section

variable {n : Numeral} (hn : n.WellFormed) (hadmits : admits n = true)

include hn hadmits

theorem readScalar?_numeral {rest : List Char} (h : startsWith Numeral.goesOn rest = false) :
    readScalar? (n.text ++ rest) = (Number.ofNumeral? n).map fun m => (.number m, rest) := by
  obtain ⟨c, u, htext, hopens⟩ := hn.startsWith_text
  have hne : ∀ {d : Char} {s : List Char}, Numeral.opens d = false →
      n.text ++ rest ≠ d :: s := by
    intro d s hd he
    rw [htext] at he
    exact ne_of_opens hopens hd (List.cons.inj he).1
  rw [readScalar?.eq_5 _ (fun _ => hne (by decide)) (fun _ => hne (by decide))
    (fun _ => hne (by decide)) (fun _ => hne (by decide)), readNumber?_append hn hadmits h,
    Option.map_map]
  rfl

/-- A numeral is read at every limit of nesting. -/
theorem read?_numeral (depth : ℕ) {rest : List Char}
    (h : startsWith Numeral.goesOn rest = false) :
    read? depth (n.text ++ rest) = (Number.ofNumeral? n).map fun m => (.number m, rest) := by
  obtain ⟨c, u, htext, hopens⟩ := hn.startsWith_text
  rw [← readScalar?_numeral hn hadmits h, htext, List.cons_append]
  exact read?_of_scalar depth (Numeral.not_isSpacing_of_opens hopens)
    (ne_of_opens hopens (by decide)) (ne_of_opens hopens (by decide))

/-- A text may consist of a numeral. -/
theorem parse?_numeral : parse? n.text = (Number.ofNumeral? n).map .number := by
  have h := read?_numeral hn hadmits maxDepth (startsWith_nil _)
  rw [List.append_nil] at h
  rw [parse?, h]
  cases Number.ofNumeral? n <;> rfl

end

theorem readMember?_compactMember {value? : List Char → Option (Json × List Char)}
    {m : String × Json} {s : List Char} {v : Option Json}
    (h : value? (m.2.compact ++ s) = v.map fun w => (w, s)) :
    readMember? value? (compactMember m ++ s) = v.map fun w => ((m.1, w), s) := by
  obtain ⟨t, htext, hread⟩ := exists_writeText m.1 (':' :: (m.2.compact ++ s))
  have htext' : compactMember m ++ s = '"' :: t := by
    rw [← htext, compactMember, List.append_assoc, List.cons_append]
  rw [readMember?, htext', expect?_cons rfl]
  simp only [Option.bind_eq_bind, Option.bind_some, hread, expect?_cons (c := ':') rfl, h]
  cases v with
  | none => rfl
  | some w => simp

/-- A value that holds no other is read at every limit. -/
theorem read?_scalar (depth : ℕ) {v : Json} (harray : ∀ vs, v ≠ .array vs)
    (hobject : ∀ ms, v ≠ .object ms) {rest : List Char}
    (h : startsWith Numeral.goesOn rest = false) :
    read? depth (v.compact ++ rest) = v.reread?.map fun w => (w, rest) := by
  cases v with
  | null => exact read?_of_scalar depth rfl (by decide) (by decide)
  | boolean b => cases b with
    | true => exact read?_of_scalar depth rfl (by decide) (by decide)
    | false => exact read?_of_scalar depth rfl (by decide) (by decide)
  | number n =>
    rw [compact, ← n.text_numeral, read?_numeral n.wellFormed_numeral n.admits_numeral depth h,
      reread?, Option.map_map]
    rfl
  | text t =>
    obtain ⟨s, htext, hread⟩ := exists_writeText t rest
    rw [compact, htext, read?_of_scalar depth rfl (by decide) (by decide), readScalar?, hread]
    simp [reread?]
  | array vs => exact absurd rfl (harray vs)
  | object ms => exact absurd rfl (hobject ms)

/-- What `read?_compact` says of one limit of nesting. -/
def ReadsAt (depth : ℕ) : Prop :=
  ∀ (v : Json) {rest : List Char}, startsWith Numeral.goesOn rest = false →
    read? depth (v.compact ++ rest) = (v.rereadWithin? depth).map fun w => (w, rest)

section

variable {depth : ℕ}

theorem ReadsAt.readList?_items (h : ReadsAt depth) (vs : List Json) (rest : List Char) :
    readList? (read? depth) ']' (compactItems vs ++ ']' :: rest) =
      (if allNesting vs ≤ depth then rereadAll? vs else none).map fun ws => (ws, rest) := by
  rw [compactItems_eq, ← mapM_rereadWithin?]
  refine readList?_joined rfl (by decide) rest (fun v _ => ?_) fun v _ d hd s => ?_
  · obtain ⟨c, u, htext, hspacing, hne, -⟩ := v.compact_start
    exact ⟨c, u, htext, hspacing, hne⟩
  · exact h v (not_goesOn_of_mem (.inl rfl) hd s)

theorem ReadsAt.readList?_members (h : ReadsAt depth) (ms : List (String × Json))
    (rest : List Char) :
    readList? (readMember? (read? depth)) '\x7d' (compactMembers ms ++ '\x7d' :: rest) =
      (if membersNesting ms ≤ depth then rereadMembers? ms else none).map fun ws => (ws, rest) := by
  rw [compactMembers_eq, ← mapM_rereadWithin?_members]
  refine readList?_joined rfl (by decide) rest (fun m _ => ?_) fun m _ d hd s => ?_
  · exact ⟨'"', _, rfl, by decide⟩
  · rw [readMember?_compactMember (h m.2 (not_goesOn_of_mem (.inr rfl) hd s)), Option.map_map]
    rfl

/-- A list counts as one level. -/
theorem map_ite_succ {α β : Type} (f : α → β) (n : ℕ) (o : Option α) :
    (if n ≤ depth then o else none).map f = if n + 1 ≤ depth + 1 then o.map f else none := by
  by_cases h : n ≤ depth
  · rw [if_pos h, if_pos (Nat.succ_le_succ h)]
  · rw [if_neg h, if_neg (by omega), Option.map_none]

end

/-- **Values.** A written value in front of a text is read as what rereading leaves of it. By
induction on the limit of nesting, which is one less for what a list holds. -/
theorem read?_compact (depth : ℕ) : ReadsAt depth := by
  induction depth with
  | zero =>
    intro v rest h
    cases v with
    | array vs =>
      rw [compact, List.cons_append, read?_zero_array]
      rfl
    | object ms =>
      rw [compact, List.cons_append, read?_zero_object]
      rfl
    | _ => exact read?_scalar 0 (by simp) (by simp) h
  | succ depth ih =>
    intro v rest h
    cases v with
    | array vs =>
      rw [compact, List.cons_append, List.append_assoc, List.singleton_append, read?_array,
        ih.readList?_items, rereadWithin?, nesting, reread?, ← map_ite_succ, Option.map_map,
        Option.map_map]
      rfl
    | object ms =>
      rw [compact, List.cons_append, List.append_assoc, List.singleton_append, read?_object,
        ih.readList?_members, rereadWithin?, nesting, reread?, ← map_ite_succ, Option.map_map,
        Option.map_map]
      rfl
    | _ => exact read?_scalar (depth + 1) (by simp) (by simp) h

/-- **Documents.** The written form of a value is read as the value with its numbers reread, unless
it is nested too deep. -/
theorem parse?_compact (v : Json) :
    parse? v.compact = if v.nesting ≤ maxDepth then v.reread? else none := by
  have h := @read?_compact maxDepth v [] rfl
  rw [List.append_nil] at h
  rw [parse?, h, rereadWithin?]
  split_ifs with hdepth
  · cases v.reread? <;> rfl
  · rfl

end JoinPlan.Json
