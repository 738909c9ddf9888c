import JoinPlan.CommandLine.Run
import JoinPlan.Proofs.Plan.Identifiers
/-!
# The strict flag

Up to the plan a run collects what it compiles: settings, aliases and a predicate. The strict flag is
one of the settings and has no other part in this, so a run with the flag has the same in hand as the
run without it, but for strictness. From there on there is one way for the two to part: the plan is
refused because of an empty segment.

Nothing here depends on which documents the readers of the host accept, or on what they say of the
others.

Results:
* `Invocation.execute_eq`: a run collects what it needs and then compiles.
* `Invocation.prepare_strict`: what the flag changes in what is collected.
* `Preparation.output_tighten`: what strictness changes in the plan.
* `Invocation.report_strict`: a run with the flag, from the run without it.
* `Invocation.strict_only_refuses`: what the flag changes in what a run leaves behind.
-/
namespace JoinPlan

/-! ## A run in two halves -/

/-- What is in hand when a plan is made. -/
structure Preparation where
  settings : Settings
  aliases : Option AliasMap
  predicate : Predicate

namespace Preparation

def compile (r : Preparation) : Except Failure Compiled :=
  (Compiled.ofPredicate r.settings.strictIdentifiers r.aliases r.predicate).value.mapError .compile

/-- What is printed for what is in hand. -/
def output (r : Preparation) : Except Failure String := do
  return (← r.compile).render r.settings.outputFormat

end Preparation

namespace Invocation

/-- The predicate in `text`, as JSON if that is asked for. -/
def parse (i : Invocation) (r : Readers) (text : String) : Except Failure Predicate :=
  if i.json then
    match r.json text with
    | .error reason => .error (.json reason)
    | .ok v => (Predicate.ofJson? v).mapError fun e => .compile (.node e)
  else (Predicate.parse text.toList).mapError fun e => .compile (.ofSyntaxError text e)

/-- What a run has in hand when it makes a plan. -/
def prepare (i : Invocation) (host : Host Id) (e : Environment) : Except Failure Preparation := do
  let s ← (i.readSettings host e).run
  let aliases ← (readAliases host s).run
  let text ← (i.readPredicate host).run
  return ⟨s, aliases, ← i.parse host.toReaders text⟩

theorem compile_eq (i : Invocation) (r : Readers) (s : Settings) (aliases : Option AliasMap)
    (text : String) : i.compile r s aliases text =
      i.parse r text >>= fun p => Preparation.compile ⟨s, aliases, p⟩ := by
  rw [compile, parse]
  cases i.json with
  | true =>
    simp only [↓reduceIte]
    cases r.json text with
    | error reason => rfl
    | ok v =>
      simp only [Compiled.ofJson]
      cases Predicate.ofJson? v <;> rfl
  | false =>
    simp only [Bool.false_eq_true, ↓reduceIte, Compiled.ofText, Predicate.read]
    cases Predicate.parse text.toList <;> rfl

/-- Without effects, a step that fails ends the run. -/
theorem run_bind_id {α β : Type} (x : ExceptT Failure Id α) (f : α → ExceptT Failure Id β) :
    (x >>= f).run.run = x.run.run >>= fun a => (f a).run.run := by
  rw [ExceptT.run_bind, Id.run_bind]
  cases x.run.run <;> rfl

theorem execute_eq (i : Invocation) (host : Host Id) (e : Environment) :
    (i.execute host e).run.run = i.prepare host e >>= Preparation.output := by
  simp only [execute, prepare, run_bind_id, ExceptT.run_mk, Id.run_pure, compile_eq, bind_assoc,
    pure_bind, Preparation.output]
  rfl

end Invocation

/-- What a run leaves behind, by how it ended. -/
def Report.ofOutcome : Except Failure String → Report
  | .ok text => ⟨0, text ++ "\n", ""⟩
  | .error failure => ⟨1, "", failure.message ++ "\n"⟩

theorem message_emptySegment (id : String) :
    (Failure.compile (.emptySegment id)).message ++ "\n" =
      "Error: Identifier `" ++ id ++ "` contains an empty path segment\n" := by
  have hfront : "Error: " ++ "Identifier `" = "Error: Identifier `" := by decide
  have hback : "` contains an empty path segment" ++ "\n" =
      "` contains an empty path segment\n" := by decide
  calc (Failure.compile (.emptySegment id)).message ++ "\n"
      = "Error: " ++ ("Identifier `" ++ id ++ "` contains an empty path segment") ++ "\n" := rfl
    _ = ("Error: " ++ "Identifier `") ++ id ++ ("` contains an empty path segment" ++ "\n") := by
      simp only [String.append_assoc]
    _ = _ := by rw [hfront, hback]

/-! ## What the flag changes in what is collected -/

/-- The settings with strict rules. -/
def Settings.tighten (s : Settings) : Settings := { s with strictIdentifiers := true }

/-- What is in hand, with strict rules. -/
def Preparation.tighten (r : Preparation) : Preparation := { r with settings := r.settings.tighten }

theorem Settings.load_value (source : Except SettingsError Settings) (o : Overrides) :
    (load source o).value = source.bind fun s => (s.withOverrides o).validated := by
  unfold load
  split <;> rename_i h <;> exact h.symm

/-- The rules have no part in whether settings are valid. -/
theorem Settings.validated_tighten (s : Settings) :
    s.tighten.validated = s.validated.map tighten := by
  have hvalid : s.tighten.isValid = s.isValid := rfl
  unfold validated
  rw [hvalid]
  cases s.isValid <;> rfl

theorem Settings.load_strict (source : Except SettingsError Settings) (aliasFile : Option String)
    (format : Option OutputFormat) : (load source ⟨aliasFile, true, format⟩).value =
      (load source ⟨aliasFile, false, format⟩).value.map tighten := by
  rw [load_value, load_value]
  cases source with
  | error error => rfl
  | ok s =>
    have htop : s.withOverrides ⟨aliasFile, true, format⟩ =
        (s.withOverrides ⟨aliasFile, false, format⟩).tighten := by
      simp [withOverrides, tighten]
    simp only [Except.bind, htop, validated_tighten]

namespace Invocation

variable (i : Invocation) (host : Host Id) (e : Environment)

theorem readSettings_strict : ({ i with strict := true }.readSettings host e).run =
    Settings.tighten <$> ({ i with strict := false }.readSettings host e).run := by
  have hload : ∀ source, (Settings.load source { i with strict := true }.overrides).value.mapError
      Failure.settings = Settings.tighten <$>
        (Settings.load source { i with strict := false }.overrides).value.mapError .settings := by
    intro source
    simp only [overrides, Settings.load_strict]
    cases (Settings.load source ⟨i.aliases, false, i.output⟩).value <;> rfl
  cases i.config with
  | none =>
    rw [readSettings, readSettings]
    exact hload (Settings.ofEnvironment e)
  | some path =>
    rw [readSettings, readSettings]
    exact hload (Settings.ofFile host.toReaders (host.fileText path))

/-- The run with the flag collects what the run without it collects, for strict rules. -/
theorem prepare_strict : { i with strict := true }.prepare host e =
    Preparation.tighten <$> { i with strict := false }.prepare host e := by
  simp only [prepare, readSettings_strict, bind_map_left, map_bind, map_pure]
  -- neither the alias file nor the predicate depends on the flag
  rfl

end Invocation

/-! ## What strictness changes in the plan -/

namespace Preparation

variable (r : Preparation)

/-- The canonical identifiers of which the plan is made. -/
def identifiers : List String := r.predicate.canonicalIdentifiers r.aliases

theorem output_eq : r.output =
    match Plan.ofIdentifiers r.settings.strictIdentifiers r.identifiers with
    | .ok plan =>
      .ok (Compiled.render ⟨r.predicate.resolve r.aliases, plan⟩ r.settings.outputFormat)
    | .error e => .error (.compile e) := by
  rw [output, compile, Compiled.ofPredicate_value, identifiers]
  cases Plan.ofIdentifiers r.settings.strictIdentifiers (r.predicate.canonicalIdentifiers r.aliases) <;>
    rfl

/-- Without strict rules nothing is refused. -/
theorem output_lenient (h : r.settings.strictIdentifiers = false) :
    ∃ text, r.output = .ok text := by
  rw [output_eq, h]
  exact ⟨_, rfl⟩

theorem output_tighten_of_strict (h : r.settings.strictIdentifiers = true) :
    r.tighten.output = r.output := by
  rw [output_eq, output_eq, h]
  rfl

/-- Strict rules print the same where no segment is empty. -/
theorem output_tighten_of_find?_eq_none (h : r.identifiers.find? hasEmptySegment = none) :
    r.tighten.output = r.output := by
  have hplan : ∀ strict, Plan.ofIdentifiers strict r.identifiers =
      .ok ⟨.ofPaths (r.identifiers.map relationPath)⟩ := by
    intro strict
    rw [Plan.ofIdentifiers, h, ite_self]
  have hids : r.tighten.identifiers = r.identifiers := rfl
  rw [output_eq, output_eq, hids, hplan, hplan]
  rfl

/-- Strict rules refuse the first identifier with an empty segment. -/
theorem output_tighten_of_find?_eq_some {id : String}
    (h : r.identifiers.find? hasEmptySegment = some id) :
    r.tighten.output = .error (.compile (.emptySegment id)) := by
  have hids : r.tighten.identifiers = r.identifiers := rfl
  have hstrict : r.tighten.settings.strictIdentifiers = true := rfl
  rw [output_eq, hids, hstrict, Plan.ofIdentifiers, if_pos rfl, h]

/-- Strict rules print the same, or they refuse an identifier where otherwise none is refused. -/
theorem output_tighten :
    r.tighten.output = r.output ∧
        (r.settings.strictIdentifiers = true ∨ ∀ id ∈ r.identifiers, "" ∉ segments id) ∨
      ∃ text id, r.output = .ok text ∧ r.tighten.output = .error (.compile (.emptySegment id)) ∧
        r.settings.strictIdentifiers = false ∧ id ∈ r.identifiers ∧ "" ∈ segments id := by
  cases hstrict : r.settings.strictIdentifiers with
  | true => exact .inl ⟨r.output_tighten_of_strict hstrict, .inl rfl⟩
  | false =>
    cases hfind : r.identifiers.find? hasEmptySegment with
    | none =>
      refine .inl ⟨r.output_tighten_of_find?_eq_none hfind, .inr fun id hid => ?_⟩
      exact hasEmptySegment_eq_false_iff.1 (by simpa using List.find?_eq_none.1 hfind id hid)
    | some id =>
      obtain ⟨text, htext⟩ := r.output_lenient hstrict
      exact .inr ⟨text, id, htext, r.output_tighten_of_find?_eq_some hfind, rfl,
        List.mem_of_find?_eq_some hfind, hasEmptySegment_iff.1 (List.find?_some hfind)⟩

end Preparation

namespace Invocation

variable (i : Invocation) (host : Host Id) (e : Environment)

theorem report_eq : (i.report host e).run =
    .ofOutcome (i.prepare host e >>= Preparation.output) := by
  rw [report_id, execute_eq]
  cases i.prepare host e >>= Preparation.output <;> rfl

/-- The run with the flag is the run without it, but for strict rules when the plan is made. -/
theorem report_strict : ({ i with strict := true }.report host e).run =
    .ofOutcome ({ i with strict := false }.prepare host e >>= fun r => r.tighten.output) := by
  rw [report_eq, prepare_strict, bind_map_left]

/-- **The strict flag.** A run that fails without the flag leaves the same behind with it. A run that
succeeds does so too, unless an identifier is refused because of an empty segment, and then it
leaves nothing behind but that message. This is the case exactly if strict rules were not in force
anyway and some canonical identifier of the predicate has an empty segment. -/
theorem strict_only_refuses (i : Invocation) (host : Host Id) (e : Environment) :
    let lenient := ({ i with strict := false }.report host e).run
    let strict := ({ i with strict := true }.report host e).run
    (lenient.exitCode ≠ 0 → strict = lenient) ∧
    (lenient.exitCode = 0 → strict = lenient ∨ ∃ id, "" ∈ segments id ∧
      strict = ⟨1, "", "Error: Identifier `" ++ id ++ "` contains an empty path segment\n"⟩) ∧
    ∀ r, { i with strict := false }.prepare host e = .ok r →
      (strict ≠ lenient ↔ r.settings.strictIdentifiers = false ∧
        ∃ id ∈ r.predicate.canonicalIdentifiers r.aliases, "" ∈ segments id) := by
  intro lenient strict
  have hstrict : strict = _ := i.report_strict host e
  have hlenient : lenient = _ := report_eq { i with strict := false } host e
  cases hprepare : { i with strict := false }.prepare host e with
  | error failure =>
    -- no plan is made, and what fails before fails alike
    rw [hprepare] at hstrict hlenient
    have hsame : strict = lenient := hstrict.trans hlenient.symm
    exact ⟨fun _ => hsame, fun _ => .inl hsame, fun r hr => by cases hr⟩
  | ok r =>
    rw [hprepare] at hstrict hlenient
    change strict = .ofOutcome r.tighten.output at hstrict
    change lenient = .ofOutcome r.output at hlenient
    rcases r.output_tighten with ⟨hsame, hpassed⟩ | ⟨text, id, htext, hrefused, hrules, hid, hempty⟩
    · have hsame : strict = lenient := by rw [hstrict, hlenient, hsame]
      refine ⟨fun _ => hsame, fun _ => .inl hsame, ?_⟩
      rintro _ ⟨⟩
      refine ⟨fun h => absurd hsame h, ?_⟩
      rintro ⟨hrules, id, hid, hempty⟩
      rcases hpassed with h | h
      · rw [hrules] at h
        cases h
      · exact absurd hempty (h id hid)
    · have hcode : lenient.exitCode = 0 := by rw [hlenient, htext, Report.ofOutcome]
      have hcode' : strict.exitCode = 1 := by rw [hstrict, hrefused, Report.ofOutcome]
      refine ⟨fun h => absurd hcode h, fun _ => .inr ⟨id, hempty, ?_⟩, ?_⟩
      · rw [hstrict, hrefused, Report.ofOutcome, message_emptySegment]
      · rintro _ ⟨⟩
        refine ⟨fun _ => ⟨hrules, id, hid, hempty⟩, fun _ hsame => ?_⟩
        rw [hsame, hcode] at hcode'
        cases hcode'

/-- A run that is refused with the flag, because of what an alias stands for, and one that fails with
the flag as it does without, on a text that is no JSON document. -/
theorem strict_only_refuses_of_gap :
    let readers : Readers := {
      json := fun _ => .error "EOF while parsing a list at line 1 column 1"
      settings := fun _ => .ok .standard
      aliases := fun _ => .ok (.ofList [("pay", "salaries..pay")]) }
    let host : Host Id := ⟨readers, fun _ => .ok "pay: salaries..pay\n", .ok ""⟩
    let e : Environment := ⟨none, none, none⟩
    let i : Invocation := { predicate := some "eq: ['pay', 1]", aliases := some "aliases.yaml" }
    let r : Preparation := ⟨{ Settings.standard with aliasFile := some "aliases.yaml" },
      some (.ofList [("pay", "salaries..pay")]), .comparison .eq "pay" (.integer 1)⟩
    let broken : Invocation := { predicate := some "[", json := true }
    ({ i with strict := false }.prepare host e = .ok r ∧
      { i with strict := true }.report host e ≠ { i with strict := false }.report host e) ∧
    ((broken.report host e).run.exitCode = 1 ∧
      { broken with strict := true }.report host e = broken.report host e) := by
  intro readers host e i r broken
  have hparse : i.parse readers "eq: ['pay', 1]" = .ok r.predicate := by
    rw [parse, if_neg Bool.false_ne_true, Predicate.parse, Predicate.parsePrefix, Parser.node]
    rfl
  have hprepare : { i with strict := false }.prepare host e = .ok r := by
    change (i.parse readers "eq: ['pay', 1]" >>= fun p => .ok ⟨r.settings, r.aliases, p⟩) = .ok r
    rw [hparse]
    rfl
  refine ⟨⟨hprepare, ?_⟩, ?_⟩
  · refine ((strict_only_refuses i host e).2.2 r hprepare).2 ⟨rfl, "salaries..pay", ?_, ?_⟩
    · decide
    · decide
  · have hcode : (broken.report host e).run.exitCode = 1 := rfl
    refine ⟨hcode, (strict_only_refuses broken host e).1 ?_⟩
    change (broken.report host e).run.exitCode ≠ 0
    rw [hcode]
    decide

end Invocation
end JoinPlan
