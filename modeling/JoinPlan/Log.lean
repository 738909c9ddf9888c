import JoinPlan.Predicate.Printer
import JoinPlan.Settings.Basic
/-!
# The log

A computation that reports what it does is a value together with the events that led to it. The
value never depends on the events.

Results:
* `Logged.bind_value`: the value of a sequence.
-/
namespace JoinPlan

/-- What is reported. -/
inductive Event where
  /-- a text was read -/
  | parsed (predicate : Predicate)
  /-- an identifier turned out to be an alias -/
  | resolved (short canonical : String)
  /-- an identifier has an empty segment -/
  | emptySegment (identifier : String)
  /-- a relation was added to the tree -/
  | relationAdded (name parent : String)
  /-- a tree is complete -/
  | compiled (expression : String) (relations : Nat)
  /-- aliases were read from a file -/
  | aliasesLoaded (count : Nat) (path : String)
  /-- the settings are complete -/
  | settingsLoaded (settings : Settings)
  deriving Repr

inductive Level where
  | trace
  | debug
  | warn
  deriving DecidableEq, Repr

namespace Event

/-- mirrors the levels of the log records -/
def level : Event → Level
  | .parsed _ => .trace
  | .resolved _ _ => .trace
  | .emptySegment _ => .warn
  | .relationAdded _ _ => .trace
  | .compiled _ _ => .debug
  | .aliasesLoaded _ _ => .debug
  | .settingsLoaded _ => .debug

/-- mirrors the texts of the log records -/
def message : Event → String
  | .parsed p => "parsed predicate: " ++ p.text
  | .resolved short canonical => "alias '" ++ short ++ "' → '" ++ canonical ++ "'"
  | .emptySegment id =>
    "identifier '" ++ id ++ "' has an empty path segment; keeping it as an unnamed relation"
  | .relationAdded name parent => "new relation node '" ++ name ++ "' under '" ++ parent ++ "'"
  | .compiled expression relations =>
    "compiled relation expression '" ++ expression ++ "' (" ++ toString relations ++ " relations)"
  | .aliasesLoaded count path => "loaded " ++ toString count ++ " aliases from " ++ path
  | .settingsLoaded settings => "Effective compiler config: " ++ settings.describe

end Event

/-- A value and the events on the way to it. -/
structure Logged (α : Type) where
  value : α
  events : List Event

namespace Logged

variable {α β : Type}

instance : Monad Logged where
  pure a := ⟨a, []⟩
  bind x f := ⟨(f x.value).value, x.events ++ (f x.value).events⟩

/-- Reports events. -/
def report (events : List Event) : Logged Unit := ⟨(), events⟩

theorem bind_value (x : Logged α) (f : α → Logged β) : (x >>= f).value = (f x.value).value := rfl

end Logged
end JoinPlan
