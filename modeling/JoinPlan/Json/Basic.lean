import JoinPlan.Number.Binary64
/-!
# JSON values

The members of an object are kept as they were written. Of several members with one name the last
one counts.
-/
namespace JoinPlan

/-- A number is kept as an integer if it was written as one that fits 64 bits, else as a double. -/
inductive Json.Number where
  | integer (value : Int)
  | float (negative : Bool) (magnitude : Magnitude)
  deriving DecidableEq, Repr

/-- A JSON value. -/
inductive Json where
  | null
  | boolean (value : Bool)
  | number (value : Json.Number)
  | text (value : String)
  | array (items : List Json)
  | object (members : List (String × Json))
  deriving Repr

namespace Json

/-- The value of the last member with the given name. -/
def member? (name : String) : List (String × Json) → Option Json
  | [] => none
  | (key, value) :: members =>
    match member? name members with
    | some found => some found
    | none => if key = name then some value else none

/-- A value that is found is one of those written. -/
theorem mem_of_member? {name : String} {value : Json} {members : List (String × Json)}
    (h : member? name members = some value) : (name, value) ∈ members := by
  induction members with
  | nil => simp [member?] at h
  | cons m members ih =>
    simp only [member?] at h
    split at h
    · rename_i found e
      cases Option.some.inj h
      exact List.mem_cons_of_mem _ (ih e)
    · split at h
      · rename_i hk
        cases Option.some.inj h
        simp [← hk]
      · simp at h

end Json
end JoinPlan
