import JoinPlan.Proofs.Relation.Graft
import JoinPlan.Proofs.Relation.Grammar
import JoinPlan.Relation.Path
/-!
# Leaves

The leaves of a tree say all there is about it: the routes to them, inserted from left to right,
make the tree again. A leaf path is such a route with dots between its names, except that names
without a character leave no trace in front of the first one that has some. So the segments of a
leaf path are the route again, unless that starts with an unnamed relation and goes on.

Results:
* `insertAll_routes`: inserting the routes is putting the tree in.
* `pairwise_routesAll`: no route is the beginning of another.
* `leafPaths_eq`, `segments_written`: leaf paths as routes, and what their segments are.
-/
namespace JoinPlan.RelationTree

/-! ## Routes -/

mutual

/-- The routes from a relation to the leaves behind it; a leaf is at the end of its own. -/
def routes : RelationTree → List (List String)
  | ⟨_, []⟩ => [[]]
  | ⟨_, t :: ts⟩ => (routes t).map (t.name :: ·) ++ routesAll ts

/-- The routes over some siblings, each with the name of the sibling in front. -/
def routesAll : List RelationTree → List (List String)
  | [] => []
  | t :: ts => (routes t).map (t.name :: ·) ++ routesAll ts

end

section

variable {t : RelationTree} {ts : List RelationTree} {route : List String}

theorem routes_of_ne_nil (name : String) (h : ts ≠ []) : routes ⟨name, ts⟩ = routesAll ts := by
  cases ts with
  | nil => exact absurd rfl h
  | cons t ts => rw [routes, routesAll]

theorem routes_ne_nil (t : RelationTree) : routes t ≠ [] := by
  induction t using induction with
  | node name ts ih =>
    cases ts with
    | nil => simp [routes]
    | cons t ts => simp [routes, ih t (by simp)]

theorem mem_routesAll_iff :
    route ∈ routesAll ts ↔ ∃ t ∈ ts, ∃ r ∈ routes t, route = t.name :: r := by
  induction ts with
  | nil => simp [routesAll]
  | cons t ts ih => simp [routesAll, ih, eq_comm]

/-! ### What routes make -/

/-- Paths with one first name go into one child. -/
theorem insertAll_map_cons {paths : List (List String)} (h : paths ≠ []) (name : String)
    (u : RelationTree) : insertAll (paths.map (name :: ·)) u =
      ⟨u.name, changeNamed name (insertAll paths) u.children⟩ := by
  induction paths generalizing u with
  | nil => exact absurd rfl h
  | cons path paths ih =>
    cases paths with
    | nil => rfl
    | cons path' paths =>
      have hstep : insertAll ((path :: path' :: paths).map (name :: ·)) u =
          insertAll ((path' :: paths).map (name :: ·)) (insert (name :: path) u) := rfl
      rw [hstep, ih (by simp), insert, changeNamed_changeNamed (name_insert path)]
      rfl

theorem insertAll_append (paths paths' : List (List String)) (u : RelationTree) :
    insertAll (paths ++ paths') u = insertAll paths' (insertAll paths u) :=
  List.foldl_append

mutual

/-- **Leaves.** The routes to the leaves of a tree make all of it. -/
theorem insertAll_routes : ∀ t u : RelationTree, insertAll (routes t) u = graft t u
  | ⟨name, []⟩, u => by
    rw [routes, ← leaf, graft_leaf]
    rfl
  | ⟨name, t :: ts⟩, u => by
    rw [routes_of_ne_nil name (by simp), insertAll_routesAll (t :: ts) u, graft]

theorem insertAll_routesAll : ∀ (ts : List RelationTree) (u : RelationTree),
    insertAll (routesAll ts) u = ⟨u.name, graftAll ts u.children⟩
  | [], ⟨_, _⟩ => rfl
  | t :: ts, u => by
    have hchild : insertAll (routes t) = graft t := funext (insertAll_routes t)
    rw [routesAll, insertAll_append, insertAll_map_cons (routes_ne_nil t), hchild,
      insertAll_routesAll ts, graftAll]

end

/-! ### Which routes there are -/

theorem mem_paths_of_mem_routesAll (t : RelationTree) :
    ∀ route ∈ routesAll t.children, route ∈ paths t := by
  induction t using induction with
  | node name ts ih =>
    intro route h
    obtain ⟨t, ht, r, hr, rfl⟩ := mem_routesAll_iff.1 h
    rw [paths_eq, mem_pathsAll_iff]
    refine ⟨t, ht, r, rfl, ?_⟩
    obtain ⟨name', ts'⟩ := t
    by_cases hts : ts' = []
    · subst hts
      exact .inl (by simpa [routes] using hr)
    · rw [routes_of_ne_nil name' hts] at hr
      exact .inr (ih _ ht r hr)

/-- Neither of two paths is the beginning of the other. -/
def Apart (a b : List String) : Prop := ¬ a <+: b ∧ ¬ b <+: a

theorem apart_cons (name : String) {a b : List String} :
    Apart (name :: a) (name :: b) ↔ Apart a b := by
  simp [Apart, List.cons_prefix_cons]

theorem pairwise_routes (h : (routesAll t.children).Pairwise Apart) :
    (routes t).Pairwise Apart := by
  obtain ⟨name, ts⟩ := t
  by_cases hts : ts = []
  · subst hts
    rw [routes]
    exact List.pairwise_singleton _ _
  · rw [routes_of_ne_nil name hts]
    exact h

/-- **No beginnings.** No route to a leaf is the beginning of another one: below one sibling by
induction, and over two siblings the routes differ in the first name. -/
theorem pairwise_routesAll (h : UniqueSiblings t) : (routesAll t.children).Pairwise Apart := by
  induction h with
  | @mk t hn _ ih =>
    rw [names] at hn
    generalize t.children = ts at hn ih
    induction ts with
    | nil => exact .nil
    | cons t ts ihs =>
      obtain ⟨hnotin, hn⟩ := List.nodup_cons.1 hn
      obtain ⟨ht, hts⟩ := List.forall_mem_cons.1 ih
      rw [routesAll, List.pairwise_append, List.pairwise_map]
      refine ⟨(pairwise_routes ht).imp (apart_cons t.name).2, ihs hn hts, fun a ha b hb => ?_⟩
      obtain ⟨r, -, rfl⟩ := List.mem_map.1 ha
      obtain ⟨u, hu, r', -, rfl⟩ := mem_routesAll_iff.1 hb
      have hne : t.name ≠ u.name := fun h => hnotin (List.mem_map.2 ⟨u, hu, h.symm⟩)
      simp [Apart, List.cons_prefix_cons, hne, hne.symm]

end

/-! ## Leaf paths -/

/-- A name behind what is written already. -/
def behind (before name : String) : String := if before = "" then name else before ++ "." ++ name

/-- A route as it is written. -/
def written (route : List String) : String := route.foldl behind ""

mutual

theorem leavesBehind_eq (before : String) : ∀ t : RelationTree,
    leavesBehind before t = (routes t).map fun r => (t.name :: r).foldl behind before
  | ⟨name, []⟩ => by
    rw [leavesBehind, routes]
    rfl
  | ⟨name, t :: ts⟩ => by
    rw [leavesBehind, routes, List.map_append, List.map_map]
    change leavesBehind (behind before name) t ++ leavesOfAll (behind before name) ts = _
    rw [leavesBehind_eq _ t, leavesOfAll_eq _ ts]
    rfl

theorem leavesOfAll_eq (before : String) : ∀ ts : List RelationTree,
    leavesOfAll before ts = (routesAll ts).map (List.foldl behind before)
  | [] => by
    rw [leavesOfAll, routesAll]
    rfl
  | t :: ts => by
    rw [leavesOfAll, routesAll, List.map_append, List.map_map, leavesBehind_eq before t,
      leavesOfAll_eq before ts]
    rfl

end

theorem leafPaths_eq (t : RelationTree) : t.leafPaths = (routesAll t.children).map written :=
  leavesOfAll_eq "" t.children

/-! ### Segments of leaf paths -/

/-- Whether a path goes on behind a first name that is empty. -/
def startsUnnamed : List String → Bool
  | first :: _ :: _ => first = ""
  | _ => false

/-- What can be read of a route: it without the empty names in front, if any other is left. -/
def readable (route : List String) : List String :=
  match route.dropWhile (· = "") with
  | [] => [""]
  | n :: rest => n :: rest

section

variable {n : String} {route l : List String}

theorem readable_cons_empty (route : List String) : readable ("" :: route) = readable route := by
  simp [readable]

theorem readable_cons (h : n ≠ "") (route : List String) : readable (n :: route) = n :: route := by
  simp [readable, h]

theorem startsUnnamed_cons (h : n ≠ "") (route : List String) :
    startsUnnamed (n :: route) = false := by
  cases route with
  | nil => rfl
  | cons m route => simp [startsUnnamed, h]

theorem startsUnnamed_readable (route : List String) : startsUnnamed (readable route) = false := by
  induction route with
  | nil => rfl
  | cons n route ih =>
    by_cases h : n = ""
    · rw [h, readable_cons_empty, ih]
    · rw [readable_cons h, startsUnnamed_cons h]

theorem readable_eq_self (h : startsUnnamed route = false) (hne : route ≠ []) :
    readable route = route := by
  match route with
  | [] => exact absurd rfl hne
  | [n] =>
    by_cases hn : n = ""
    · rw [hn]; rfl
    · exact readable_cons hn []
  | n :: m :: route => exact readable_cons (by simpa [startsUnnamed] using h) (m :: route)

theorem startsUnnamed_of_beginning (hp : route <+: l) (h : startsUnnamed route = true) :
    startsUnnamed l = true := by
  obtain ⟨r, rfl⟩ := hp
  match route with
  | [] => cases h
  | [n] => cases h
  | n :: m :: route => exact h

theorem mem_of_startsUnnamed (h : startsUnnamed l = true) : "" ∈ l := by
  match l with
  | [] => cases h
  | [n] => cases h
  | n :: m :: l =>
    obtain rfl : n = "" := by simpa [startsUnnamed] using h
    simp

/-- Behind what is written every further name is a segment. -/
theorem segments_foldl_behind {before : String} (hbefore : before ≠ "")
    (h : ∀ n ∈ route, '.' ∉ n.toList) :
    segments (route.foldl behind before) = segments before ++ route := by
  induction route generalizing before with
  | nil => simp
  | cons n route ih =>
    obtain ⟨hn, hroute⟩ := List.forall_mem_cons.1 h
    have hne : before ++ "." ++ n ≠ "" := by simp
    rw [List.foldl_cons, behind, if_neg hbefore, ih hne hroute, segments_append,
      segments_of_no_dot hn, List.append_assoc, List.singleton_append]

/-- **Reading leaf paths.** The segments of a written route are what can be read of it. -/
theorem segments_written (h : ∀ n ∈ route, '.' ∉ n.toList) :
    segments (written route) = readable route := by
  induction route with
  | nil => rfl
  | cons n route ih =>
    obtain ⟨hn, hroute⟩ := List.forall_mem_cons.1 h
    have hfirst : written (n :: route) = route.foldl behind n := rfl
    by_cases hempty : n = ""
    · subst hempty
      rw [hfirst, ← written, ih hroute, readable_cons_empty]
    · rw [hfirst, segments_foldl_behind hempty hroute, segments_of_no_dot hn,
        readable_cons hempty, List.singleton_append]

end

end JoinPlan.RelationTree
