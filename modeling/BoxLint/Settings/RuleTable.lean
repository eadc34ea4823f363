import BoxLint.Diagnostic

/-!
# Rule overrides

Settings override what a rule does by default. The overrides are kept in ascending order of the
rules' ids, each id once, so two tables with the same overrides are equal.
-/

namespace BoxLint

/-- A severity as settings choose it: a rule is switched off, or reports at a level. -/
inductive SeverityChoice where
  | off
  | level (severity : Severity)
  deriving DecidableEq, Repr

namespace SeverityChoice

/-- The level at which a rule reports. -/
def level? : SeverityChoice → Option Severity
  | .off => none
  | .level s => some s

/-- The word that stands for a choice. -/
def word : SeverityChoice → String
  | .off => "none"
  | .level s => s.name

/-- The choice that a word stands for. An info is also called a suggestion. -/
def ofWord? (w : String) : Option SeverityChoice :=
  if w = "none" then some .off
  else if w = "hidden" then some (.level .hidden)
  else if w = "info" ∨ w = "suggestion" then some (.level .info)
  else if w = "warning" then some (.level .warning)
  else if w = "error" then some (.level .error)
  else none

end SeverityChoice

/-- What settings say about a rule; what they leave open stays as the rule has it. -/
structure RuleOverride where
  enabled : Option Bool
  severity : Option SeverityChoice
  message : Option String
  deriving DecidableEq, Repr

namespace RuleTable

/-- Puts an override in its place among ascending ids, in place of one with the same id. -/
def insertAscending (id : String) (o : RuleOverride) :
    List (String × RuleOverride) → List (String × RuleOverride)
  | [] => [(id, o)]
  | (id', o') :: es =>
    if id < id' then (id, o) :: (id', o') :: es
    else if id = id' then (id, o) :: es
    else (id', o') :: insertAscending id o es

theorem fst_of_mem_insertAscending {id : String} {o : RuleOverride}
    {es : List (String × RuleOverride)} {e : String × RuleOverride}
    (h : e ∈ insertAscending id o es) : e.1 = id ∨ e ∈ es := by
  fun_induction insertAscending id o es <;> grind

theorem pairwise_insertAscending {id : String} {o : RuleOverride}
    {es : List (String × RuleOverride)} (h : es.Pairwise (fun a b => a.1 < b.1)) :
    (insertAscending id o es).Pairwise (fun a b => a.1 < b.1) := by
  fun_induction insertAscending id o es with
  | case1 => simp
  | case2 id' o' es hlt =>
    refine List.pairwise_cons.2 ⟨fun e he => ?_, h⟩
    rcases List.mem_cons.1 he with rfl | he
    · exact hlt
    · exact String.lt_trans hlt ((List.pairwise_cons.1 h).1 e he)
  | case3 => simpa using h
  | case4 id' o' es hlt hne ih =>
    obtain ⟨hhead, htail⟩ := List.pairwise_cons.1 h
    refine List.pairwise_cons.2 ⟨fun e he => ?_, ih htail⟩
    rcases fst_of_mem_insertAscending he with heq | he
    · rw [heq]
      exact String.not_le.1 fun hle => hne (String.le_antisymm hle (String.not_lt.1 hlt))
    · exact hhead e he

end RuleTable

/-- Overrides by rule id, in ascending order of the ids. -/
structure RuleTable where
  entries : List (String × RuleOverride)
  ascending : entries.Pairwise (fun a b => a.1 < b.1)
  deriving DecidableEq

namespace RuleTable

/-- The table without overrides. -/
def empty : RuleTable := ⟨[], .nil⟩

/-- Sets the override of a rule. -/
def insert (t : RuleTable) (id : String) (o : RuleOverride) : RuleTable :=
  ⟨insertAscending id o t.entries, pairwise_insertAscending t.ascending⟩

/-- The table of some overrides, the last one for an id. -/
def ofList (es : List (String × RuleOverride)) : RuleTable :=
  es.foldl (fun t (id, o) => t.insert id o) empty

/-- The override of a rule. -/
def get? (t : RuleTable) (id : String) : Option RuleOverride := t.entries.lookup id

/-- The ids of the overridden rules, in ascending order. -/
def ids (t : RuleTable) : List String := t.entries.map Prod.fst

theorem lookup_cons (id id' : String) (o : RuleOverride) (es : List (String × RuleOverride)) :
    ((id, o) :: es).lookup id' = if id' = id then some o else es.lookup id' := by
  by_cases h : id' = id
  · rw [h, List.lookup_cons_self, if_pos rfl]
  · rw [List.lookup_cons, beq_eq_false_iff_ne.2 h, if_neg h]

theorem lookup_insertAscending (id id' : String) (o : RuleOverride)
    (es : List (String × RuleOverride)) :
    (insertAscending id o es).lookup id' = if id' = id then some o else es.lookup id' := by
  fun_induction insertAscending id o es with
  | case1 => exact lookup_cons id id' o []
  | case2 id'' o' es hlt => exact lookup_cons id id' o _
  | case3 o' es hlt =>
    rw [lookup_cons, lookup_cons]
    split <;> rfl
  | case4 id'' o' es hlt hne ih =>
    rw [lookup_cons, lookup_cons, ih]
    by_cases h : id' = id
    · rw [if_pos h, if_pos h, if_neg fun h' => hne (h.symm.trans h')]
    · rw [if_neg h, if_neg h]

/-- Setting one override changes no other. -/
theorem get?_insert (t : RuleTable) (id id' : String) (o : RuleOverride) :
    (t.insert id o).get? id' = if id' = id then some o else t.get? id' :=
  lookup_insertAscending id id' o t.entries

end RuleTable

end BoxLint
