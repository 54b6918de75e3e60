import Hierarchy.Text.Split

/-!
# Variables of the environment

The environment holds a text for each variable: the name, an equals sign and the value.  A variable
is asked for by the start of its text up to an equals sign, and the answer is the rest.  So a name
with an equals sign in it reaches into a value.  For names without one, a look-up takes the first
variable of that name (`value?_eq_lookup`).
-/

namespace Hierarchy

/-- The variables with their values. -/
abbrev Environment := List (String × String)

namespace Environment

/-- The text of a variable. -/
def entry (v : String × String) : List Char := v.1.toList ++ '=' :: v.2.toList

/-- The variable that a text stands for; the first character belongs to the name in any case. -/
def ofEntry? : List Char → Option (String × String)
  | [] => none
  | c :: rest =>
    match rest.dropWhile (· != '=') with
    | _ :: value => some (String.ofList (c :: rest.takeWhile (· != '=')), String.ofList value)
    | [] => none

/-- The variables of a block of texts, each of which ends with the character zero. -/
def ofBlock (block : String) : Environment := (Text.split '\x00' block.toList).filterMap ofEntry?

/-- The value of a variable; nothing has the empty name. -/
def value? (env : Environment) (name : String) : Option String :=
  if name.isEmpty then none
  else env.findSome? fun v => ((name.toList ++ ['=']).isPrefixOf? (entry v)).map String.ofList

/-! ## Names without an equals sign -/

theorem isPrefixOf?_cons (c d : Char) (cs ds : List Char) :
    (c :: cs).isPrefixOf? (d :: ds) = if c == d then cs.isPrefixOf? ds else none := rfl

theorem isPrefixOf?_nil (cs : List Char) : ([] : List Char).isPrefixOf? cs = some cs := by
  cases cs <;> rfl

theorem isPrefixOf?_of_not_mem {name other : List Char} (value : List Char) (h : '=' ∉ name)
    (ho : '=' ∉ other) :
    (name ++ ['=']).isPrefixOf? (other ++ '=' :: value) =
      if name = other then some value else none := by
  induction name generalizing other with
  | nil =>
    cases other with
    | nil => simp [isPrefixOf?_cons, isPrefixOf?_nil]
    | cons d other =>
      have : d ≠ '=' := fun e => ho (by simp [e])
      simp [isPrefixOf?_cons, this.symm]
  | cons c name ih =>
    cases other with
    | nil =>
      have : c ≠ '=' := fun e => h (by simp [e])
      simp [isPrefixOf?_cons, this]
    | cons d other =>
      have := ih (fun m => h (List.mem_cons_of_mem _ m))
        (fun m : '=' ∈ other => ho (List.mem_cons_of_mem _ m))
      by_cases e : c = d <;> simp [isPrefixOf?_cons, this, e]

theorem value?_eq_lookup {env : Environment} {name : String} (hn : name ≠ "")
    (h : '=' ∉ name.toList) (he : ∀ v ∈ env, '=' ∉ v.1.toList) :
    env.value? name = env.lookup name := by
  unfold value?
  rw [if_neg (by simpa using hn)]
  induction env with
  | nil => rfl
  | cons v env ih =>
    have hv := isPrefixOf?_of_not_mem v.2.toList h (he v (by simp))
    rw [List.findSome?_cons, List.lookup_cons, entry, hv, ih fun w hw => he w (by simp [hw])]
    by_cases e : name = v.1
    · simp [e]
    · have : (name == v.1) = false := by simpa using e
      simp [e, this, String.toList_inj]

end Environment

end Hierarchy
