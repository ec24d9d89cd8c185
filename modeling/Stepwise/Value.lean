import Stepwise.Text.Quoted

/-!
# Values and environments

A value is a signed 64-bit integer or a string. An environment binds names to values; a new name goes to the end, a name
that is bound again keeps its place.
-/

namespace Stepwise

/-- The two kinds of values. -/
inductive Kind where
  | integer
  | string
  deriving DecidableEq, Repr, Inhabited

/-- The name of a kind in messages. -/
def Kind.text : Kind → String
  | .integer => "integer"
  | .string => "string"

/-- A value of the language. -/
inductive Value where
  | int (n : Int64)
  | str (s : String)
  deriving DecidableEq, Repr, Inhabited

namespace Value

/-- The kind of a value. -/
def kind : Value → Kind
  | int _ => .integer
  | str _ => .string

/-- The text that printing a value gives. -/
def text : Value → String
  | int n => toString n
  | str s => s

/-- A value as tables show it: strings stand in quotes, so `"5"` differs from `5`. -/
def shown : Value → String
  | int n => toString n
  | str s => Text.quote s

end Value

/-- The bindings of names to values. -/
structure Env where
  entries : List (String × Value)
  deriving DecidableEq, Repr, Inhabited

namespace Env

/-- No bindings. -/
def empty : Env := ⟨[]⟩

/-- The value of a name. -/
def get? (env : Env) (name : String) : Option Value :=
  env.entries.lookup name

/-- Binds a name in a list of bindings: in its place when it is bound, else at the end. -/
def bind (name : String) (v : Value) : List (String × Value) → List (String × Value)
  | [] => [(name, v)]
  | (other, w) :: es => if name = other then (name, v) :: es else (other, w) :: bind name v es

/-- The environment with a name bound to a value. -/
def insert (env : Env) (name : String) (v : Value) : Env :=
  ⟨bind name v env.entries⟩

/-- The environment that binds one name. -/
def single (name : String) (v : Value) : Env := ⟨[(name, v)]⟩

/-- The environment with all bindings of another one made on top of it. -/
def update (env changes : Env) : Env :=
  changes.entries.foldl (fun e b => e.insert b.1 b.2) env

/-- The bound names, sorted by code points. -/
def names (env : Env) : List String :=
  (env.entries.map Prod.fst).mergeSort fun a b => !decide (b < a)

/-- A name that was just bound has the new value; the other names keep theirs. -/
theorem get?_insert (env : Env) (name other : String) (v : Value) :
    (env.insert name v).get? other = if other = name then some v else env.get? other := by
  obtain ⟨es⟩ := env
  simp only [insert, get?]
  induction es with
  | nil =>
    by_cases h : other = name
    · simp [bind, h]
    · have hb : (other == name) = false := by simpa using h
      simp [bind, h, List.lookup_cons, hb]
  | cons e es ih =>
    obtain ⟨n, w⟩ := e
    by_cases hn : name = n
    · subst hn
      by_cases h : other = name
      · simp [bind, h]
      · have hb : (other == name) = false := by simpa using h
        simp [bind, h, List.lookup_cons, hb]
    · by_cases h : other = n
      · subst h
        simp [bind, hn, Ne.symm hn]
      · have hb : (other == n) = false := by simpa using h
        simp [bind, hn, List.lookup_cons, hb, ih]

/-- The one binding of an environment with one binding is made by inserting it. -/
@[simp]
theorem update_single (env : Env) (name : String) (v : Value) : env.update (single name v) = env.insert name v := rfl

@[simp]
theorem update_empty (env : Env) : env.update empty = env := rfl

end Env

end Stepwise
