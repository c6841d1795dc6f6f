import Lisplet.Expr
/-!
# Scopes

A scope binds names to values. An environment is a chain of scopes, innermost first: a name
means its innermost binding, and only the innermost scope is ever bound in.
-/

namespace Lisplet

/-! ## One scope -/

structure Scope where
  bindings : List (String × Expr)

namespace Scope

def empty : Scope := ⟨[]⟩

def get? (s : Scope) (name : String) : Option Expr := s.bindings.lookup name

/-- Binds a name, in place of any binding that it had. -/
def insert (s : Scope) (name : String) (value : Expr) : Scope :=
  ⟨(name, value) :: s.bindings.filter fun b => b.1 ≠ name⟩

/-- Binds one name after another: of two bindings of a name the last wins. -/
def insertAll (s : Scope) (bindings : List (String × Expr)) : Scope :=
  bindings.foldl (fun s b => s.insert b.1 b.2) s

@[simp] theorem get?_empty (name : String) : empty.get? name = none := rfl

theorem lookup_filter {p : String → Bool} {name : String} (h : p name = true)
    (bindings : List (String × Expr)) :
    (bindings.filter fun b => p b.1).lookup name = bindings.lookup name := by
  induction bindings with
  | nil => rfl
  | cons b bindings ih =>
    obtain ⟨n, value⟩ := b
    by_cases hn : p n = true
    · rw [List.filter_cons_of_pos (by exact hn), List.lookup_cons, List.lookup_cons, ih]
    · have hb : (name == n) = false := by
        rw [beq_eq_false_iff_ne]
        rintro rfl
        exact hn h
      rw [List.filter_cons_of_neg (by exact hn), ih, List.lookup_cons, hb]

@[simp] theorem get?_insert (s : Scope) (name : String) (value : Expr) (n : String) :
    (s.insert name value).get? n = if n = name then some value else s.get? n := by
  by_cases h : n = name
  · simp [get?, insert, h]
  · have hb : (n == name) = false := by simp [h]
    have hf : (s.bindings.filter fun b => b.1 ≠ name).lookup n = s.bindings.lookup n :=
      lookup_filter (p := fun m => m ≠ name) (by simp [h]) s.bindings
    rw [get?, insert, List.lookup_cons, hb, hf, if_neg h, get?]

theorem insertAll_append (s : Scope) (bindings more : List (String × Expr)) :
    s.insertAll (bindings ++ more) = (s.insertAll bindings).insertAll more :=
  List.foldl_append

theorem get?_insertAll_of_not_mem {bindings : List (String × Expr)} {name : String}
    (h : ∀ b ∈ bindings, b.1 ≠ name) (s : Scope) :
    (s.insertAll bindings).get? name = s.get? name := by
  induction bindings generalizing s with
  | nil => rfl
  | cons b bindings ih =>
    obtain ⟨hb, hrest⟩ := List.forall_mem_cons.1 h
    calc ((s.insert b.1 b.2).insertAll bindings).get? name
      _ = (s.insert b.1 b.2).get? name := ih hrest _
      _ = s.get? name := by rw [get?_insert, if_neg hb.symm]

/-- The last binding of a name counts, whatever came before it. -/
theorem get?_insertAll_of_last {name : String} {more : List (String × Expr)}
    (h : ∀ b ∈ more, b.1 ≠ name) (s : Scope) (bindings : List (String × Expr)) (value : Expr) :
    (s.insertAll (bindings ++ (name, value) :: more)).get? name = some value := by
  rw [insertAll_append]
  calc (((s.insertAll bindings).insert name value).insertAll more).get? name
    _ = ((s.insertAll bindings).insert name value).get? name := get?_insertAll_of_not_mem h _
    _ = some value := by rw [get?_insert, if_pos rfl]

theorem mem_of_get?_insertAll {s : Scope} {bindings : List (String × Expr)} {name : String}
    {value : Expr} (h : (s.insertAll bindings).get? name = some value) :
    s.get? name = some value ∨ (name, value) ∈ bindings := by
  induction bindings generalizing s with
  | nil => exact .inl h
  | cons b bindings ih =>
    rcases ih h with hs | hb
    · rw [get?_insert] at hs
      split at hs
      · next hn =>
        cases hs
        rw [hn]
        exact .inr List.mem_cons_self
      · exact .inl hs
    · exact .inr (List.mem_cons_of_mem _ hb)

end Scope

/-! ## The chain -/

structure Env where
  innermost : Scope
  /-- The enclosing scopes, the root last. -/
  outer : List Scope

namespace Env

/-- A root scope without bindings. -/
def root : Env := ⟨.empty, []⟩

def define (env : Env) (name : String) (value : Expr) : Env :=
  { env with innermost := env.innermost.insert name value }

def defineAll (env : Env) (bindings : List (String × Expr)) : Env :=
  { env with innermost := env.innermost.insertAll bindings }

/-- Binds every primitive under its name. -/
def registerPrimitives (env : Env) : Env :=
  env.defineAll (Primitive.all.map fun p => (p.name, .builtIn (.primitive p)))

/-- Binds every extension under its name. -/
def registerExtensions (env : Env) : Env :=
  env.defineAll (Extension.all.map fun x => (x.name, .builtIn (.extension x)))

/-- The environment in which a program starts. -/
def initial : Env := root.registerPrimitives

/-- A chain with one more scope inside. -/
def push (env : Env) (scope : Scope) : Env := ⟨scope, env.innermost :: env.outer⟩

/-- The chain around the innermost scope; a root has none. -/
def parent? (env : Env) : Option Env :=
  match env.outer with
  | [] => none
  | scope :: outer => some ⟨scope, outer⟩

def isRoot (env : Env) : Bool := env.outer.isEmpty

/-- How many scopes enclose the innermost one. -/
def depth (env : Env) : Nat := env.outer.length

def bindsLocally (env : Env) (name : String) : Bool := (env.innermost.get? name).isSome

/-- The innermost binding of a name. -/
def get? (env : Env) (name : String) : Option Expr :=
  (env.innermost :: env.outer).findSome? fun scope => scope.get? name

@[simp] theorem parent?_push (env : Env) (scope : Scope) : (env.push scope).parent? = some env :=
  rfl

@[simp] theorem depth_push (env : Env) (scope : Scope) : (env.push scope).depth = env.depth + 1 :=
  rfl

theorem get?_push (env : Env) (scope : Scope) (name : String) :
    (env.push scope).get? name = (scope.get? name).or (env.get? name) := by
  cases h : scope.get? name <;> simp [get?, push, h]

/-- A name has no meaning only if no scope of the chain binds it. -/
theorem get?_eq_none_iff {env : Env} {name : String} :
    env.get? name = none ↔ ∀ scope ∈ env.innermost :: env.outer, scope.get? name = none :=
  List.findSome?_eq_none_iff

theorem get?_define (env : Env) (name : String) (value : Expr) (n : String) :
    (env.define name value).get? n = if n = name then some value else env.get? n := by
  by_cases h : n = name <;> simp [get?, define, h, List.findSome?_cons]

end Env

end Lisplet
