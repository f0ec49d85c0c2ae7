import ApiTree.Fault

/-!
# ApiTree.Route.Method

The methods of operations.
-/

namespace ApiTree

/-- A method, in the order in which documents list them. -/
inductive Method where
  | get
  | put
  | post
  | delete
  | options
  | head
  | patch
  | trace
deriving DecidableEq, Repr, Inhabited

namespace Method

/-- All methods, in order. -/
def all : List Method := [.get, .put, .post, .delete, .options, .head, .patch, .trace]

/-- The name of a method. -/
def name : Method → String
  | .get => "get"
  | .put => "put"
  | .post => "post"
  | .delete => "delete"
  | .options => "options"
  | .head => "head"
  | .patch => "patch"
  | .trace => "trace"

/-- The name in capitals. -/
def upper (m : Method) : String := m.name.map Char.toUpper

/-- The method of a name. -/
def ofName? (s : String) : Option Method := all.find? (·.name == s)

/-- The method of a name in any case. -/
def ofText (s : String) : Except Fault Method :=
  match ofName? (s.map Char.toLower) with
  | some m => .ok m
  | none => .error (.unsupportedMethod s)

theorem ofName?_name (m : Method) : ofName? m.name = some m := by cases m <;> rfl

end Method
end ApiTree
