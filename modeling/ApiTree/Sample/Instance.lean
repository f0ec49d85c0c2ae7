import ApiTree.Validation.Typed

/-!
# ApiTree.Sample.Instance

Building values of declared types from the samples that their declarations
give: validated, or as they are.  Records take the members by name, unconverted,
and enumerations look up the member that a value stands for.
-/

namespace ApiTree
namespace Catalog

/-- A value of a model from members that are taken as they are: defaults fill in,
and a required member that is not given is missing. -/
def modelAsIs (i : Nat) (fields : List FieldDecl) (extra : Extra) (ms : Json.Members) : Value :=
  let known := fields.filterMap fun f =>
    (Checked.found? ms [f.wireName, f.name]).map (·.2)
      |>.or f.default
      |>.map fun j => (f.name, Value.ofJson j)
  let others := ms.filter fun m => !fields.any fun f => f.wireName == m.1 || f.name == m.1
  .record i (known ++ if extra = .allowed then others.map fun (n, j) => (n, .ofJson j) else [])

/-- A value of a record from its members by name. -/
def recordOf (c : Catalog) (i : Nat) (fields : List FieldDecl) (ms : Json.Members) :
    Except Fault Value :=
  let name := (c.decl i).qualname
  match List.find? (fun m => !fields.any (·.name == m.1)) ms with
  | some (unknown, _) => .error (.unexpectedArgument name unknown)
  | none =>
    match fields.filter fun f => f.default.isNone && !Table.has ms f.name with
    | [] => .ok <| .record i <| fields.filterMap fun f =>
        ((Table.find? ms f.name).or f.default).map fun j => (f.name, .ofJson j)
    | missing => .error (.missingArguments name (missing.map (·.name)))

/-- The member of an enumeration that a value stands for. -/
def memberOf (c : Catalog) (i : Nat) (members : List (String × Json)) (j : Json) :
    Except Fault Value :=
  match members.find? fun m => m.2.looseEq j with
  | some (n, v) => .ok (.member i n v)
  | none => .error (.notAnOption j.shown (c.decl i).qualname)

/-- The value of a declared type that a sample describes. -/
def instanceOf (c : Catalog) (i : Nat) (raw : Bool) (j : Json) : Except Fault Value :=
  match c.form i, j, raw with
  | .model fs extra _ _, .obj ms, true => .ok (modelAsIs i fs extra ms)
  | .root _, j, true => .ok (.wrapped i (.ofJson j))
  | .record fs, .obj ms, _ => c.recordOf i fs ms
  | .enum members _, j, _ => c.memberOf i members j
  | .opaqueClass, _, _ => .ok (.plain i)
  | _, j, _ => c.acceptDeclared i j

end Catalog
end ApiTree
