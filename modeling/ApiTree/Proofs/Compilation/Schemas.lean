import ApiTree.Proofs.Compilation.Conflict
import ApiTree.Proofs.Compilation.Captures
import ApiTree.Proofs.Document.Sameness

/-!
# ApiTree.Proofs.Compilation.Schemas

Schemas that meet in a merge.  Two declarations of one operation give schemas to one thing when
both have a parameter beside the path under one key, a capture at one place of the path, or a body
of one content type (`Operation.Shares`).  In a tree that compiles such schemas are equal by value,
so they are the same JSON value unless a boolean in one faces a number in the other.

* `compile_shared_schemas` — that holds for any two routes of one path and method, however far
  apart they stand in the tree.
-/

namespace ApiTree

/-- Two declarations of one operation have schemas for one thing: a parameter beside the path of
one key, a capture at one place of the path, or a body of one content type. -/
inductive Operation.Shares (a b : Operation) : Option Schema → Option Schema → Prop where
  | parameter {p q : Parameter} (hp : p ∈ sought a.parameters) (hq : q ∈ sought b.parameters)
    (hkey : p.key = q.key) : Shares a b p.schema q.schema
  | capture {i : Nat} {p q : Parameter} (hp : (captured a.parameters)[i]? = some p)
    (hq : (captured b.parameters)[i]? = some q) : Shares a b p.schema q.schema
  | body {x y : RequestBody} {contentType : String} {u v : MediaType}
    (hx : a.requestBody = some x) (hy : b.requestBody = some y)
    (hu : x.content.find? contentType = some u) (hv : y.content.find? contentType = some v) :
    Shares a b u.schema v.schema

/-- Declarations that agree have equal schemas, by value, for what they share. -/
theorem Operation.Agrees.same_of_shares {a b : Operation} {u w : Option Schema} (h : a.Agrees b)
    (hshares : a.Shares b u w) : Schema.sameOption u w = true := by
  cases hshares with
  | parameter hp hq hkey => exact (h.1.alike _ hp _ hq hkey).1
  | capture hp hq => exact h.1.captures _ _ _ hp hq
  | body hx hy hu hv => exact h.2.contents _ _ hx hy _ _ _ hu hv

/-- Two leaves of one path and method agree, whichever comes first. -/
theorem Coherent.agrees {ls : List Leaf} (h : Coherent ls) {i j : Nat} {l r : Leaf} (hij : i ≠ j)
    (hl : ls[i]? = some l) (hr : ls[j]? = some r) (hkey : l.key = r.key)
    (hmethod : l.method = r.method) : l.operation.Agrees r.operation := by
  obtain ⟨hi, rfl⟩ := List.getElem?_eq_some_iff.1 hl
  obtain ⟨hj, rfl⟩ := List.getElem?_eq_some_iff.1 hr
  rcases Nat.lt_or_gt_of_ne hij with hlt | hgt
  · exact List.pairwise_iff_getElem.1 h i j hi hj hlt hkey hmethod
  · exact (List.pairwise_iff_getElem.1 h j i hj hi hgt hkey.symm hmethod.symm).symm

/-- In a tree that compiles, any two routes of one path and method have schemas that are equal by
value for whatever both of them have: parameters, captures, and bodies of one content type.  They
are the same JSON value just if no boolean in one faces a number in the other. -/
theorem compile_shared_schemas (c : Catalog) (t : Tree) (info : Info) (servers : List Server)
    (compiled : Compiled) (h : compile c t info servers = .ok compiled) :
    ∃ p ls s, t.Folds c p ls s ∧ compiled.document.paths = p.paths ∧
      ∀ (i j : Nat) (l r : Leaf), i ≠ j → ls[i]? = some l → ls[j]? = some r → l.key = r.key →
        l.method = r.method → ∀ u w, l.operation.Shares r.operation u w →
          Schema.sameOption u w = true ∧ (Schema.SameValue u w ↔ ¬ Schema.Conflated u w) := by
  obtain ⟨p, ls, s, hfolds, hpaths⟩ := exists_folds h
  refine ⟨p, ls, s, hfolds, hpaths, fun i j l r hij hl hr hkey hmethod u w hshares => ?_⟩
  have hagrees := hfolds.summarizes.1.agrees hij hl hr hkey hmethod
  have hsame := hagrees.same_of_shares hshares
  exact ⟨hsame, by rw [Schema.sameValue_iff, and_iff_right hsame]⟩

/-- A route that asks for one of two values. -/
def choiceOf (v : Json) : Route :=
  ⟨[.query "x" (.literal [v, .str "a"]) false none], { method := .get }⟩

/-- Two routes of one path and method, with different choices for one parameter. -/
def choices (v w : Json) : Tree :=
  .alt (Tree.under (choiceOf v).qualifiers (.leaf (choiceOf v).endpoint))
    (Tree.under (choiceOf w).qualifiers (.leaf (choiceOf w).endpoint))

/-- The schema of the parameter. -/
def choiceSchema (v : Json) : Schema := [("enum", .arr [v, .str "a"])]

/-- The parameter of a choice. -/
def choiceParameter (v : Json) : Parameter where
  name := "x"
  location := "query"
  required := some false
  schema := some (choiceSchema v)

/-- The route with its operation. -/
def choiceLeaf (v : Json) : Leaf where
  route := choiceOf v
  operation := { parameters := [choiceParameter v], responses := [("200", {})] }

theorem choiceLeaf_shares (v w : Json) : (choiceLeaf v).operation.Shares (choiceLeaf w).operation
    (some (choiceSchema v)) (some (choiceSchema w)) := by
  have hsought (v : Json) : choiceParameter v ∈ sought (choiceLeaf v).operation.parameters :=
    mem_sought.2 ⟨List.mem_singleton_self _, by simp [choiceParameter]⟩
  exact .parameter (hsought v) (hsought w) rfl

/-- A choice of a number that is offered twice is the same value both times. -/
theorem numberChoices_share : ∃ p ls s, (choices (.int 1) (.int 1)).Folds [] p ls s ∧
    ls = [choiceLeaf (.int 1), choiceLeaf (.int 1)] ∧
    Schema.SameValue (some (choiceSchema (.int 1))) (some (choiceSchema (.int 1))) := by
  have hok : (compile [] (choices (.int 1) (.int 1)) {} []).toOption.isSome = true := by
    decide +kernel
  obtain ⟨compiled, hcompiled⟩ := isSome_toOption_iff.1 hok
  obtain ⟨p, ls, s, hfolds, -, hshared⟩ := compile_shared_schemas [] _ {} [] compiled hcompiled
  have hroutes : ls.map Leaf.route = [choiceOf (.int 1), choiceOf (.int 1)] :=
    (Except.ok.inj hfolds.flatten).symm
  have hls : ls = [choiceLeaf (.int 1), choiceLeaf (.int 1)] := by
    have hleaves := hfolds.leaves
    rw [hroutes] at hleaves
    exact (Prod.mk.inj (Except.ok.inj hleaves)).1.symm
  refine ⟨p, ls, s, hfolds, hls, ?_⟩
  have hsame := hshared 0 1 (choiceLeaf (.int 1)) (choiceLeaf (.int 1)) (by decide)
    (by rw [hls]; rfl) (by rw [hls]; rfl) rfl rfl _ _ (choiceLeaf_shares _ _)
  refine hsame.2.2 ?_
  rintro ⟨x, y, hx, hy, hconflates⟩
  obtain rfl := Option.some.inj hx
  obtain rfl := Option.some.inj hy
  exact Json.not_conflates_counted (.obj (choiceSchema (.int 1))) (.obj (choiceSchema (.int 1)))
    hconflates

/-- A choice of one and a choice of true differ, and are merged without a word: of the two schemas
that of the first route is published. -/
theorem numberOrFlag_published :
    (leaves [] [choiceOf (.int 1), choiceOf (.bool true)]).run {} =
      .ok ([choiceLeaf (.int 1), choiceLeaf (.bool true)], {}) ∧
    (compile [] (choices (.int 1) (.bool true)) {} []).toOption.map (·.events) =
      some [.apiCompiled 1 1 0] ∧
    ((compile [] (choices (.int 1) (.bool true)) {} []).toOption.bind fun d =>
        (operationIn d.document.paths "/" .get).map fun op => op.parameters.map (·.schema)) =
      some [some (choiceSchema (.int 1))] ∧
    ¬ Schema.SameValue (some (choiceSchema (.int 1))) (some (choiceSchema (.bool true))) := by
  refine ⟨rfl, by decide +kernel, by decide +kernel, fun hsame => ?_⟩
  obtain ⟨-, hconflated⟩ := (Schema.sameValue_iff _ _).1 hsame
  refine hconflated ⟨_, _, rfl, rfl, .int 1, .bool true, ?_, by decide, by decide⟩
  exact .member (k := "enum") rfl rfl (.item (i := 0) rfl rfl (.here _ _))

end ApiTree
