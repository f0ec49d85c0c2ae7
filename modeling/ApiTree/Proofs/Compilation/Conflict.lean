import ApiTree.Proofs.Compilation.Summary

/-!
# ApiTree.Proofs.Compilation.Conflict

When compiling a tree stops with a conflict.  `Operation.Clash` lists what can
be at odds between two declarations of one operation.

* `Operation.clash_iff` — two declarations clash exactly when they do not agree;
* `compile_conflict_iff` — a tree whose routes compile one by one is a conflict
  exactly when two of its routes share a path and a method and clash, however
  far apart they stand in the tree and in whichever order.
-/

namespace ApiTree
open Compiling

/-- What is at odds between two declarations of one operation. -/
inductive Operation.Clash (a b : Operation) : Prop
  /-- A parameter beside the path is declared on one side only. -/
  | oneSided (k : String × String)
    (h : ¬ (k ∈ (sought a.parameters).map Parameter.key ↔
      k ∈ (sought b.parameters).map Parameter.key))
  /-- A parameter has different schemas. -/
  | schemas (p q : Parameter) (hp : p ∈ sought a.parameters) (hq : q ∈ sought b.parameters)
    (hk : p.key = q.key) (h : Schema.sameOption p.schema q.schema = false)
  /-- A parameter is required on one side only. -/
  | required (p q : Parameter) (hp : p ∈ sought a.parameters) (hq : q ∈ sought b.parameters)
    (hk : p.key = q.key) (h : p.required.getD false ≠ q.required.getD false)
  /-- Captures at one place of the path have different schemas. -/
  | captures (i : Nat) (p q : Parameter) (hp : (captured a.parameters)[i]? = some p)
    (hq : (captured b.parameters)[i]? = some q) (h : Schema.sameOption p.schema q.schema = false)
  /-- There is a body on one side only. -/
  | bodyOneSided (h : a.requestBody.isSome ≠ b.requestBody.isSome)
  /-- A content type that both bodies have has different schemas. -/
  | bodySchemas (x y : RequestBody) (contentType : String) (u v : MediaType)
    (hx : a.requestBody = some x) (hy : b.requestBody = some y)
    (hu : x.content.find? contentType = some u) (hv : y.content.find? contentType = some v)
    (h : Schema.sameOption u.schema v.schema = false)

namespace Operation

variable {a b : Operation}

theorem Clash.not_agrees (h : a.Clash b) : ¬ a.Agrees b := by
  rintro ⟨hp, hb⟩
  cases h with
  | oneSided k h => exact h (hp.keys k)
  | schemas p q hpm hqm hk h => simp [(hp.alike p hpm q hqm hk).1] at h
  | required p q hpm hqm hk h => exact h (hp.alike p hpm q hqm hk).2
  | captures i p q hi hj h => simp [hp.captures i p q hi hj] at h
  | bodyOneSided h => exact h hb.both
  | bodySchemas x y contentType u v hx hy hu hv h =>
      simp [hb.contents x y hx hy contentType u v hu hv] at h

/-- Two declarations that nothing is at odds between agree. -/
theorem agrees_of_not_clash (h : ¬ a.Clash b) : a.Agrees b := by
  refine ⟨⟨fun k => ?_, fun p hp q hq hk => ⟨?_, ?_⟩, fun i p q hp hq => ?_⟩, ?_, ?_⟩
  · by_contra hk
    exact h (.oneSided k hk)
  · by_contra hs
    exact h (.schemas p q hp hq hk (by simpa using hs))
  · by_contra hr
    exact h (.required p q hp hq hk hr)
  · by_contra hs
    exact h (.captures i p q hp hq (by simpa using hs))
  · by_contra hb
    exact h (.bodyOneSided hb)
  · intro x y hx hy contentType u v hu hv
    by_contra hs
    exact h (.bodySchemas x y contentType u v hx hy hu hv (by simpa using hs))

theorem clash_iff (a b : Operation) : a.Clash b ↔ ¬ a.Agrees b :=
  ⟨Clash.not_agrees, fun h => by_contra fun hn => h (agrees_of_not_clash hn)⟩

end Operation

/-- Leaves are coherent unless two of them share a path and a method and clash. -/
theorem not_coherent_iff (ls : List Leaf) :
    ¬ Coherent ls ↔ ∃ (i j : Nat) (a b : Leaf), i < j ∧ ls[i]? = some a ∧ ls[j]? = some b ∧
      a.key = b.key ∧ a.method = b.method ∧ a.operation.Clash b.operation := by
  rw [Coherent, List.pairwise_iff_getElem]
  constructor
  · intro h
    simp only [not_forall] at h
    obtain ⟨i, j, hi, hj, hij, hk, hm, hnot⟩ := h
    exact ⟨i, j, ls[i], ls[j], hij, List.getElem?_eq_getElem hi, List.getElem?_eq_getElem hj, hk,
      hm, (Operation.clash_iff _ _).2 hnot⟩
  · rintro ⟨i, j, a, b, hij, ha, hb, hk, hm, hclash⟩ h
    obtain ⟨hi, rfl⟩ := List.getElem?_eq_some_iff.1 ha
    obtain ⟨hj, rfl⟩ := List.getElem?_eq_some_iff.1 hb
    exact hclash.not_agrees (h i j hi hj hij hk hm)

/-- The order of leaves has no part in whether they are coherent. -/
theorem coherent_perm {ls ls' : List Leaf} (h : ls.Perm ls') : Coherent ls ↔ Coherent ls' := by
  refine h.pairwise_iff ?_
  intro a b hab hk hm
  exact (hab hk.symm hm.symm).symm

/-- Compiling a tree whose routes compile one by one gives a document or stops with
a conflict, as its leaves are coherent or not. -/
theorem compile_of_leaves {c : Catalog} {t : Tree} {rs : List Route} {ls : List Leaf}
    {s : Collected} (info : Info) (servers : List Server) (hr : t.flatten = .ok rs)
    (hl : (leaves c rs).run {} = .ok (ls, s)) :
    (Coherent ls ∧ ∃ compiled, compile c t info servers = .ok compiled) ∨
      (¬ Coherent ls ∧ ∃ conflict, compile c t info servers = .error (.conflict conflict)) := by
  rcases Tree.fold_of_leaves hr hl with ⟨h, p, events, hp⟩ | ⟨h, conflict, hp⟩
  · refine .inl ⟨h, ?_⟩
    rw [compile, hp]
    exact ⟨_, rfl⟩
  · refine .inr ⟨h, conflict, ?_⟩
    rw [compile, hp]
    rfl

/-- A tree whose routes compile one by one is a conflict exactly when two of its
routes share a path and a method and clash; else it gives a document.  Which of
the two it is does not depend on the order of the routes. -/
theorem compile_conflict_iff (c : Catalog) (t : Tree) (info : Info) (servers : List Server)
    (rs : List Route) (ls : List Leaf) (s : Collected) (hr : t.flatten = .ok rs)
    (hl : (leaves c rs).run {} = .ok (ls, s)) :
    ((∃ conflict, compile c t info servers = .error (.conflict conflict)) ↔
      ∃ (i j : Nat) (a b : Leaf), i < j ∧ ls[i]? = some a ∧ ls[j]? = some b ∧
        a.key = b.key ∧ a.method = b.method ∧ a.operation.Clash b.operation) ∧
    ((∃ compiled, compile c t info servers = .ok compiled) ∨
      ∃ conflict, compile c t info servers = .error (.conflict conflict)) ∧
    ∀ (t' : Tree) rs' ls' s', t'.flatten = .ok rs' → (leaves c rs').run {} = .ok (ls', s') →
      ls.Perm ls' → ((∃ conflict, compile c t info servers = .error (.conflict conflict)) ↔
        ∃ conflict, compile c t' info servers = .error (.conflict conflict)) := by
  have hconflict : ∀ {t rs ls s}, Tree.flatten t = .ok rs → (leaves c rs).run {} = .ok (ls, s) →
      ((∃ conflict, compile c t info servers = .error (.conflict conflict)) ↔ ¬ Coherent ls) := by
    intro t rs ls s hr hl
    rcases compile_of_leaves info servers hr hl with ⟨h, d, hd⟩ | ⟨h, hc⟩
    · simp [h, hd]
    · simp only [h, hc, not_false_eq_true]
  refine ⟨(hconflict hr hl).trans (not_coherent_iff ls), ?_, fun t' rs' ls' s' hr' hl' hperm => ?_⟩
  · rcases compile_of_leaves info servers hr hl with ⟨-, h⟩ | ⟨-, h⟩
    · exact .inl h
    · exact .inr h
  · rw [hconflict hr hl, hconflict hr' hl', coherent_perm hperm]

/-- A route with a flag. -/
def flagged : Leaf where
  route := ⟨[.segment "u", .flag "all" none], { method := .get }⟩
  operation :=
    { parameters := [
        { name := "all", location := "query", required := some false
          schema := some [("type", .str "boolean")], allowEmptyValue := some true }]
      responses := [("200", {})] }

/-- The same route without the flag. -/
def unflagged : Leaf where
  route := ⟨[.segment "u"], { method := .get }⟩
  operation := { responses := [("200", {})] }

/-- The two routes side by side. -/
def flagOnOneSide : Tree :=
  .seq (.segment "u") (.alt (.seq (.flag "all" none) (.leaf { method := .get }))
    (.leaf { method := .get }))

/-- The two routes side by side, in the other order. -/
def flagOnOtherSide : Tree :=
  .seq (.segment "u") (.alt (.leaf { method := .get })
    (.seq (.flag "all" none) (.leaf { method := .get })))

/-- A flag on one side is a conflict, whichever side comes first. -/
theorem flagOnOneSide_conflict :
    (∃ conflict, compile [] flagOnOneSide {} [] = .error (.conflict conflict)) ∧
      ∃ conflict, compile [] flagOnOtherSide {} [] = .error (.conflict conflict) := by
  obtain ⟨hclash, -, hperm⟩ := compile_conflict_iff [] flagOnOneSide {} []
    [flagged.route, unflagged.route] [flagged, unflagged] {} rfl rfl
  have hconflict : ∃ conflict, compile [] flagOnOneSide {} [] = .error (.conflict conflict) :=
    hclash.2 ⟨0, 1, flagged, unflagged, by decide, rfl, rfl, rfl, rfl,
      .oneSided ("query", "all") (by decide)⟩
  refine ⟨hconflict, (hperm flagOnOtherSide [unflagged.route, flagged.route] [unflagged, flagged]
    {} rfl rfl (.swap _ _ _)).1 hconflict⟩

end ApiTree
