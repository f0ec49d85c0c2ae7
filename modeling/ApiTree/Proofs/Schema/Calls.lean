import ApiTree.Proofs.Schema.Entries

/-!
# ApiTree.Proofs.Schema.Calls

Calls on a registry, each of which may fail (`Registry.after`).  Entries are stored one after the
other, up to the first whose name has another owner, and what came before it stays
(`Registry.run_registerEach_cases`).  So a request leaves its registry as it was, or brings all
that comes with its type, or a first part of that (`Registry.course_answer`).
-/

namespace ApiTree

/-- A call on a registry: a request, or an entry that is to be stored. -/
inductive Call where
  | ask (q : Request)
  | store (e : Registry.Entry)

namespace Registry

open Registering

/-! ## what is stored -/

/-- The registry with an entry, if its name is free. -/
def take (r : Registry) (e : Entry) : Registry :=
  if Table.has r.owners e.name then r else r.add e.name e.identity e.schema

/-- The registry with those of some entries whose names are free. -/
def takeAll (r : Registry) (es : List Entry) : Registry := es.foldl take r

/-- Storing entries stops at one whose name has another owner after those before it are stored. -/
structure Stops (r : Registry) (es before : List Entry) (e : Entry) (owner : String) : Prop where
  split : ∃ rest, es = before ++ e :: rest
  taken : (r.takeAll before).owners.find? e.name = some owner
  other : owner ≠ e.identity

section Store

variable {r : Registry} {e : Entry} {es : List Entry}

/-- A name that is free takes an entry. -/
theorem take_of_free (h : r.owners.find? e.name = none) :
    r.take e = r.add e.name e.identity e.schema := by
  rw [Table.find?_eq_none_iff, ← Table.has_iff_mem_keys] at h
  rw [take, if_neg h]

/-- A name that is taken keeps what it has. -/
theorem take_of_taken (h : e.name ∈ r.owners.keys) : r.take e = r := by
  rw [take, if_pos ((Table.has_iff_mem_keys _ _).2 h)]

/-- An entry is taken or its name was. -/
theorem take_cases (r : Registry) (e : Entry) :
    (e.name ∈ r.owners.keys ∧ r.take e = r) ∨
      (e.name ∉ r.owners.keys ∧ r.take e = r.add e.name e.identity e.schema) := by
  by_cases h : e.name ∈ r.owners.keys
  · exact .inl ⟨h, take_of_taken h⟩
  · exact .inr ⟨h, take_of_free ((Table.find?_eq_none_iff _ _).2 h)⟩

@[simp] theorem takeAll_nil : r.takeAll [] = r := rfl

@[simp] theorem takeAll_cons : r.takeAll (e :: es) = (r.take e).takeAll es := rfl

/-- Taking an entry notes no answer. -/
theorem usage_take (r : Registry) (e : Entry) : (r.take e).usage = r.usage := by
  rw [take]
  split <;> rfl

/-- Taking entries notes no answer. -/
theorem usage_takeAll (r : Registry) (es : List Entry) : (r.takeAll es).usage = r.usage := by
  induction es generalizing r with
  | nil => rfl
  | cons e es ih => rw [takeAll_cons, ih, usage_take]

/-- What is taken has an owner. -/
theorem Owned.take (ho : r.Owned) (e : Entry) : (r.take e).Owned := by
  rcases take_cases r e with ⟨-, h⟩ | ⟨-, h⟩ <;> rw [h]
  · exact ho
  · exact owned_add ho

/-- All that is taken has an owner. -/
theorem Owned.takeAll (ho : r.Owned) (es : List Entry) : (r.takeAll es).Owned := by
  induction es generalizing r with
  | nil => exact ho
  | cons e es ih => exact ih (ho.take e)

/-- A registry has the names of the entries that it took. -/
theorem mem_names_takeAll (ho : r.Owned) {n : String} :
    n ∈ (r.takeAll es).names ↔ n ∈ r.names ∨ ∃ e ∈ es, e.name = n := by
  induction es generalizing r with
  | nil => simp
  | cons e es ih =>
      have hone : n ∈ (r.take e).names ↔ n ∈ r.names ∨ e.name = n := by
        rcases take_cases r e with ⟨htaken, h⟩ | ⟨-, h⟩ <;> rw [h]
        · exact ⟨.inl, fun hn => hn.elim id fun heq => heq ▸ (ho _).1 htaken⟩
        · rw [names, add, Table.mem_keys_put, names, eq_comm (a := n)]
      rw [takeAll_cons, ih (ho.take e), hone, List.exists_mem_cons_iff, or_assoc]

/-- What stands in a registry stood there before, or was taken. -/
theorem mem_schemas_takeAll {x : String × Schema} (h : x ∈ (r.takeAll es).schemas) :
    x ∈ r.schemas ∨ ∃ e ∈ es, e.schema = x.2 := by
  induction es generalizing r with
  | nil => exact .inl h
  | cons e es ih =>
      rcases ih h with h | ⟨e', he', hx⟩
      · rcases take_cases r e with ⟨-, heq⟩ | ⟨-, heq⟩ <;> rw [heq] at h
        · exact .inl h
        · refine (Table.mem_of_mem_put h).imp_right fun heq => ?_
          exact ⟨e, List.mem_cons_self, (congrArg Prod.snd heq).symm⟩
      · exact .inr ⟨e', List.mem_cons_of_mem _ he', hx⟩

/-- Entries whose names are taken change nothing. -/
theorem takeAll_of_taken (ho : r.Owned) (h : ∀ e ∈ es, e.name ∈ r.names) : r.takeAll es = r := by
  induction es with
  | nil => rfl
  | cons e es ih =>
      obtain ⟨he, hes⟩ := List.forall_mem_cons.1 h
      rw [takeAll_cons, take_of_taken ((ho _).2 he), ih hes]

/-- Storing an entry takes it, unless its name has another owner. -/
theorem run_register_cases (r : Registry) (e : Entry) :
    (register e.name e.identity e.schema).run.run r = (.ok (Reference.schema e.name), r.take e) ∨
    ∃ owner, r.owners.find? e.name = some owner ∧ owner ≠ e.identity ∧
      (register e.name e.identity e.schema).run.run r =
        (.error (.conflict ⟨e.name, .claimedByBoth owner e.identity⟩), r) := by
  cases howner : r.owners.find? e.name with
  | none =>
      rw [take_of_free howner]
      exact .inl (run_register_of_free howner)
  | some owner =>
      by_cases hidentity : owner = e.identity
      · rw [take_of_taken ((Table.mem_keys_iff _ _).2 ⟨_, howner⟩)]
        exact .inl (run_register_of_owner (hidentity ▸ howner))
      · exact .inr ⟨owner, rfl, hidentity, run_register_of_other howner hidentity⟩

/-- Storing entries takes them all, or those before one whose name has another owner. -/
theorem run_registerEach_cases (r : Registry) (es : List Entry) :
    (registerEach es).run.run r = (.ok (), r.takeAll es) ∨
    ∃ before e owner, r.Stops es before e owner ∧ (registerEach es).run.run r =
      (.error (.conflict ⟨e.name, .claimedByBoth owner e.identity⟩), r.takeAll before) := by
  induction es generalizing r with
  | nil => exact .inl rfl
  | cons e es ih =>
      rw [registerEach]
      rcases run_register_cases r e with hrun | ⟨owner, howner, hother, hrun⟩
      · have hone : (discard (register e.name e.identity e.schema)).run.run r =
            (.ok (), r.take e) := run_bind_of_ok hrun _
        rw [run_bind_of_ok hone]
        rcases ih (r.take e) with
          hall | ⟨before, e', owner, ⟨⟨rest, hsplit⟩, howner, hother⟩, hstop⟩
        · exact .inl hall
        · exact .inr ⟨e :: before, e', owner, ⟨⟨rest, congrArg _ hsplit⟩, howner, hother⟩, hstop⟩
      · have hone : (discard (register e.name e.identity e.schema)).run.run r =
            (.error (.conflict ⟨e.name, .claimedByBoth owner e.identity⟩), r) :=
          run_bind_of_error hrun _
        exact .inr ⟨[], e, owner, ⟨⟨es, rfl⟩, howner, hother⟩, run_bind_of_error hone _⟩

end Store

/-! ## what a request leaves -/

section Request

variable {c : Catalog} {r : Registry} {q : Request}

/-- What comes of a request, and the registry that it leaves. -/
inductive Course (c : Catalog) (r : Registry) (q : Request) : Except Fault Schema × Registry → Prop
  /-- The answer is known. -/
  | remembered (s : Schema) (h : q.remembered? c r = some s) : Course c r q (.ok s, r)
  /-- Nothing is derived, or two types that are derived together share a name. -/
  | refused (f : Fault) : Course c r q (.error f, r)
  /-- A name has another owner. -/
  | stopped (d : Catalog.Derived) (before : List Entry) (e : Entry) (owner : String)
    (derived : q.derived c = .ok d) (h : r.Stops (q.entries c d) before e owner) :
    Course c r q (.error (.conflict ⟨e.name, .claimedByBoth owner e.identity⟩), r.takeAll before)
  /-- All that comes with the type is stored. -/
  | stored (d : Catalog.Derived) (derived : q.derived c = .ok d) : Course c r q (.ok (q.given c d),
    { r.takeAll (q.entries c d) with usage := q.remember c (q.given c d) r.usage })

/-- A request leaves its registry as it was, or brings a first part or all of what comes with its
type. -/
theorem course_answer (r : Registry) (q : Request) : Course c r q ((answer c q).run.run r) := by
  have hhandling := handling_answer (c := c) r q
  generalize (answer c q).run.run r = x at hhandling
  cases hhandling with
  | remembered s h => exact .remembered s h
  | underived f new h => exact .refused f
  | shared d k new derived h => exact .refused _
  | storing d new derived unshared =>
      rcases run_registerEach_cases r (q.entries c d) with
        hrun | ⟨before, e, owner, hstops, hrun⟩
      · have hstored := Course.stored (r := r) d derived
        rw [← usage_takeAll r (q.entries c d)] at hstored
        rw [run_bind_of_ok hrun]
        exact hstored
      · rw [run_bind_of_error hrun]
        exact .stopped d before e owner derived hstops

end Request

/-! ## runs of calls -/

variable {c : Catalog} {r : Registry}

/-- Makes a call. -/
def make (c : Catalog) : Call → Registering Schema
  | .ask q => answer c q
  | .store e => register e.name e.identity e.schema

/-- The registry that a call leaves, whether or not it fails. -/
def next (c : Catalog) (r : Registry) (call : Call) : Registry := ((make c call).run.run r).2

/-- The registry that calls leave, one after the other. -/
def after (c : Catalog) (calls : List Call) (r : Registry) : Registry := calls.foldl (next c) r

/-- After a call every component has an owner. -/
theorem owned_next (ho : r.Owned) (call : Call) : (r.next c call).Owned := by
  cases call with
  | ask q =>
      have hcourse := course_answer (c := c) r q
      rw [next, make]
      generalize (answer c q).run.run r = x at hcourse
      cases hcourse with
      | remembered s h => exact ho
      | refused f => exact ho
      | stopped d before e owner derived h => exact ho.takeAll before
      | stored d derived => exact ho.takeAll _
  | store e =>
      rw [next, make]
      rcases run_register_cases r e with hrun | ⟨owner, -, -, hrun⟩ <;> rw [hrun]
      · exact ho.take e
      · exact ho

/-- The names that have owners are those of the components, whatever calls were made. -/
theorem owned_after (c : Catalog) (calls : List Call) : (after c calls {}).Owned := by
  suffices h : ∀ r : Registry, r.Owned → (after c calls r).Owned from h {} owned_empty
  induction calls with
  | nil => exact fun r ho => ho
  | cons call calls ih => exact fun r ho => ih _ (owned_next ho call)

/-- A reference to a component resolves. -/
theorem exists_resolve_of_mem {n : String} (h : n ∈ r.names) :
    ∃ j, r.resolve (Reference.pathTo n) = .ok j := by
  obtain ⟨s, hs⟩ := (Table.mem_keys_iff _ _).1 h
  exact ⟨_, r.resolve_pathTo hs⟩

end Registry
end ApiTree
