import ApiTree.Proofs.Compilation.Requests
import ApiTree.Proofs.Schema.Replay

/-!
# ApiTree.Proofs.Schema.Entries

A registry as the list of what was to be stored in it (`Registry.Records`): under each name
there is what came first for the name, with its owner.  The list is consistent when a name
always comes with one identity.

* `Registry.run_registerEach` — storing goes on exactly as long as the list stays consistent, and
  is a conflict otherwise.
* `Registry.handling_answerAmong` — a request stores, one by one, what its type comes with.
* `Registry.outcome_answerAmong` — what a request comes to: it is answered from memory, or fails
  before anything is stored, or stores the entries that its type comes with (`Request.entries`).

Both are stated for any table of the named types that were found in the type of the request, which
decides who owns the definitions.
-/

namespace ApiTree
namespace Registry

open Registering

/-- A schema that is to be stored under a name, for the type with an identity. -/
structure Entry where
  name : String
  identity : String
  schema : Schema

/-- A name always comes with one identity. -/
def Consistent (es : List Entry) : Prop :=
  ∀ a ∈ es, ∀ b ∈ es, a.name = b.name → a.identity = b.identity

/-- What comes first for a name. -/
def first? (es : List Entry) (n : String) : Option Entry := es.find? (·.name = n)

/-- A registry has what came first for each name. -/
structure Records (r : Registry) (es : List Entry) : Prop where
  owners : ∀ n, r.owners.find? n = (first? es n).map (·.identity)
  schemas : ∀ n, r.schemas.find? n = (first? es n).map (·.schema)

/-- Stores entries, one after the other. -/
def registerEach : List Entry → Registering Unit
  | [] => pure ()
  | e :: es => do
    discard (register e.name e.identity e.schema)
    registerEach es

theorem registerEach_append (es es' : List Entry) :
    registerEach (es ++ es') = (do registerEach es; registerEach es') := by
  induction es with
  | nil => exact (pure_bind _ _).symm
  | cons e es ih => simp only [List.cons_append, registerEach, ih, bind_assoc]

section Entries

variable {es es' : List Entry} {e : Entry} {r : Registry} {n : String}

theorem Consistent.nil : Consistent [] := by simp [Consistent]

/-- Fewer entries go together. -/
theorem Consistent.of_subset (h : Consistent es) (hsub : es' ⊆ es) : Consistent es' :=
  fun a ha b hb => h a (hsub ha) b (hsub hb)

theorem records_empty : Records {} [] := ⟨fun _ => rfl, fun _ => rfl⟩

theorem first?_append : first? (es ++ es') n = (first? es n).or (first? es' n) :=
  List.find?_append

/-- A single entry comes first for its name. -/
theorem first?_singleton : first? [e] n = if e.name = n then some e else none := by
  rw [first?, List.find?_singleton]
  simp

/-- For the name of an entry something came first. -/
theorem exists_first? (he : e ∈ es) : ∃ a ∈ es, first? es e.name = some a ∧ a.name = e.name := by
  cases h : first? es e.name with
  | none =>
      have hnone := List.find?_eq_none.1 h e he
      simp at hnone
  | some a => exact ⟨a, List.mem_of_find?_eq_some h, rfl, by simpa using List.find?_some h⟩

/-- The owner of a name is the identity that the name comes with. -/
theorem Records.owner_eq (hr : r.Records es) (hes : Consistent es) (he : e ∈ es) :
    r.owners.find? e.name = some e.identity := by
  obtain ⟨a, ha, hfirst, hname⟩ := exists_first? he
  rw [hr.owners, hfirst, Option.map_some, hes a ha e he hname]

/-- Every component came in with an entry. -/
theorem Records.exists_of_schema {s : Schema} (hr : r.Records es)
    (h : r.schemas.find? n = some s) : ∃ e ∈ es, e.name = n ∧ e.schema = s := by
  rw [hr.schemas, Option.map_eq_some_iff] at h
  obtain ⟨e, hfirst, hschema⟩ := h
  exact ⟨e, List.mem_of_find?_eq_some hfirst, by simpa using List.find?_some hfirst, hschema⟩

/-- A name that is free takes an entry. -/
theorem Records.add (hr : r.Records es) (hfree : first? es e.name = none) :
    (r.add e.name e.identity e.schema).Records (es ++ [e]) := by
  constructor <;> intro n <;> rw [Registry.add, Table.find?_put, first?_append, first?_singleton]
  · by_cases hn : n = e.name
    · simp [hn, hfree]
    · simp [hn, Ne.symm hn, hr.owners]
  · by_cases hn : n = e.name
    · simp [hn, hfree]
    · simp [hn, Ne.symm hn, hr.schemas]

/-- A name that is taken keeps what it has. -/
theorem Records.keep (hr : r.Records es) {a : Entry} (htaken : first? es e.name = some a) :
    r.Records (es ++ [e]) := by
  have hfirst (n : String) : first? (es ++ [e]) n = first? es n := by
    rw [first?_append, first?_singleton]
    by_cases hn : e.name = n
    · simp [← hn, htaken]
    · simp [hn]
  exact ⟨fun n => by rw [hfirst, hr.owners], fun n => by rw [hfirst, hr.schemas]⟩

theorem run_bind_of_error {α β : Type} {m : Registering α} {f : Fault} {r' : Registry}
    (h : m.run.run r = (.error f, r')) (k : α → Registering β) :
    (m >>= k).run.run r = (.error f, r') := by
  rw [ExceptT.run_bind, StateT.run_bind, h]
  rfl

/-- A name of another owner is a conflict. -/
theorem run_register_of_other {name identity owner : String} {schema : Schema}
    (h : r.owners.find? name = some owner) (hne : owner ≠ identity) :
    (register name identity schema).run.run r =
      (.error (.conflict ⟨name, .claimedByBoth owner identity⟩), r) := by
  have hbne : (owner != identity) = true := by simpa using hne
  rw [register, run_get_bind, h]
  simp only [hbne, if_true]
  rfl

/-- One more entry is consistent with a list if what came first for its name has its identity. -/
theorem consistent_concat_iff (hes : Consistent es) :
    Consistent (es ++ [e]) ↔ ∀ a, first? es e.name = some a → a.identity = e.identity := by
  constructor
  · intro h a hfirst
    exact h a (List.mem_append_left _ (List.mem_of_find?_eq_some hfirst)) e (by simp)
      (by simpa using List.find?_some hfirst)
  · intro h
    have hone : ∀ a ∈ es, a.name = e.name → a.identity = e.identity := by
      intro a ha hname
      obtain ⟨b, hb, hfirst, hbname⟩ := exists_first? ha
      rw [hes a ha b hb hbname.symm]
      exact h b (hname ▸ hfirst)
    intro a ha b hb hname
    rcases List.mem_append.1 ha with ha | ha <;> rcases List.mem_append.1 hb with hb | hb
    · exact hes a ha b hb hname
    · rw [List.mem_singleton.1 hb] at hname ⊢
      exact hone a ha hname
    · rw [List.mem_singleton.1 ha] at hname ⊢
      exact (hone b hb hname.symm).symm
    · rw [List.mem_singleton.1 ha, List.mem_singleton.1 hb]

/-- Storing an entry goes on as long as the entries go together. -/
theorem run_register (hr : r.Records es) (hes : Consistent es) (e : Entry) :
    (Consistent (es ++ [e]) ∧ ∃ r', (register e.name e.identity e.schema).run.run r =
      (.ok (Reference.schema e.name), r') ∧ r'.Records (es ++ [e]) ∧ r'.usage = r.usage) ∨
    ¬ Consistent (es ++ [e]) ∧
      ∃ k, (register e.name e.identity e.schema).run.run r = (.error (.conflict k), r) := by
  rw [consistent_concat_iff hes]
  cases hfirst : first? es e.name with
  | none =>
      have howner : r.owners.find? e.name = none := by rw [hr.owners, hfirst, Option.map_none]
      exact .inl ⟨by simp, _, run_register_of_free howner, hr.add hfirst, rfl⟩
  | some a =>
      have howner : r.owners.find? e.name = some a.identity := by
        rw [hr.owners, hfirst, Option.map_some]
      by_cases hidentity : a.identity = e.identity
      · refine .inl ⟨fun b hb => Option.some.inj hb ▸ hidentity, r, ?_, hr.keep hfirst, rfl⟩
        exact run_register_of_owner (hidentity ▸ howner)
      · exact .inr ⟨fun h => hidentity (h a rfl), _, run_register_of_other howner hidentity⟩

/-- Entries are stored as long as names come with one identity each, and otherwise there is a
conflict. -/
theorem run_registerEach (hr : r.Records es) (hes : Consistent es) (es' : List Entry) :
    (Consistent (es ++ es') ∧ ∃ r', (registerEach es').run.run r = (.ok (), r') ∧
      r'.Records (es ++ es') ∧ r'.usage = r.usage) ∨
    ¬ Consistent (es ++ es') ∧
      ∃ k r', (registerEach es').run.run r = (.error (.conflict k), r') := by
  induction es' generalizing r es with
  | nil => exact .inl ⟨by simpa using hes, r, rfl, by simpa using hr, rfl⟩
  | cons e es' ih =>
      rw [registerEach, List.append_cons]
      rcases run_register hr hes e with ⟨hes₁, r₁, hrun, hr₁, husage⟩ | ⟨hes₁, k, hrun⟩
      · have hone : (discard (register e.name e.identity e.schema)).run.run r = (.ok (), r₁) :=
          run_bind_of_ok hrun _
        rw [run_bind_of_ok hone, ← husage]
        exact ih hr₁ hes₁
      · have hone : (discard (register e.name e.identity e.schema)).run.run r =
            (.error (.conflict k), r) := run_bind_of_error hrun _
        refine .inr ⟨fun h => hes₁ (h.of_subset ?_), k, r, run_bind_of_error hone _⟩
        exact List.subset_append_left _ _

end Entries
end Registry

/-! ## requests -/

open Registry Registering

/-- Asks a fresh registry for types, one after the other. -/
def Registry.asked (c : Catalog) (ts : List Ty) :
    Except Fault (List (Request × Schema)) × Registry :=
  (answers c (ts.map .body)).run.run {}

/-- Definitions that come with a type as entries, each for the type of its name. -/
def Registry.entriesOfDefinitions (owners : Table String (List String))
    (definitions : Table String Schema) : List Entry :=
  definitions.map fun e => ⟨e.1, ownerOf owners e.1, e.2⟩

namespace Request

/-- What is derived for a request. -/
def derived (c : Catalog) : Request → Except Fault Catalog.Derived
  | .body t => c.derive t
  | .parameter t => (c.derive t).map Registry.inPlace

/-- What a request stores when `d` is derived for it, and `owners` are the named types that were
found in its type. -/
def entriesAmong (c : Catalog) (owners : Table String (List String)) (d : Catalog.Derived) :
    Request → List Entry
  | .body t => entriesOfDefinitions owners d.definitions ++
      (c.componentName? t d).toList.map fun n => ⟨n, c.identity t, d.schema⟩
  | .parameter _ => entriesOfDefinitions owners d.definitions

/-- What a request stores when `d` is derived for it. -/
abbrev entries (c : Catalog) (d : Catalog.Derived) (q : Request) : List Entry :=
  q.entriesAmong c (c.namedTypes q.ty) d

/-- The answer to a request when `d` is derived for it. -/
def given (c : Catalog) (d : Catalog.Derived) : Request → Schema
  | .body t => c.handedOut t d
  | .parameter _ => d.schema

/-- The answer to a request that a registry remembers. -/
def remembered? (c : Catalog) (r : Registry) : Request → Option Schema
  | .body t => r.usage.find? (c.identity t)
  | .parameter _ => none

/-- What is handed out after a request was answered. -/
def remember (c : Catalog) (s : Schema) (usage : Table String Schema) :
    Request → Table String Schema
  | .body t => usage.put (c.identity t) s
  | .parameter _ => usage

end Request

namespace Registry

variable {c : Catalog} {es : List Entry} {r : Registry} {q : Request}
  {owners : Table String (List String)}

/-- Definitions are stored as entries, each for the type of its name. -/
theorem registerAll_eq (owners : Table String (List String)) (ds : Table String Schema) :
    registerAll owners ds = registerEach (ds.map fun e => ⟨e.1, ownerOf owners e.1, e.2⟩) := by
  induction ds with
  | nil => rfl
  | cons e ds ih =>
      rw [registerAll, List.map_cons, registerEach, ← ih]
      rfl

/-- A name that types share is a conflict. -/
theorem registerDefinitions_of_shared {ds : Table String Schema} {k : Conflict}
    (h : sharedName? owners = some k) :
    (registerDefinitions owners ds).run.run r = (.error (.conflict k), r) := by
  rw [registerDefinitions]
  simp only [h]
  rfl

/-- Where no types share a name the definitions are stored. -/
theorem registerDefinitions_of_unshared (ds : Table String Schema) (h : sharedName? owners = none) :
    registerDefinitions owners ds = registerEach (entriesOfDefinitions owners ds) := by
  rw [registerDefinitions]
  simp only [h]
  exact registerAll_eq _ _

/-- What is derived for a parameter is what is derived for its type, in place. -/
theorem derived_parameter_ok {t : Ty} {d : Catalog.Derived}
    (h : Request.derived c (.parameter t) = .ok d) :
    ∃ d', c.derive t = .ok d' ∧ d = inPlace d' := by
  rw [Request.derived] at h
  cases hderive : c.derive t with
  | error f => simp [hderive, Except.map] at h
  | ok d' =>
      rw [hderive] at h
      exact ⟨d', rfl, (Except.ok.inj h).symm⟩

/-- Storing a component gives the reference to it. -/
theorem register_eq (name identity : String) (schema : Schema) : register name identity schema = (do
    discard (register name identity schema)
    pure (Reference.schema name)) := by
  rw [register]
  simp only [discard, map_const, Function.comp_apply, Function.const, map_eq_pure_bind, bind_assoc,
    pure_bind]
  refine bind_congr fun r => ?_
  split
  · simp
  · split <;> simp

/-- The schema of a type itself is one more entry, if it is to be a component. -/
theorem store_eq (t : Ty) (d : Catalog.Derived) : store c t d = (do
    registerEach ((c.componentName? t d).toList.map fun n => ⟨n, c.identity t, d.schema⟩)
    pure (c.handedOut t d)) := by
  rw [store, Catalog.handedOut]
  cases c.componentName? t d with
  | none => exact (pure_bind _ _).symm
  | some n =>
      refine (register_eq _ _ _).trans ?_
      simp [registerEach]

/-- How a request is handled, and what comes of it. -/
inductive Handling (c : Catalog) (owners : Table String (List String)) (r : Registry)
    (q : Request) : Except Fault Schema × Registry → Prop
  /-- The answer is known. -/
  | remembered (s : Schema) (h : q.remembered? c r = some s) : Handling c owners r q (.ok s, r)
  /-- Nothing can be derived. -/
  | underived (f : Fault) (new : q.remembered? c r = none) (h : q.derived c = .error f) :
    Handling c owners r q (.error f, r)
  /-- Two types that are derived together share a name. -/
  | shared (d : Catalog.Derived) (k : Conflict) (new : q.remembered? c r = none)
    (derived : q.derived c = .ok d) (h : sharedName? owners = some k) :
    Handling c owners r q (.error (.conflict k), r)
  /-- What comes with the type is stored, entry by entry. -/
  | storing (d : Catalog.Derived) (new : q.remembered? c r = none) (derived : q.derived c = .ok d)
    (unshared : sharedName? owners = none) : Handling c owners r q ((do
      registerEach (q.entriesAmong c owners d)
      modify fun r : Registry => { r with usage := q.remember c (q.given c d) r.usage }
      pure (q.given c d) : Registering Schema).run.run r)

/-- How a request for a body is handled. -/
theorem handling_body (r : Registry) (t : Ty) :
    Handling c owners r (.body t) ((answerAmong c owners (.body t)).run.run r) := by
  rw [answerAmong]
  cases hu : r.usage.find? (c.identity t) with
  | some s =>
      rw [run_bodySchema_of_usage hu]
      exact .remembered s hu
  | none =>
      cases hd : c.derive t with
      | error f =>
          have hrun : (bodySchema c owners t).run.run r = (.error f, r) := by
            rw [bodySchema, run_get_bind, hu, hd]
            rfl
          rw [hrun]
          exact .underived f hu hd
      | ok d =>
          rw [run_bodySchema_of_derived hu hd]
          cases hshared : sharedName? owners with
          | some k =>
              rw [run_bind_of_error (registerDefinitions_of_shared hshared)]
              exact .shared d k hu hd hshared
          | none =>
              have hstoring := Handling.storing (r := r) (q := .body t) d hu hd hshared
              rw [registerDefinitions_of_unshared _ hshared, store_eq]
              simp only [Request.entriesAmong, registerEach_append, bind_assoc, pure_bind]
                at hstoring ⊢
              exact hstoring

/-- How a request for a parameter is handled. -/
theorem handling_parameter (r : Registry) (t : Ty) :
    Handling c owners r (.parameter t) ((answerAmong c owners (.parameter t)).run.run r) := by
  rw [answerAmong, parameterSchema]
  cases hd : c.derive t with
  | error f =>
      refine .underived (q := .parameter t) f rfl ?_
      rw [Request.derived, hd]
      rfl
  | ok d =>
      have hderived : Request.derived c (.parameter t) = .ok (inPlace d) := by
        rw [Request.derived, hd]
        rfl
      have hone : (ofExcept (.ok d) : Registering Catalog.Derived).run.run r = (.ok d, r) := rfl
      rw [run_bind_of_ok hone]
      dsimp only
      cases hshared : sharedName? owners with
      | some k =>
          rw [run_bind_of_error (registerDefinitions_of_shared hshared)]
          exact .shared _ k rfl hderived hshared
      | none =>
          have hstoring := Handling.storing (r := r) (q := .parameter t) _ rfl hderived hshared
          rw [registerDefinitions_of_unshared _ hshared]
          exact hstoring

/-- A request is answered from memory, or fails, or stores what comes with its type. -/
theorem handling_answerAmong (owners : Table String (List String)) (r : Registry) (q : Request) :
    Handling c owners r q ((answerAmong c owners q).run.run r) := by
  cases q with
  | body t => exact handling_body r t
  | parameter t => exact handling_parameter r t

/-- How a request is handled with all that is found in its type. -/
theorem handling_answer (r : Registry) (q : Request) :
    Handling c (c.namedTypes q.ty) r q ((answer c q).run.run r) :=
  answer_eq c q ▸ handling_answerAmong _ r q

/-- What a request can come to in a registry with some entries. -/
inductive Outcome (c : Catalog) (owners : Table String (List String)) (r : Registry)
    (es : List Entry) (q : Request) : Except Fault Schema × Registry → Prop
  /-- The answer is known. -/
  | remembered (s : Schema) (h : q.remembered? c r = some s) : Outcome c owners r es q (.ok s, r)
  /-- Nothing can be derived. -/
  | underived (f : Fault) (new : q.remembered? c r = none) (h : q.derived c = .error f) :
    Outcome c owners r es q (.error f, r)
  /-- Two types that are derived together share a name. -/
  | shared (d : Catalog.Derived) (k : Conflict) (new : q.remembered? c r = none)
    (derived : q.derived c = .ok d) (h : sharedName? owners = some k) :
    Outcome c owners r es q (.error (.conflict k), r)
  /-- A name has another owner. -/
  | clash (d : Catalog.Derived) (k : Conflict) (r' : Registry) (new : q.remembered? c r = none)
    (derived : q.derived c = .ok d) (unshared : sharedName? owners = none)
    (h : ¬ Consistent (es ++ q.entriesAmong c owners d)) :
    Outcome c owners r es q (.error (.conflict k), r')
  /-- All that comes with the type is stored. -/
  | stored (d : Catalog.Derived) (r' : Registry) (new : q.remembered? c r = none)
    (derived : q.derived c = .ok d) (unshared : sharedName? owners = none)
    (consistent : Consistent (es ++ q.entriesAmong c owners d))
    (records : r'.Records (es ++ q.entriesAmong c owners d))
    (usage : r'.usage = q.remember c (q.given c d) r.usage) :
    Outcome c owners r es q (.ok (q.given c d), r')

/-- A request in a registry with entries that go together is answered from memory, or fails, or
stores entries that go together with those. -/
theorem outcome_answerAmong (owners : Table String (List String)) (hr : r.Records es)
    (hes : Consistent es) (q : Request) :
    Outcome c owners r es q ((answerAmong c owners q).run.run r) := by
  have hhandling := handling_answerAmong (c := c) owners r q
  generalize (answerAmong c owners q).run.run r = x at hhandling
  cases hhandling with
  | remembered s h => exact .remembered s h
  | underived f new h => exact .underived f new h
  | shared d k new derived h => exact .shared d k new derived h
  | storing d new derived unshared =>
      rcases run_registerEach hr hes (q.entriesAmong c owners d) with
        ⟨hes', r', hrun, hr', husage⟩ | ⟨hes', k, r', hrun⟩
      · rw [run_bind_of_ok hrun]
        refine .stored d _ new derived unshared hes' ⟨hr'.owners, hr'.schemas⟩ ?_
        rw [← husage]
      · rw [run_bind_of_error hrun]
        exact .clash d k r' new derived unshared hes'

/-- What comes of a request with all that is found in its type. -/
theorem outcome_answer (hr : r.Records es) (hes : Consistent es) (q : Request) :
    Outcome c (c.namedTypes q.ty) r es q ((answer c q).run.run r) :=
  answer_eq c q ▸ outcome_answerAmong _ hr hes q

end Registry
end ApiTree
