import ApiTree.Proofs.Schema.Reference

/-!
# ApiTree.Proofs.Schema.Registry

What the operations on a registry leave behind.  `Registry.Stored` tells what
storing definitions can do: every name is taken afterwards, and what is new among
the components is one of the definitions.  So definitions that come together and
refer to each other keep the registry closed (`Registry.Closed.of_stored`), even
where a name was taken before and keeps its older schema.

* `Registry.closed_schemaOf`, `Registry.closed_paramSchemaOf` — the schema that is
  handed out leads into the components, in a closed registry with no fewer of them.
-/

namespace ApiTree

/-! ## steps -/

namespace Registering

variable {α β : Type} {r r' : Registry}

theorem run_bind_ok {m : Registering α} {f : α → Registering β} {b : β}
    (h : (m >>= f).run.run r = (.ok b, r')) :
    ∃ a t, m.run.run r = (.ok a, t) ∧ (f a).run.run t = (.ok b, r') := by
  rw [ExceptT.run_bind, StateT.run_bind] at h
  rcases hm : m.run.run r with ⟨e | a, t⟩
  · rw [hm] at h
    cases h
  · rw [hm] at h
    exact ⟨a, t, rfl, h⟩

theorem run_bind_of_ok {m : Registering α} {a : α} (h : m.run.run r = (.ok a, r'))
    (f : α → Registering β) : (m >>= f).run.run r = (f a).run.run r' := by
  rw [ExceptT.run_bind, StateT.run_bind, h]
  rfl

/-- A step may depend on the registry. -/
theorem run_get_bind (f : Registry → Registering β) :
    ((get : Registering Registry) >>= f).run.run r = (f r).run.run r := rfl

theorem run_pure_ok {a b : α} (h : (pure a : Registering α).run.run r = (.ok b, r')) :
    a = b ∧ r = r' := by
  cases h
  exact ⟨rfl, rfl⟩

/-- What is computed leaves the registry. -/
theorem run_ofExcept_ok {x : Except Fault α} {a : α}
    (h : (ofExcept x : Registering α).run.run r = (.ok a, r')) : x = .ok a ∧ r = r' := by
  cases x with
  | error e => cases h
  | ok b =>
      cases h
      exact ⟨rfl, rfl⟩

end Registering

namespace Registry

open Registering

/-! ## storing -/

/-- The names of the components. -/
def names (r : Registry) : List String := r.schemas.keys

/-- What a registry is after definitions were stored in another. -/
structure Stored (es : Table String Schema) (r r' : Registry) : Prop where
  names : ∀ n, n ∈ r'.names ↔ n ∈ r.names ∨ n ∈ es.keys
  schemas : ∀ e ∈ r'.schemas, e ∈ r.schemas ∨ e ∈ es
  owners : (∀ n, n ∈ r.owners.keys ↔ n ∈ r.names) → ∀ n, n ∈ r'.owners.keys ↔ n ∈ r'.names
  usage : r'.usage = r.usage

/-- Nothing is stored where nothing is done. -/
theorem Stored.refl (r : Registry) : Stored [] r r := ⟨by simp, by simp, id, rfl⟩

theorem Stored.trans {es es' : Table String Schema} {r r₁ r₂ : Registry} (h : Stored es r r₁)
    (h' : Stored es' r₁ r₂) : Stored (es ++ es') r r₂ where
  names n := by
    rw [h'.names, h.names, or_assoc]
    simp [Table.keys]
  schemas e he := by
    rcases h'.schemas e he with he | he
    · rcases h.schemas e he with he | he
      · exact .inl he
      · exact .inr (List.mem_append_left _ he)
    · exact .inr (List.mem_append_right _ he)
  owners ho := h'.owners (h.owners ho)
  usage := h'.usage.trans h.usage

/-- A name that is stored was free, or its owner stores it again. -/
theorem stored_register {name identity : String} {schema s : Schema} {r r' : Registry}
    (howners : ∀ n, n ∈ r.owners.keys ↔ n ∈ r.names)
    (h : (register name identity schema).run.run r = (.ok s, r')) :
    Stored [(name, schema)] r r' ∧ s = Reference.schema name := by
  obtain ⟨_, _, hget, h⟩ := run_bind_ok h
  cases hget
  cases ho : r.owners.find? name with
  | none =>
      simp only [ho] at h
      obtain ⟨_, r₁, hset, h⟩ := run_bind_ok h
      obtain ⟨rfl, rfl⟩ := run_pure_ok h
      cases hset
      refine ⟨⟨fun n => ?_, fun e he => ?_, fun _ n => ?_, rfl⟩, rfl⟩
      · rw [show Table.keys [(name, schema)] = [name] from rfl, List.mem_singleton]
        exact Table.mem_keys_put r.schemas name schema n
      · rcases Table.mem_of_mem_put he with he | rfl
        · exact .inl he
        · exact .inr (List.mem_singleton.2 rfl)
      · simp only [Registry.names, add, Table.mem_keys_put]
        rw [howners]
        rfl
  | some owner =>
      have hname : name ∈ r.names := (howners name).1 ((Table.mem_keys_iff _ _).2 ⟨owner, ho⟩)
      simp only [ho] at h
      split at h
      · obtain ⟨_, _, hthrow, -⟩ := run_bind_ok h
        cases hthrow
      · obtain ⟨rfl, rfl⟩ := run_pure_ok h
        refine ⟨⟨fun n => ?_, fun e he => .inl he, id, rfl⟩, rfl⟩
        rw [show Table.keys [(name, schema)] = [name] from rfl, List.mem_singleton]
        exact ⟨.inl, fun hn => hn.elim id fun hn => hn ▸ hname⟩

/-- Definitions that are stored are in the registry. -/
theorem stored_registerAll {owners : Table String (List String)} {es : Table String Schema}
    {r r' : Registry} (howners : ∀ n, n ∈ r.owners.keys ↔ n ∈ r.names)
    (h : (registerAll owners es).run.run r = (.ok (), r')) : Stored es r r' := by
  induction es generalizing r with
  | nil =>
      obtain ⟨-, rfl⟩ := run_pure_ok h
      exact .refl r
  | cons e es ih =>
      obtain ⟨_, r₁, hone, h⟩ := run_bind_ok h
      obtain ⟨s, r₂, hregister, hdiscard⟩ := run_bind_ok hone
      obtain ⟨-, rfl⟩ := run_pure_ok hdiscard
      have hstored := (stored_register howners hregister).1
      exact hstored.trans (ih (hstored.owners howners) h)

/-- The same where names that types share are looked for first. -/
theorem stored_registerDefinitions {owners : Table String (List String)}
    {es : Table String Schema} {r r' : Registry} (howners : ∀ n, n ∈ r.owners.keys ↔ n ∈ r.names)
    (h : (registerDefinitions owners es).run.run r = (.ok (), r')) : Stored es r r' := by
  rw [registerDefinitions] at h
  split at h
  · cases h
  · exact stored_registerAll howners h

/-! ## closed registries -/

/-- The names of a registry have owners, and its components and what it handed out
lead into them. -/
structure Closed (r : Registry) : Prop where
  owners : ∀ n, n ∈ r.owners.keys ↔ n ∈ r.names
  schemas : ∀ e ∈ r.schemas, LeadsInto r.names e.2
  usage : ∀ e ∈ r.usage, LeadsInto r.names e.2

theorem closed_empty : Closed {} := ⟨by simp [names], by simp, by simp⟩

section Closed

variable {es : Table String Schema} {r r' : Registry}

/-- Storing takes no component away. -/
theorem Stored.subset (h : Stored es r r') : r.names ⊆ r'.names :=
  fun n hn => (h.names n).2 (.inl hn)

theorem Stored.subset_keys (h : Stored es r r') : es.keys ⊆ r'.names :=
  fun n hn => (h.names n).2 (.inr hn)

/-- Definitions that lead into what there is afterwards keep a registry closed. -/
theorem Closed.of_stored (hr : r.Closed) (h : Stored es r r')
    (hes : ∀ e ∈ es, LeadsInto r'.names e.2) : r'.Closed where
  owners := h.owners hr.owners
  schemas e he := by
    rcases h.schemas e he with he | he
    · exact (hr.schemas e he).mono h.subset
    · exact hes e he
  usage e he := by
    rw [h.usage] at he
    exact (hr.usage e he).mono h.subset

/-- Storing what is derived keeps the registry closed, and the schema leads into it. -/
theorem Closed.of_definitions {d : Catalog.Derived} (hr : r.Closed) (hd : d.Closed)
    (h : Stored d.definitions r r') : r'.Closed ∧ LeadsInto r'.names d.schema :=
  ⟨hr.of_stored h fun e he => (hd.definitions e he).mono h.subset_keys,
    hd.schema.mono h.subset_keys⟩

/-- Asking for a parameter keeps the registry closed. -/
theorem closed_paramSchemaOf {c : Catalog} {t : Ty} {s : Schema} (hr : r.Closed)
    (ht : c.Closes t) (h : (paramSchemaOf c t).run.run r = (.ok s, r')) :
    r'.Closed ∧ r.names ⊆ r'.names ∧ LeadsInto r'.names s := by
  obtain ⟨d, _, hderive, h⟩ := run_bind_ok h
  obtain ⟨hd, rfl⟩ := run_ofExcept_ok hderive
  obtain ⟨⟨⟩, _, hdefinitions, h⟩ := run_bind_ok h
  obtain ⟨rfl, rfl⟩ := run_pure_ok h
  have hstored := stored_registerDefinitions hr.owners hdefinitions
  obtain ⟨hclosed, hleads⟩ := hr.of_definitions (Catalog.Derived.closed_inPlace (ht d hd)) hstored
  exact ⟨hclosed, hstored.subset, hleads⟩

/-- Remembering a schema leaves the step alone that it comes from. -/
theorem run_remembering_ok {m : Registering Schema} {identity : String} {s : Schema}
    (h : (do
      let schema ← m
      modify fun r : Registry => { r with usage := r.usage.put identity schema }
      pure schema : Registering Schema).run.run r = (.ok s, r')) :
    ∃ r₁, m.run.run r = (.ok s, r₁) ∧ r' = { r₁ with usage := r₁.usage.put identity s } := by
  obtain ⟨schema, r₁, hm, h⟩ := run_bind_ok h
  obtain ⟨_, _, hmodify, h⟩ := run_bind_ok h
  obtain ⟨rfl, rfl⟩ := run_pure_ok h
  cases hmodify
  exact ⟨r₁, hm, rfl⟩

/-- A registry may remember whatever leads into its components. -/
theorem Closed.remember {identity : String} {s : Schema} (hr : r.Closed)
    (hs : LeadsInto r.names s) : Closed { r with usage := r.usage.put identity s } where
  owners := hr.owners
  schemas := hr.schemas
  usage e he := by
    rcases Table.mem_of_mem_put he with he | rfl
    · exact hr.usage e he
    · exact hs

/-- Asking for a body keeps the registry closed. -/
theorem closed_schemaOf {c : Catalog} {t : Ty} {s : Schema} (hr : r.Closed) (ht : c.Closes t)
    (h : (schemaOf c t).run.run r = (.ok s, r')) :
    r'.Closed ∧ r.names ⊆ r'.names ∧ LeadsInto r'.names s := by
  obtain ⟨_, _, hget, h⟩ := run_bind_ok h
  cases hget
  cases hu : r.usage.find? (c.identity t) with
  | some schema =>
      simp only [hu] at h
      obtain ⟨rfl, rfl⟩ := run_pure_ok h
      exact ⟨hr, fun _ => id, hr.usage _ (Table.mem_of_find? hu)⟩
  | none =>
      simp only [hu] at h
      obtain ⟨d, _, hderive, h⟩ := run_bind_ok h
      obtain ⟨hd, rfl⟩ := run_ofExcept_ok hderive
      obtain ⟨⟨⟩, r₁, hdefinitions, h⟩ := run_bind_ok h
      have hstored := stored_registerDefinitions hr.owners hdefinitions
      obtain ⟨hclosed, hleads⟩ := hr.of_definitions (ht d hd) hstored
      have hderived : ∀ {r₃ : Registry}, (pure d.schema : Registering Schema).run.run r₁ =
          (.ok s, r₃) → r' = { r₃ with usage := r₃.usage.put (c.identity t) s } →
          r'.Closed ∧ r.names ⊆ r'.names ∧ LeadsInto r'.names s := by
        intro r₃ h hr'
        obtain ⟨rfl, rfl⟩ := run_pure_ok h
        subst hr'
        exact ⟨hclosed.remember hleads, hstored.subset, hleads⟩
      split at h
      · split at h
        · obtain ⟨r₃, hregister, rfl⟩ := run_remembering_ok h
          obtain ⟨hone, rfl⟩ := stored_register hclosed.owners hregister
          have hclosed' : r₃.Closed := hclosed.of_stored hone fun e he => by
            rw [List.mem_singleton.1 he]
            exact hleads.mono hone.subset
          have hleads' := Reference.leadsInto_schema (hone.subset_keys List.mem_cons_self)
          exact ⟨hclosed'.remember hleads', List.Subset.trans hstored.subset hone.subset, hleads'⟩
        · obtain ⟨r₃, hpure, hr'⟩ := run_remembering_ok h
          exact hderived hpure hr'
      · obtain ⟨r₃, hpure, hr'⟩ := run_remembering_ok h
        exact hderived hpure hr'

end Closed

end Registry
end ApiTree
