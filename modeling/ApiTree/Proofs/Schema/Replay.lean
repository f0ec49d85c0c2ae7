import ApiTree.Proofs.Schema.Registry

/-!
# ApiTree.Proofs.Schema.Replay

Asking a registry again.  Registries only grow (`Registry.Within`), so what a registry
keeps for a type that it was asked for stays there (`Registry.Keeps`): the components
that the type brought in, each under the identity of its owner, and the schema that
was handed out.  Components are compared by an equivalence of schemas `same`, such as
equality, or equality as JSON values.

* `Registry.keeps_schemaOf` — a registry that is asked for the schema of a type keeps the
  type, where a component name stands for one schema only.
* `Registry.exists_schemaOf` — a registry with nothing but what another one keeps gives the
  same schema for the type, without a conflict, and still has nothing else.
-/

namespace ApiTree

namespace Catalog

/-- The name under which the schema of a type is stored itself: that of a declared type
whose schema is no reference. -/
def componentName? (c : Catalog) (t : Ty) (d : Derived) : Option String :=
  match t with
  | .cls i => if c.isNamed t && !d.schema.has "$ref" then some (c.decl i).name else none
  | _ => none

/-- The schema that is handed out for a type. -/
def handedOut (c : Catalog) (t : Ty) (d : Derived) : Schema :=
  (c.componentName? t d).elim d.schema Reference.schema

end Catalog

namespace Registry

open Registering

/-! ## growth -/

/-- A registry has nothing that another has not: no owner, no component and no schema that was
handed out. -/
structure Within (same : Schema → Schema → Prop) (r R : Registry) : Prop where
  owners : ∀ n o, r.owners.find? n = some o → R.owners.find? n = some o
  schemas : ∀ n s, r.schemas.find? n = some s → ∃ s', R.schemas.find? n = some s' ∧ same s s'
  usage : ∀ i s, r.usage.find? i = some s → R.usage.find? i = some s

/-- A component, or one that is the same, with the identity of its owner. -/
structure Holds (same : Schema → Schema → Prop) (r : Registry) (name identity : String)
    (schema : Schema) : Prop where
  owner : r.owners.find? name = some identity
  schema : ∃ s, r.schemas.find? name = some s ∧ same schema s

/-- The identity of the type for which a definition is stored. -/
def ownerOf (owners : Table String (List String)) (name : String) : String :=
  (Table.find? owners name).elim name fun ids => ids.headD name

/-- A registry keeps for a type, from which `d` was derived, what it was asked for. -/
structure Keeps (same : Schema → Schema → Prop) (c : Catalog) (r : Registry) (t : Ty)
    (d : Catalog.Derived) : Prop where
  derived : c.derive t = .ok d
  unshared : sharedName? (c.namedTypes t) = none
  definitions : ∀ e ∈ d.definitions, r.Holds same e.1 (ownerOf (c.namedTypes t) e.1) e.2
  component : ∀ n, c.componentName? t d = some n → r.Holds same n (c.identity t) d.schema
  usage : r.usage.find? (c.identity t) = some (c.handedOut t d)

section Growth

variable {same : Schema → Schema → Prop}

/-- A registry is part of itself. -/
theorem Within.refl (hsame : Equivalence same) (r : Registry) : r.Within same r where
  owners _ _ := id
  schemas _ s hs := ⟨s, hs, hsame.refl s⟩
  usage _ _ := id

variable (hsame : Equivalence same)

include hsame

theorem Within.trans {r₁ r₂ r₃ : Registry} (h : r₁.Within same r₂) (h' : r₂.Within same r₃) :
    r₁.Within same r₃ where
  owners n o ho := h'.owners n o (h.owners n o ho)
  schemas n s hs := by
    obtain ⟨s₂, hs₂, h₁₂⟩ := h.schemas n s hs
    obtain ⟨s₃, hs₃, h₂₃⟩ := h'.schemas n s₂ hs₂
    exact ⟨s₃, hs₃, hsame.trans h₁₂ h₂₃⟩
  usage i s hs := h'.usage i s (h.usage i s hs)

theorem Holds.mono {r R : Registry} {n i : String} {s : Schema} (h : r.Holds same n i s)
    (hR : r.Within same R) : R.Holds same n i s where
  owner := hR.owners n i h.owner
  schema := by
    obtain ⟨s₁, hs₁, h₁⟩ := h.schema
    obtain ⟨s₂, hs₂, h₂⟩ := hR.schemas n s₁ hs₁
    exact ⟨s₂, hs₂, hsame.trans h₁ h₂⟩

/-- What a registry keeps for a type, one that it is part of keeps too. -/
theorem Keeps.mono {c : Catalog} {r R : Registry} {t : Ty} {d : Catalog.Derived}
    (h : r.Keeps same c t d) (hR : r.Within same R) : R.Keeps same c t d where
  derived := h.derived
  unshared := h.unshared
  definitions e he := (h.definitions e he).mono hsame hR
  component n hn := (h.component n hn).mono hsame hR
  usage := hR.usage _ _ h.usage

end Growth

/-- The names that have owners are those of the components. -/
def Owned (r : Registry) : Prop := ∀ n, n ∈ r.owners.keys ↔ n ∈ r.names

theorem owned_empty : Owned {} := by simp [Owned, names]

/-! ## storing once -/

section Store

variable {same : Schema → Schema → Prop} {c : Catalog} {r r' R : Registry}
  {name identity : String} {schema : Schema}

/-- A component that is added has an owner. -/
theorem owned_add (ho : r.Owned) : (r.add name identity schema).Owned := by
  intro n
  rw [names, add, Table.mem_keys_put, Table.mem_keys_put, ho n, names]

/-- Storing a component stores it for its owner, in a free place or in its own. -/
theorem run_register_ok (h : (register name identity schema).run.run r = (.ok s, r')) :
    (r.owners.find? name = none ∧ r' = r.add name identity schema) ∨
      (r.owners.find? name = some identity ∧ r' = r) := by
  obtain ⟨_, _, hget, h⟩ := run_bind_ok h
  cases hget
  cases ho : r.owners.find? name with
  | none =>
      simp only [ho] at h
      obtain ⟨_, r₁, hset, h⟩ := run_bind_ok h
      obtain ⟨-, rfl⟩ := run_pure_ok h
      cases hset
      exact .inl ⟨rfl, rfl⟩
  | some owner =>
      simp only [ho] at h
      split at h
      · obtain ⟨_, _, hthrow, -⟩ := run_bind_ok h
        cases hthrow
      · next heq =>
          obtain ⟨-, rfl⟩ := run_pure_ok h
          exact .inr ⟨by simpa using heq, rfl⟩

/-- A name that is free takes the component. -/
theorem run_register_of_free (h : r.owners.find? name = none) :
    (register name identity schema).run.run r =
      (.ok (Reference.schema name), r.add name identity schema) := by
  rw [register, run_get_bind, h]
  rfl

/-- A name of the same owner is left as it is. -/
theorem run_register_of_owner (h : r.owners.find? name = some identity) :
    (register name identity schema).run.run r = (.ok (Reference.schema name), r) := by
  rw [register, run_get_bind, h]
  simp only [bne_self_eq_false]
  rfl

/-- Noting an answer keeps what the registry has. -/
theorem within_remember (h : r.usage.find? identity = none) (hsame : Equivalence same) :
    r.Within same { r with usage := r.usage.put identity schema } where
  owners _ _ := id
  schemas _ s hs := ⟨s, hs, hsame.refl s⟩
  usage i s hi := by
    rw [Table.find?_put_of_ne _ _ fun heq => by simp [← heq, hi] at h]
    exact hi

/-- Every component is one of those that a name may stand for. -/
structure Sound (E : String → Schema → Prop) (r : Registry) : Prop where
  owned : r.Owned
  drawn : ∀ e ∈ r.schemas, E e.1 e.2

theorem sound_empty (E : String → Schema → Prop) : Sound E {} := ⟨owned_empty, by simp⟩

/-- A registry that may still be asked for types: what it handed out it keeps, for types
of the list `ts`. -/
structure Faithful (same : Schema → Schema → Prop) (c : Catalog) (E : String → Schema → Prop)
    (ts : List Ty) (r : Registry) : Prop extends Sound E r where
  kept : ∀ i s, r.usage.find? i = some s →
    ∃ t ∈ ts, ∃ d, c.identity t = i ∧ r.Keeps same c t d ∧ s = c.handedOut t d

theorem faithful_empty (same : Schema → Schema → Prop) (c : Catalog) (E : String → Schema → Prop)
    (ts : List Ty) : Faithful same c E ts {} :=
  ⟨sound_empty E, by simp⟩

section Same

variable (hsame : Equivalence same)

include hsame

/-- Adding a component under a free name keeps what the registry has. -/
theorem within_add (ho : r.Owned) (hfree : r.owners.find? name = none) :
    r.Within same (r.add name identity schema) where
  owners n o hn := by
    rw [add, Table.find?_put_of_ne _ _ (fun h => by simp [← h, hn] at hfree)]
    exact hn
  schemas n s hn := by
    refine ⟨s, ?_, hsame.refl s⟩
    rw [add, Table.find?_put_of_ne _ _ (fun h => ?_)]
    · exact hn
    · subst h
      have hmem : n ∈ r.owners.keys := (ho n).2 ((Table.mem_keys_iff _ _).2 ⟨s, hn⟩)
      exact (Table.find?_eq_none_iff _ _).1 hfree hmem
  usage _ _ hn := hn

/-- A component that is added is held. -/
theorem holds_add : (r.add name identity schema).Holds same name identity schema :=
  ⟨Table.find?_put_self _ _ _, schema, Table.find?_put_self _ _ _, hsame.refl schema⟩

section Sound

variable {E : String → Schema → Prop} (hE : ∀ n s s', E n s → E n s' → same s s')

include hE

/-- Storing a component succeeds only where it is held in the end. -/
theorem sound_register {s : Schema} (hr : r.Sound E) (hs : E name schema)
    (h : (register name identity schema).run.run r = (.ok s, r')) :
    r'.Sound E ∧ r.Within same r' ∧ r'.Holds same name identity schema := by
  rcases run_register_ok h with ⟨hfree, rfl⟩ | ⟨howner, rfl⟩
  · refine ⟨⟨owned_add hr.owned, fun e he => ?_⟩, within_add hsame hr.owned hfree, holds_add hsame⟩
    rcases Table.mem_of_mem_put he with he | rfl
    · exact hr.drawn e he
    · exact hs
  · -- the name is taken, by a component that it may stand for
    have hname : name ∈ r'.names := (hr.owned name).1 ((Table.mem_keys_iff _ _).2 ⟨_, howner⟩)
    obtain ⟨s', hs'⟩ := (Table.mem_keys_iff _ _).1 hname
    have hdrawn : E name s' := hr.drawn _ (Table.mem_of_find? hs')
    exact ⟨hr, .refl hsame r', howner, s', hs', hE name schema s' hs hdrawn⟩

/-- Storing definitions succeeds only where each is held in the end. -/
theorem sound_registerAll {owners : Table String (List String)} {es : Table String Schema}
    (hr : r.Sound E) (hes : ∀ e ∈ es, E e.1 e.2)
    (h : (registerAll owners es).run.run r = (.ok (), r')) :
    r'.Sound E ∧ r.Within same r' ∧ ∀ e ∈ es, r'.Holds same e.1 (ownerOf owners e.1) e.2 := by
  induction es generalizing r with
  | nil =>
      obtain ⟨-, rfl⟩ := run_pure_ok h
      exact ⟨hr, .refl hsame r, by simp⟩
  | cons e es ih =>
      obtain ⟨_, r₁, hone, h⟩ := run_bind_ok h
      obtain ⟨s, r₂, hregister, hdiscard⟩ := run_bind_ok hone
      obtain ⟨-, rfl⟩ := run_pure_ok hdiscard
      obtain ⟨hr₂, hgrown, hheld⟩ :=
        sound_register hsame hE hr (hes e List.mem_cons_self) hregister
      obtain ⟨hr', hgrown', hrest⟩ := ih hr₂ (fun e' he' => hes e' (List.mem_cons_of_mem _ he')) h
      refine ⟨hr', hgrown.trans hsame hgrown', fun e' he' => ?_⟩
      rcases List.mem_cons.1 he' with rfl | he'
      · exact hheld.mono hsame hgrown'
      · exact hrest e' he'

/-- The same where names that types share are looked for first. -/
theorem sound_registerDefinitions {owners : Table String (List String)} {es : Table String Schema}
    (hr : r.Sound E) (hes : ∀ e ∈ es, E e.1 e.2)
    (h : (registerDefinitions owners es).run.run r = (.ok (), r')) :
    sharedName? owners = none ∧ r'.Sound E ∧ r.Within same r' ∧
      ∀ e ∈ es, r'.Holds same e.1 (ownerOf owners e.1) e.2 := by
  rw [registerDefinitions] at h
  split at h
  · cases h
  · next hshared => exact ⟨hshared, sound_registerAll hsame hE hr hes h⟩

end Sound
end Same

/-! ## the schema of a type -/

/-- Stores the schema of a type itself, if it is to be a component. -/
def store (c : Catalog) (t : Ty) (d : Catalog.Derived) : Registering Schema :=
  match c.componentName? t d with
  | some n => register n (c.identity t) d.schema
  | none => pure d.schema

/-- An answer that was noted is given again. -/
theorem run_bodySchema_of_usage {owners : Table String (List String)} {t : Ty}
    (h : r.usage.find? (c.identity t) = some schema) :
    (bodySchema c owners t).run.run r = (.ok schema, r) := by
  rw [bodySchema, run_get_bind, h]
  rfl

/-- An answer that was noted is given again, whatever the search would find. -/
theorem run_schemaOf_of_usage {t : Ty} (h : r.usage.find? (c.identity t) = some schema) :
    (schemaOf c t).run.run r = (.ok schema, r) := run_bodySchema_of_usage h

/-- A type that was not asked for has its definitions stored, then its own schema. -/
theorem run_bodySchema_of_derived {owners : Table String (List String)} {t : Ty}
    {d : Catalog.Derived} (hu : r.usage.find? (c.identity t) = none) (hd : c.derive t = .ok d) :
    (bodySchema c owners t).run.run r = (do
      registerDefinitions owners d.definitions
      let schema ← store c t d
      modify fun r : Registry => { r with usage := r.usage.put (c.identity t) schema }
      pure schema : Registering Schema).run.run r := by
  rw [bodySchema, run_get_bind, hu, hd]
  refine (run_bind_of_ok (a := d) rfl _).trans ?_
  cases t with
  | cls i =>
      by_cases hn : (c.isNamed (.cls i) && !Table.has d.schema "$ref") = true
      · simp only [store, Catalog.componentName?, hn, if_true]
      · simp only [store, Catalog.componentName?, hn, if_false, Bool.false_eq_true]
  | _ => rfl

/-- A type that was not asked for is answered only if its schema can be derived. -/
theorem derived_of_schemaOf {t : Ty} {s : Schema} (hu : r.usage.find? (c.identity t) = none)
    (h : (schemaOf c t).run.run r = (.ok s, r')) : ∃ d, c.derive t = .ok d := by
  rw [schemaOf, bodySchema, run_get_bind, hu] at h
  obtain ⟨d, _, hderive, -⟩ := run_bind_ok h
  exact ⟨d, (run_ofExcept_ok hderive).1⟩

/-- Storing the schema of a type itself notes no answer. -/
theorem usage_store {t : Ty} {d : Catalog.Derived} {s : Schema} (ho : r.Owned)
    (h : (store c t d).run.run r = (.ok s, r')) : r'.usage = r.usage := by
  rw [store] at h
  split at h
  · exact (stored_register ho h).1.usage
  · obtain ⟨-, rfl⟩ := run_pure_ok h
    rfl

section Same

variable (hsame : Equivalence same)

include hsame

/-- What is stored for a type itself is what is handed out for it. -/
theorem sound_store {E : String → Schema → Prop} (hE : ∀ n s s', E n s → E n s' → same s s')
    {t : Ty} {d : Catalog.Derived} {s : Schema} (hr : r.Sound E)
    (hown : ∀ n, c.componentName? t d = some n → E n d.schema)
    (h : (store c t d).run.run r = (.ok s, r')) :
    s = c.handedOut t d ∧ r'.Sound E ∧ r.Within same r' ∧
      ∀ n, c.componentName? t d = some n → r'.Holds same n (c.identity t) d.schema := by
  rw [store] at h
  rw [Catalog.handedOut]
  cases hn : c.componentName? t d with
  | none =>
      rw [hn] at h
      obtain ⟨rfl, rfl⟩ := run_pure_ok h
      exact ⟨rfl, hr, .refl hsame r, by simp⟩
  | some n =>
      rw [hn] at h
      obtain ⟨hr', hgrown, hheld⟩ := sound_register hsame hE hr (hown n hn) h
      obtain ⟨-, rfl⟩ := stored_register hr.owned h
      refine ⟨rfl, hr', hgrown, fun n' hn' => ?_⟩
      obtain rfl := Option.some.inj hn'
      exact hheld

/-- A registry that is asked for the schema of a type keeps it. -/
theorem keeps_schemaOf {E : String → Schema → Prop} (hE : ∀ n s s', E n s → E n s' → same s s')
    {ts : List Ty} (hidentity : ∀ t ∈ ts, ∀ t' ∈ ts, c.identity t = c.identity t' → t = t')
    {t : Ty} {s : Schema} (ht : t ∈ ts) (hr : r.Faithful same c E ts)
    (hdefinitions : ∀ d, c.derive t = .ok d → (∀ e ∈ d.definitions, E e.1 e.2) ∧
      ∀ n, c.componentName? t d = some n → E n d.schema)
    (h : (schemaOf c t).run.run r = (.ok s, r')) :
    r'.Faithful same c E ts ∧ r.Within same r' ∧
      ∃ d, r'.Keeps same c t d ∧ s = c.handedOut t d := by
  cases hu : r.usage.find? (c.identity t) with
  | some schema =>
      rw [run_schemaOf_of_usage hu] at h
      obtain ⟨hs, rfl⟩ := Prod.mk.inj h
      obtain rfl := Except.ok.inj hs
      obtain ⟨t', ht', d, hi, hkept, hschema⟩ := hr.kept _ _ hu
      obtain rfl := hidentity t' ht' t ht hi
      exact ⟨hr, .refl hsame r, d, hkept, hschema⟩
  | none =>
      obtain ⟨d, hd⟩ := derived_of_schemaOf hu h
      obtain ⟨hes, hown⟩ := hdefinitions d hd
      rw [schemaOf, run_bodySchema_of_derived hu hd] at h
      obtain ⟨⟨⟩, r₁, hregister, h⟩ := run_bind_ok h
      obtain ⟨r₂, hstore, rfl⟩ := run_remembering_ok h
      obtain ⟨hshared, hr₁, hgrown₁, hheld⟩ :=
        sound_registerDefinitions hsame hE hr.toSound hes hregister
      obtain ⟨rfl, hr₂, hgrown₂, hcomponent⟩ := sound_store hsame hE hr₁ hown hstore
      have husage : r₂.usage = r.usage :=
        (usage_store hr₁.owned hstore).trans (stored_registerDefinitions hr.owned hregister).usage
      have hnew : r₂.usage.find? (c.identity t) = none := by rw [husage, hu]
      have hremember : r₂.Within same
          { r₂ with usage := r₂.usage.put (c.identity t) (c.handedOut t d) } :=
        within_remember hnew hsame
      have hgrown := (hgrown₁.trans hsame hgrown₂).trans hsame hremember
      have hkeeps :
          Keeps same c { r₂ with usage := r₂.usage.put (c.identity t) (c.handedOut t d) } t d :=
        { derived := hd
          unshared := hshared
          definitions := fun e he => ((hheld e he).mono hsame hgrown₂).mono hsame hremember
          component := fun n hn => (hcomponent n hn).mono hsame hremember
          usage := Table.find?_put_self _ _ _ }
      refine ⟨⟨⟨hr₂.owned, hr₂.drawn⟩, fun i s hi => ?_⟩, hgrown, d, hkeeps, rfl⟩
      rw [Table.find?_put] at hi
      split at hi
      · next heq =>
          obtain rfl := Option.some.inj hi
          exact ⟨t, ht, d, (eq_of_beq heq).symm, hkeeps, rfl⟩
      · rw [husage] at hi
        obtain ⟨t', ht', d', hi', hkept, hs⟩ := hr.kept i s hi
        exact ⟨t', ht', d', hi', hkept.mono hsame hgrown, hs⟩

end Same

/-! ## replaying -/

/-- Asks for the schemas of types, one after the other; each comes with the registry as it is
then. -/
def replay (c : Catalog) : List Ty → Registering (List (Schema × Registry))
  | [] => return []
  | t :: ts => do
    let schema ← schemaOf c t
    let r ← get
    let rest ← replay c ts
    return (schema, r) :: rest

/-- A replay asks for the first type and replays the others. -/
theorem run_replay_cons {t : Ty} {ts : List Ty} {s : Schema} {steps : List (Schema × Registry)}
    {r₁ : Registry} (ht : (schemaOf c t).run.run r = (.ok s, r₁))
    (hts : (replay c ts).run.run r₁ = (.ok steps, r')) :
    (replay c (t :: ts)).run.run r = (.ok ((s, r₁) :: steps), r') := by
  rw [replay, run_bind_of_ok ht, run_get_bind, run_bind_of_ok hts]
  rfl

theorem length_replay {ts : List Ty} {steps : List (Schema × Registry)}
    (h : (replay c ts).run.run r = (.ok steps, r')) :
    steps.length = ts.length := by
  induction ts generalizing r steps with
  | nil =>
      obtain ⟨rfl, -⟩ := Registering.run_pure_ok h
      rfl
  | cons t ts ih =>
      obtain ⟨schema, r₁, -, h⟩ := Registering.run_bind_ok h
      rw [Registering.run_get_bind] at h
      obtain ⟨rest, r₂, hrest, h⟩ := Registering.run_bind_ok h
      obtain ⟨rfl, rfl⟩ := Registering.run_pure_ok h
      rw [List.length_cons, List.length_cons, ih hrest]

end Store

/-! ## where references lead -/

/-- The definitions of a registry are its components. -/
theorem find?_definitions (r : Registry) (n : String) :
    r.definitions.find? n = (r.schemas.find? n).map .obj :=
  Table.find?_mapValues (fun _ s => Json.obj s) r.schemas n

/-- The reference to a component leads to it. -/
theorem resolve_pathTo (r : Registry) {n : String} {s : Schema}
    (h : r.schemas.find? n = some s) : r.resolve (Reference.pathTo n) = .ok (.obj s) := by
  rw [resolve, Reference.follow, Reference.target?_pathTo]
  simp only [find?_definitions, h, Option.map_some]

/-- The references that are met from a value on: those in it, and those in what they lead to. -/
inductive Met (r : Registry) (j : Json) : String → Prop
  | inside {ref : String} (h : ref ∈ Reference.all j) : Met r j ref
  | through {ref next : String} {s : Json} (h : Met r j ref) (hs : r.resolve ref = .ok s)
      (hnext : next ∈ Reference.all s) : Met r j next

end Registry
end ApiTree
