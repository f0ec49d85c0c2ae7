import ApiTree.Compilation.Leaf
import ApiTree.Proofs.Merge.Spelling

/-!
# ApiTree.Proofs.Compilation.Leaf

What a route compiles to by itself.  Steps of compiling are taken apart by the
state between them (`Compiling.run_bind_ok`), and reading the qualifiers of a
route is a pure function of the qualifiers and their schemas
(`Gathered.exists_reading`).

`Leaf.WellFormed` is the invariant that merging rests on: the path parameters of
the operation are the captures of the route, in order and without repetition,
and its tables have no repeated keys.
-/

namespace ApiTree

/-! ## steps -/

namespace Compiling

variable {α β : Type} {s s' : Collected}

theorem run_bind_ok {m : Compiling α} {f : α → Compiling β} {b : β} :
    (m >>= f).run s = .ok (b, s') ↔
      ∃ a t, m.run s = .ok (a, t) ∧ (f a).run t = .ok (b, s') := by
  rw [StateT.run_bind]
  cases m.run s with
  | error e => simp [bind, Except.bind]
  | ok p =>
      obtain ⟨a, t⟩ := p
      simp [bind, Except.bind]

theorem run_bind_of_ok {m : Compiling α} {a : α} (h : m.run s = .ok (a, s'))
    (f : α → Compiling β) : (m >>= f).run s = (f a).run s' := by
  rw [StateT.run_bind, h]
  rfl

theorem run_bind_of_error {m : Compiling α} {e : Fault} (h : m.run s = .error e)
    (f : α → Compiling β) : (m >>= f).run s = .error e := by
  rw [StateT.run_bind, h]
  rfl

theorem run_pure_ok {a b : α} : (pure a : Compiling α).run s = .ok (b, s') ↔ a = b ∧ s = s' := by
  rw [StateT.run_pure]
  simp [pure, Except.pure]

theorem run_throw (f : Fault) : (throw f : Compiling α).run s = .error f := rfl

@[simp] theorem run_conflict (identity : String) (cause : ConflictCause) :
    (conflict identity cause : Compiling α).run s = .error (.conflict ⟨identity, cause⟩) := rfl

/-- Asking the registry changes the registry only. -/
theorem run_registering_ok {m : Registering α} {a : α} :
    (registering m).run s = .ok (a, s') ↔
      ∃ registry, m.run.run s.registry = (.ok a, registry) ∧ s' = { s with registry } := by
  have hrun : (registering m).run s = (m.run.run s.registry).1.map
      fun a => (a, { s with registry := (m.run.run s.registry).2 }) := by
    simp only [registering, StateT.run_bind, StateT.run_get, pure_bind]
    rcases m.run.run s.registry with ⟨_ | _, _⟩ <;> rfl
  rw [hrun]
  rcases m.run.run s.registry with ⟨f | b, registry⟩
  · constructor
    · intro h
      cases h
    · rintro ⟨_, h, -⟩
      cases h
  · constructor
    · intro h
      obtain ⟨rfl, rfl⟩ := Prod.mk.inj (Except.ok.inj h)
      exact ⟨registry, rfl, rfl⟩
    · rintro ⟨_, h, rfl⟩
      cases h
      rfl

end Compiling

open Compiling

/-! ## reading qualifiers -/

/-- A qualifier is gathered once it is let in and has its schema. -/
theorem gather_ok {c : Catalog} {title : String} {g g' : Gathered} {q : Qualifier}
    {s s' : Collected} (h : (gather c title g q).run s = .ok (g', s')) :
    ∃ t schema, (letIn title g q).run s = .ok ((), t) ∧ (q.schema c).run t = .ok (schema, s') ∧
      g' = g.adding q schema := by
  obtain ⟨_, t, hlet, h⟩ := run_bind_ok.1 h
  obtain ⟨schema, t', hschema, h⟩ := run_bind_ok.1 h
  obtain ⟨rfl, rfl⟩ := run_pure_ok.1 h
  exact ⟨t, schema, hlet, hschema, rfl⟩

namespace Gathered

/-- What qualifiers add to what is gathered, each with its schema. -/
def reading (g : Gathered) (es : List (Qualifier × Schema)) : Gathered :=
  es.foldl (fun g e => g.adding e.1 e.2) g

/-- Qualifiers that are gathered are read with their schemas. -/
theorem exists_reading {c : Catalog} {title : String} {g g' : Gathered} {qs : List Qualifier}
    {s s' : Collected} (h : (qs.foldlM (gather c title) g).run s = .ok (g', s')) :
    ∃ es : List (Qualifier × Schema), es.map Prod.fst = qs ∧ g' = g.reading es := by
  induction qs generalizing g s with
  | nil =>
      obtain ⟨rfl, rfl⟩ := run_pure_ok.1 h
      exact ⟨[], rfl, rfl⟩
  | cons q qs ih =>
      rw [List.foldlM_cons] at h
      obtain ⟨g₁, t, hq, h⟩ := run_bind_ok.1 h
      obtain ⟨_, schema, -, -, rfl⟩ := gather_ok hq
      obtain ⟨es, rfl, rfl⟩ := ih h
      exact ⟨(q, schema) :: es, rfl, rfl⟩

/-- Each qualifier adds its parameter. -/
theorem parameters_reading (g : Gathered) (es : List (Qualifier × Schema)) :
    (g.reading es).parameters = g.parameters ++ es.filterMap fun e => e.1.parameter? e.2 := by
  induction es generalizing g with
  | nil => simp [reading]
  | cons e es ih =>
      rw [reading, List.foldl_cons, ← reading, ih, adding]
      cases h : e.1.parameter? e.2 <;> simp [h]

/-- The body is that of a qualifier, or was there before. -/
theorem body_reading {g : Gathered} {es : List (Qualifier × Schema)} {b : RequestBody}
    (h : (g.reading es).body = some b) :
    g.body = some b ∨ ∃ e ∈ es, e.1.body? e.2 = some b := by
  induction es generalizing g with
  | nil => exact .inl h
  | cons e es ih =>
      rcases ih h with hg | ⟨e', he', hb⟩
      · rcases Option.or_eq_some_iff.1 hg with he | ⟨-, hg⟩
        · exact .inr ⟨e, List.mem_cons_self, he⟩
        · exact .inl hg
      · exact .inr ⟨e', List.mem_cons_of_mem _ he', hb⟩

end Gathered

/-- A qualifier adds a parameter in the path exactly when it captures. -/
theorem Qualifier.captured_parameter? (q : Qualifier) (schema : Schema) :
    (captured (q.parameter? schema).toList).map (·.name) = q.captureName?.toList := by
  cases q <;> rfl

/-- A capture is required. -/
theorem Qualifier.required_of_captured {q : Qualifier} {schema : Schema} {p : Parameter}
    (h : p ∈ captured (q.parameter? schema).toList) : p.required = some true := by
  obtain ⟨hp, hloc⟩ := mem_captured.1 h
  cases q <;> simp only [parameter?, Option.toList_some, Option.toList_none, List.mem_singleton,
    List.not_mem_nil] at hp <;> subst hp <;> first | rfl | simp at hloc

/-- A body repeats no content type. -/
theorem Qualifier.nodup_keys_body? {q : Qualifier} {schema : Schema} {b : RequestBody}
    (h : q.body? schema = some b) : b.content.keys.Nodup := by
  cases q <;> simp only [body?, Option.some.injEq, reduceCtorEq] at h
  subst h
  exact Table.nodup_keys_ofList _

theorem captured_append (ps qs : List Parameter) :
    captured (ps ++ qs) = captured ps ++ captured qs := List.filter_append ..

/-- The path parameters of a route are its captures, in order. -/
theorem captured_filterMap_parameter? (es : List (Qualifier × Schema)) :
    (captured (es.filterMap fun e => e.1.parameter? e.2)).map (·.name) =
      captureNames (es.map Prod.fst) := by
  induction es with
  | nil => rfl
  | cons e es ih =>
      have hsplit : ((e :: es).filterMap fun e => e.1.parameter? e.2) =
          (e.1.parameter? e.2).toList ++ es.filterMap fun e => e.1.parameter? e.2 := by
        cases h : e.1.parameter? e.2 <;> simp [h]
      have hnames : captureNames ((e :: es).map Prod.fst) =
          e.1.captureName?.toList ++ captureNames (es.map Prod.fst) := by
        cases h : e.1.captureName? <;> simp [captureNames, h]
      rw [hsplit, captured_append, List.map_append, Qualifier.captured_parameter?, ih, hnames]

/-- Where no parameter is declared twice the keys differ. -/
theorem declaredTwice?_eq_none {seen : List (String × String)} {ps : List Parameter}
    (h : declaredTwice? seen ps = none) :
    (ps.map Parameter.key).Nodup ∧ ∀ p ∈ ps, p.key ∉ seen := by
  induction ps generalizing seen with
  | nil => simp
  | cons p ps ih =>
      rw [declaredTwice?] at h
      split at h
      · simp at h
      · next hp =>
          obtain ⟨hn, hseen⟩ := ih h
          have hps : p.key ∉ ps.map Parameter.key := by
            intro hmem
            obtain ⟨q, hq, hk⟩ := List.mem_map.1 hmem
            exact hseen q hq (by simp [hk])
          refine ⟨List.nodup_cons.2 ⟨hps, hn⟩, fun q hq => ?_⟩
          rcases List.mem_cons.1 hq with rfl | hq
          · simpa using hp
          · exact fun hmem => hseen q hq (List.mem_cons_of_mem _ hmem)

/-! ## responses -/

/-- Putting an entry where there is none repeats no key. -/
theorem Table.nodup_keys_putNew {α : Type} {t : Table String α} (hn : t.keys.Nodup) (k : String)
    (v : α) : (t.putNew k v).keys.Nodup := by
  rw [putNew]
  split
  · exact hn
  · next h =>
      have hk : k ∉ t.keys := fun x => h ((Table.has_iff_mem_keys t k).2 x)
      have hkeys : (t ++ [(k, v)]).keys = t.keys ++ [k] := by simp [Table.keys]
      rw [hkeys]
      exact hn.append (List.nodup_singleton k) (by simpa using hk)

/-- The responses of an endpoint repeat no status. -/
theorem nodup_keys_responsesOf {c : Catalog} {e : Endpoint} {g : Gathered} {s s' : Collected}
    {responses : Table String Response}
    (h : (responsesOf c e g).run s = .ok (responses, s')) : responses.keys.Nodup := by
  obtain ⟨content, _, -, h⟩ := run_bind_ok.1 h
  obtain ⟨headers, _, -, h⟩ := run_bind_ok.1 h
  obtain ⟨declared, _, -, h⟩ := run_bind_ok.1 h
  obtain ⟨rfl, -⟩ := run_pure_ok.1 h
  have hone : ∀ (k : String) (r : Response), (Table.keys [(k, r)]).Nodup :=
    fun k _ => List.nodup_singleton k
  refine Table.nodup_keys_putAll ?_ _
  split <;> split
  · exact hone _ _
  · exact Table.nodup_keys_putNew (hone _ _) _ _
  · exact Table.nodup_keys_putNew (hone _ _) _ _
  · exact Table.nodup_keys_putNew (Table.nodup_keys_putNew (hone _ _) _ _) _ _

/-! ## routes with their operations -/

/-- A route with the operation that it compiles to. -/
structure Leaf where
  route : Route
  operation : Operation

/-- Compiles a route. -/
def leaf (c : Catalog) (r : Route) : Compiling Leaf := do return ⟨r, ← operationOf c r⟩

/-- Compiles routes, one after the other. -/
def leaves (c : Catalog) (rs : List Route) : Compiling (List Leaf) := rs.mapM (leaf c)

namespace Leaf

/-- The key of the path. -/
def key (l : Leaf) : PathKey := l.route.key

/-- The method at the path. -/
def method (l : Leaf) : Method := l.route.endpoint.method

/-- The names of the captures of the path. -/
def captures (l : Leaf) : List String := captureNames l.route.qualifiers

/-- What the compilation of a route ensures about its operation. -/
structure WellFormed (l : Leaf) : Prop where
  spelled : SpelledBy l.captures l.operation.parameters
  proper : l.operation.Proper

end Leaf

/-- A leaf has the operation of what its qualifiers add and of some responses. -/
theorem leaf_ok {c : Catalog} {r : Route} {l : Leaf} {s s' : Collected}
    (h : (leaf c r).run s = .ok (l, s')) :
    ∃ es responses t, es.map Prod.fst = r.qualifiers ∧
      declaredTwice? [] (Gathered.reading {} es).parameters = none ∧
      (responsesOf c r.endpoint (Gathered.reading {} es)).run t = .ok (responses, s') ∧
      l = ⟨r, (Gathered.reading {} es).operation r.endpoint responses⟩ := by
  obtain ⟨op, _, hop, h⟩ := run_bind_ok.1 h
  obtain ⟨rfl, rfl⟩ := run_pure_ok.1 h
  obtain ⟨g, t, hg, hop⟩ := run_bind_ok.1 hop
  obtain ⟨es, hes, rfl⟩ := Gathered.exists_reading hg
  split at hop
  · simp at hop
  · next htwice =>
      obtain ⟨responses, _, hresponses, hop⟩ := run_bind_ok.1 hop
      obtain ⟨rfl, rfl⟩ := run_pure_ok.1 hop
      exact ⟨es, responses, t, hes, htwice, hresponses, rfl⟩

/-- The operation of a route has the captures of its path, and is proper. -/
theorem wellFormed_of_leaf {c : Catalog} {r : Route} {l : Leaf} {s s' : Collected}
    (h : (leaf c r).run s = .ok (l, s')) : l.route = r ∧ l.WellFormed := by
  obtain ⟨es, responses, t, hes, htwice, hresponses, rfl⟩ := leaf_ok h
  have hparameters := Gathered.parameters_reading {} es
  rw [List.nil_append] at hparameters
  refine ⟨rfl, ⟨?_, (declaredTwice?_eq_none htwice).1, ?_⟩,
    nodup_keys_responsesOf hresponses, fun b hb => ?_⟩
  · simp only [Gathered.operation, hparameters, captured_filterMap_parameter?, hes,
      Leaf.captures]
  · intro p hp
    simp only [Gathered.operation, hparameters] at hp
    obtain ⟨hmem, hloc⟩ := mem_captured.1 hp
    obtain ⟨e, -, he⟩ := List.mem_filterMap.1 hmem
    exact Qualifier.required_of_captured (mem_captured.2 ⟨Option.mem_toList.2 he, hloc⟩)
  · rcases Gathered.body_reading hb with hnone | ⟨e, -, he⟩
    · simp at hnone
    · exact Qualifier.nodup_keys_body? he

theorem leaves_nil_ok {c : Catalog} {ls : List Leaf} {s s' : Collected} :
    (leaves c []).run s = .ok (ls, s') ↔ ls = [] ∧ s' = s := by
  rw [leaves, List.mapM_nil, run_pure_ok, eq_comm, eq_comm (a := s)]

/-- Routes are compiled one after the other. -/
theorem leaves_append_ok {c : Catalog} {rs rs' : List Route} {ls : List Leaf} {s s' : Collected} :
    (leaves c (rs ++ rs')).run s = .ok (ls, s') ↔
      ∃ ls₁ ls₂ t, (leaves c rs).run s = .ok (ls₁, t) ∧ (leaves c rs').run t = .ok (ls₂, s') ∧
        ls = ls₁ ++ ls₂ := by
  rw [leaves, List.mapM_append, run_bind_ok]
  constructor
  · rintro ⟨ls₁, t, h₁, h⟩
    obtain ⟨ls₂, t', h₂, h⟩ := run_bind_ok.1 h
    obtain ⟨rfl, rfl⟩ := run_pure_ok.1 h
    exact ⟨ls₁, ls₂, t, h₁, h₂, rfl⟩
  · rintro ⟨ls₁, ls₂, t, h₁, h₂, rfl⟩
    exact ⟨ls₁, t, h₁, run_bind_ok.2 ⟨ls₂, s', h₂, run_pure_ok.2 ⟨rfl, rfl⟩⟩⟩

theorem leaves_singleton_ok {c : Catalog} {r : Route} {ls : List Leaf} {s s' : Collected} :
    (leaves c [r]).run s = .ok (ls, s') ↔
      ∃ l, (leaf c r).run s = .ok (l, s') ∧ ls = [l] := by
  rw [leaves, List.mapM_cons, run_bind_ok]
  constructor
  · rintro ⟨l, t, hl, h⟩
    obtain ⟨ls', t', h', h⟩ := run_bind_ok.1 h
    rw [List.mapM_nil] at h'
    obtain ⟨rfl, rfl⟩ := run_pure_ok.1 h'
    obtain ⟨rfl, rfl⟩ := run_pure_ok.1 h
    exact ⟨l, hl, rfl⟩
  · rintro ⟨l, hl, rfl⟩
    exact ⟨l, s', hl, run_bind_ok.2 ⟨[], s', rfl, run_pure_ok.2 ⟨rfl, rfl⟩⟩⟩

/-- What holds of every leaf by itself holds of the leaves that routes compile to. -/
theorem forall_mem_leaves {c : Catalog} {P : Leaf → Prop}
    (hleaf : ∀ r s l s', (leaf c r).run s = .ok (l, s') → P l) {rs : List Route} {ls : List Leaf}
    {s s' : Collected} (h : (leaves c rs).run s = .ok (ls, s')) : ∀ l ∈ ls, P l := by
  induction rs generalizing s ls with
  | nil =>
      obtain ⟨rfl, -⟩ := leaves_nil_ok.1 h
      simp
  | cons r rs ih =>
      rw [← List.singleton_append] at h
      obtain ⟨ls₁, ls₂, t, h₁, h₂, rfl⟩ := leaves_append_ok.1 h
      obtain ⟨l, hl, rfl⟩ := leaves_singleton_ok.1 h₁
      rw [List.singleton_append, List.forall_mem_cons]
      exact ⟨hleaf r s l t hl, ih h₂⟩

/-- Routes compile to one leaf each, in order. -/
theorem wellFormed_of_leaves {c : Catalog} {rs : List Route} {ls : List Leaf} {s s' : Collected}
    (h : (leaves c rs).run s = .ok (ls, s')) :
    ls.map Leaf.route = rs ∧ ∀ l ∈ ls, l.WellFormed := by
  refine ⟨?_, forall_mem_leaves (fun r s l s' hl => (wellFormed_of_leaf hl).2) h⟩
  induction rs generalizing s ls with
  | nil =>
      obtain ⟨rfl, -⟩ := leaves_nil_ok.1 h
      rfl
  | cons r rs ih =>
      rw [← List.singleton_append] at h
      obtain ⟨ls₁, ls₂, t, h₁, h₂, rfl⟩ := leaves_append_ok.1 h
      obtain ⟨l, hl, rfl⟩ := leaves_singleton_ok.1 h₁
      rw [List.singleton_append, List.map_cons, (wellFormed_of_leaf hl).1, ih h₂]

/-! ## captures of a path -/

/-- A part of a key that a capture makes. -/
def PathPart.captures : PathPart → Bool
  | .literal _ => false
  | .capture | .captureAll => true

theorem length_captureNames (qs : List Qualifier) :
    (captureNames qs).length = (pathKey qs).countP PathPart.captures := by
  induction qs with
  | nil => rfl
  | cons q qs ih =>
      simp only [captureNames, pathKey, List.filterMap_cons] at ih ⊢
      cases q <;>
        simp [Qualifier.captureName?, Qualifier.pathPart?, List.countP_cons, PathPart.captures, ih]

/-- Leaves at one path have as many captures each. -/
theorem Leaf.length_captures {l l' : Leaf} (h : l.key = l'.key) :
    l.captures.length = l'.captures.length := by
  have hkey : pathKey l.route.qualifiers = pathKey l'.route.qualifiers := h
  rw [captures, captures, length_captureNames, length_captureNames, hkey]

end ApiTree
