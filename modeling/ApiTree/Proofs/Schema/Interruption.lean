import ApiTree.Proofs.Schema.Calls

/-!
# ApiTree.Proofs.Schema.Interruption

What a request leaves behind that is a conflict.  It hands out nothing, and what it had stored
before it found a name with another owner stays.  The references in what stays may lead to names
that were still to come (`Registry.leftOut`), and no others lead nowhere.

* `Registry.conflict_leaves_part` — both, for every run of calls.
-/

namespace ApiTree

/-- Nothing that a call brings refers to a name that it does not bring. -/
def Call.Closes (c : Catalog) : Call → Prop
  | .ask q => c.Closes q.ty
  | .store e => LeadsInto [e.name] e.schema

instance (c : Catalog) (call : Call) : Decidable (call.Closes c) := by
  cases call <;> rw [Call.Closes] <;> infer_instance

/-- The names of what a request is to store. -/
def Request.names (c : Catalog) (q : Request) : List String :=
  (q.derived c).toOption.toList.flatMap fun d => (q.entries c d).map (·.name)

namespace Registry

open Registering

variable {c : Catalog} {r r' : Registry} {q : Request} {d : Catalog.Derived} {es : List Entry}
  {more : List String}

/-! ## names that are left out -/

/-- The names that a call was to store and did not, where it stored others. -/
def leftOutBy (c : Catalog) (r : Registry) : Call → List String
  | .ask q =>
    let r' := r.next c (.ask q)
    if r'.names = r.names then [] else (q.names c).filter (· ∉ r'.names)
  | .store _ => []

/-- The names that calls left out, one after the other. -/
def leftOut (c : Catalog) : List Call → Registry → List String
  | [], _ => []
  | call :: calls, r => r.leftOutBy c call ++ leftOut c calls (r.next c call)

/-- The components refer to components, and to names of a list. -/
def Leads (r : Registry) (more : List String) : Prop :=
  ∀ e ∈ r.schemas, LeadsInto (r.names ++ more) e.2

theorem names_eq_of_derived (hd : q.derived c = .ok d) :
    q.names c = (q.entries c d).map (·.name) := by
  rw [Request.names, hd]
  exact List.append_nil _

theorem Leads.mono {more' : List String} (h : r.Leads more) (hsub : more ⊆ more') :
    r.Leads more' :=
  fun e he => (h e he).mono (List.append_subset.2
    ⟨List.subset_append_left _ _, List.subset_append_of_subset_right _ hsub⟩)

/-- Entries that refer to components or to other names keep what the components refer to. -/
theorem Leads.takeAll (ho : r.Owned) (h : r.Leads more)
    (hes : ∀ e ∈ es, LeadsInto ((r.takeAll es).names ++ more) e.schema) :
    (r.takeAll es).Leads more := by
  intro x hx
  rcases mem_schemas_takeAll hx with hx | ⟨e, he, hschema⟩
  · refine (h x hx).mono (List.append_subset.2 ⟨fun n hn => ?_, List.subset_append_right _ _⟩)
    exact List.mem_append_left _ ((mem_names_takeAll ho).2 (.inl hn))
  · exact hschema ▸ hes e he

/-- What a request stores refers to nothing but what it stores. -/
theorem leadsInto_entries (hclosed : c.Closes q.ty) (hd : q.derived c = .ok d) :
    ∀ e ∈ q.entries c d, LeadsInto ((q.entries c d).map (·.name)) e.schema := by
  have hdefinitions (owners : Table String (List String)) (ds : Table String Schema) :
      (entriesOfDefinitions owners ds).map (·.name) = ds.keys := by
    rw [entriesOfDefinitions, List.map_map]
    rfl
  have hentries (owners : Table String (List String)) (ds : Table String Schema)
      (h : ∀ e ∈ ds, LeadsInto ds.keys e.2) :
      ∀ e ∈ entriesOfDefinitions owners ds, LeadsInto ds.keys e.schema := by
    intro e he
    obtain ⟨x, hx, rfl⟩ := List.mem_map.1 he
    exact h x hx
  cases q with
  | body t =>
      have hd' := hclosed d hd
      intro e he
      rw [Request.entries, Request.entriesAmong, List.map_append, hdefinitions]
      rcases List.mem_append.1 he with he | he
      · exact (hentries _ _ hd'.definitions e he).mono (List.subset_append_left _ _)
      · obtain ⟨n, -, rfl⟩ := List.mem_map.1 he
        exact hd'.schema.mono (List.subset_append_left _ _)
  | parameter t =>
      obtain ⟨d', hd', rfl⟩ := derived_parameter_ok hd
      rw [Request.entries, Request.entriesAmong, hdefinitions]
      exact hentries _ _ (Catalog.Derived.closed_inPlace (hclosed d' hd')).definitions

/-- A request leads to components, or to names that it left out. -/
theorem Leads.ask (ho : r.Owned) (h : r.Leads more) (hq : c.Closes q.ty) :
    (r.next c (.ask q)).Leads (more ++ r.leftOutBy c (.ask q)) := by
  have hcourse := course_answer (c := c) r q
  have hnext : r.next c (.ask q) = ((answer c q).run.run r).2 := rfl
  rw [leftOutBy, hnext]
  generalize (answer c q).run.run r = x at hcourse
  cases hcourse with
  | remembered s hs => exact h.mono (List.subset_append_left _ _)
  | refused f => exact h.mono (List.subset_append_left _ _)
  | stored d hd =>
      have hentries := leadsInto_entries hq hd
      have htake : (r.takeAll (q.entries c d)).Leads more := by
        refine h.takeAll ho fun e he => (hentries e he).mono fun n hn => ?_
        obtain ⟨e', he', rfl⟩ := List.mem_map.1 hn
        exact List.mem_append_left _ ((mem_names_takeAll ho).2 (.inr ⟨e', he', rfl⟩))
      exact Leads.mono htake (List.subset_append_left _ _)
  | stopped d before e owner hd hstops =>
      have hentries := leadsInto_entries hq hd
      obtain ⟨rest, hsplit⟩ := hstops.split
      dsimp only
      split
      · next hnames =>
          -- nothing new came before the name that has another owner
          have hsame : r.takeAll before = r := takeAll_of_taken ho fun e he => by
            rw [← hnames]
            exact (mem_names_takeAll ho).2 (.inr ⟨e, he, rfl⟩)
          rw [hsame]
          exact h.mono (List.subset_append_left _ _)
      · refine (h.mono (List.subset_append_left _ _)).takeAll ho fun e he => ?_
        have hmem : e ∈ q.entries c d := hsplit ▸ List.mem_append_left _ he
        refine (hentries e hmem).mono fun n hn => ?_
        by_cases hin : n ∈ (r.takeAll before).names
        · exact List.mem_append_left _ hin
        · refine List.mem_append_right _ (List.mem_append_right _ (List.mem_filter.2 ?_))
          refine ⟨?_, by simpa⟩
          rwa [names_eq_of_derived hd]

theorem Leads.next (ho : r.Owned) (h : r.Leads more) {call : Call} (hcall : call.Closes c) :
    (r.next c call).Leads (more ++ r.leftOutBy c call) := by
  cases call with
  | ask q => exact h.ask ho hcall
  | store e =>
      rw [leftOutBy, List.append_nil, Registry.next, make]
      rcases run_register_cases r e with hrun | ⟨owner, -, -, hrun⟩ <;> rw [hrun]
      · have hone : (r.takeAll [e]).Leads more := by
          refine h.takeAll ho fun e' he' => ?_
          obtain rfl := List.mem_singleton.1 he'
          refine LeadsInto.mono hcall fun n hn => ?_
          obtain rfl := List.mem_singleton.1 hn
          exact List.mem_append_left _ ((mem_names_takeAll ho).2 (.inr ⟨e', he', rfl⟩))
        exact hone
      · exact h

/-- Whatever calls were made, the components refer to components, or to names that were left
out. -/
theorem Leads.after {calls : List Call} (h : r.Leads more) (ho : r.Owned)
    (hcalls : ∀ call ∈ calls, call.Closes c) :
    (Registry.after c calls r).Leads (more ++ leftOut c calls r) := by
  induction calls generalizing r more with
  | nil => exact h.mono (List.subset_append_left _ _)
  | cons call calls ih =>
      obtain ⟨hcall, hcalls⟩ := List.forall_mem_cons.1 hcalls
      rw [leftOut, ← List.append_assoc]
      exact ih (h.next ho hcall) (owned_next ho call) hcalls

/-! ## conflicts -/

/-- The conflict that came of a call, if one did. -/
def conflictOf? {α : Type} : Except Fault α → Option Conflict
  | .error (.conflict k) => some k
  | _ => none

theorem eq_of_conflictOf? {α : Type} {x : Except Fault α} {k : Conflict}
    (h : conflictOf? x = some k) : x = .error (.conflict k) := by
  cases x with
  | ok a => simp [conflictOf?] at h
  | error f => cases f <;> simp_all [conflictOf?]

/-- A conflict leaves what was stored before it.  A request that is a conflict, after any calls
that may have failed, hands out nothing.  It leaves the registry as it was, unless something new
came before the first of its names that has another owner, which then stays.  So, where no call
brings references to what it does not bring, every reference in the components resolves or leads
to a name that a conflict left out. -/
theorem conflict_leaves_part (c : Catalog) (calls : List Call) :
    (∀ q k r', (answer c q).run.run (after c calls {}) = (.error (.conflict k), r') →
      r'.usage = (after c calls {}).usage ∧
      (r' = after c calls {} ∨ ∃ d before e owner, q.derived c = .ok d ∧
        (after c calls {}).Stops (q.entries c d) before e owner ∧
        k = ⟨e.name, .claimedByBoth owner e.identity⟩ ∧ r' = (after c calls {}).takeAll before ∧
        ∃ a ∈ before, a.name ∉ (after c calls {}).names)) ∧
    ((∀ call ∈ calls, call.Closes c) → ∀ e ∈ (after c calls {}).schemas,
      ∀ ref ∈ Reference.all (.obj e.2), (∃ j, (after c calls {}).resolve ref = .ok j) ∨
        ∃ n ∈ leftOut c calls {}, ref = Reference.pathTo n) := by
  have ho := owned_after c calls
  constructor
  · intro q k r' h
    have hcourse := course_answer (c := c) (after c calls {}) q
    rw [h] at hcourse
    cases hcourse with
    | refused f => exact ⟨rfl, .inl rfl⟩
    | stopped d before e owner hd hstops =>
        refine ⟨usage_takeAll _ _, ?_⟩
        by_cases hnew : ∃ a ∈ before, a.name ∉ (after c calls {}).names
        · exact .inr ⟨d, before, e, owner, hd, hstops, rfl, rfl, hnew⟩
        · simp only [not_exists, not_and, not_not] at hnew
          exact .inl (takeAll_of_taken ho hnew)
  · intro hcalls e he ref href
    have hempty : ({} : Registry).Leads [] := by simp [Leads]
    obtain ⟨n, hn, rfl⟩ := hempty.after owned_empty hcalls e he ref href
    rcases List.mem_append.1 hn with hn | hn
    · exact .inl (exists_resolve_of_mem hn)
    · exact .inr ⟨n, hn, rfl⟩

/-- Items, archived items, labels, and a cart with an archived item that has a label. -/
def archive : Catalog :=
  [{ name := "Item", qualname := "Item"
     form := .model [{ name := "price", ty := .scalar .int }] .ignored none [] },
    { name := "Item", qualname := "Archive.Item"
      form := .model [{ name := "year", ty := .scalar .int }] .ignored none [] },
    { name := "Label", qualname := "Label"
      form := .model [{ name := "text", ty := .scalar .str }] .ignored none [] },
    { name := "Cart", qualname := "Cart"
      form := .model [{ name := "item", ty := .cls 1 }, { name := "label", ty := .cls 2 }] .ignored
        none [] }]

/-- After items were asked for, carts are a conflict that comes between the cart, which stays, and
its label, which is left out. -/
theorem archive_leaves_part :
    (∃ k r', (answer archive (.body (.each .list (.cls 3)))).run.run
        (after archive [.ask (.body (.cls 0))] {}) = (.error (.conflict k), r') ∧
      k.identity = "Item" ∧ r'.names = ["Item", "Cart"] ∧
      r'.usage = (after archive [.ask (.body (.cls 0))] {}).usage) ∧
    ∀ e ∈ (after archive [.ask (.body (.cls 0)), .ask (.body (.each .list (.cls 3)))] {}).schemas,
      ∀ ref ∈ Reference.all (.obj e.2),
        (∃ j, (after archive [.ask (.body (.cls 0)),
          .ask (.body (.each .list (.cls 3)))] {}).resolve ref = .ok j) ∨
        ref = Reference.pathTo "Label" := by
  constructor
  · let q : Request := .body (.each .list (.cls 3))
    let r := after archive [.ask (.body (.cls 0))] {}
    have hconflict : (conflictOf? ((answer archive q).run.run r).1).map (·.identity) =
        some "Item" := by decide +kernel
    have hnames : ((answer archive q).run.run r).2.names = ["Item", "Cart"] := by decide +kernel
    obtain ⟨k, hk, hidentity⟩ := Option.map_eq_some_iff.1 hconflict
    obtain ⟨r', hr'⟩ : ∃ r', ((answer archive q).run.run r).2 = r' := ⟨_, rfl⟩
    have h : (answer archive q).run.run r = (.error (.conflict k), r') :=
      Prod.ext (eq_of_conflictOf? hk) hr'
    obtain ⟨husage, -⟩ := (conflict_leaves_part archive [.ask (.body (.cls 0))]).1 q k r' h
    exact ⟨k, r', h, hidentity, hr' ▸ hnames, husage⟩
  · intro e he ref href
    have hclosed : ∀ call ∈
        ([.ask (.body (.cls 0)), .ask (.body (.each .list (.cls 3)))] : List Call),
        call.Closes archive := by decide +kernel
    have hout : leftOut archive [.ask (.body (.cls 0)), .ask (.body (.each .list (.cls 3)))] {} =
        ["Label"] := by decide +kernel
    refine ((conflict_leaves_part archive _).2 hclosed e he ref href).imp_right ?_
    rintro ⟨n, hn, rfl⟩
    rw [hout] at hn
    rw [List.mem_singleton.1 hn]

/-- The cart refers to a label, and there is none. -/
theorem archive_label_missing : ∃ e ∈ (after archive [.ask (.body (.cls 0)),
    .ask (.body (.each .list (.cls 3)))] {}).schemas,
    Reference.pathTo "Label" ∈ Reference.all (.obj e.2) ∧
      "Label" ∉ (after archive [.ask (.body (.cls 0)),
        .ask (.body (.each .list (.cls 3)))] {}).names := by
  decide +kernel

end Registry
end ApiTree
