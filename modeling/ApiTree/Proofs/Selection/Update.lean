import ApiTree.Proofs.Compilation.Operations
import ApiTree.Selection.Update
import Mathlib.Data.Set.List

/-!
# ApiTree.Proofs.Selection.Update

What changing selected operations does.  The keys of a selection may share a path, and the path
is then written once for each of them, so a change is told by key: it sets the operation of its own
key (`operationAt_setOperation_self`) and leaves what all other keys lead to as it is
(`lookupAt_after_of_ne`).  As each key comes up once, every change starts from what the original
document has.

A key that names no method may lead to what all path items have in common.  Its change sets no
operation, but it may stop a later change at the same path (`Changing.hindrance?`).  A run of
changes goes through if no key stands in the way of a later one (`Document.Changes`).

* `applyOverM_once_per_key` — a selection with an absent operation is refused before anything is
  changed; else the change is run once for each key, on what the document has there.
-/

namespace ApiTree

open PathItem (Member)

/-- A key that names its method as documents do, in lower case. -/
def OperationKey.Exact (k : OperationKey) : Prop := ∃ m : Method, k.method = m.name

/-- The operation of a key is in the document. -/
def Document.Has [PathItem.Base] (d : Document) (k : OperationKey) : Prop :=
  ∃ op, d.operation k.path k.method = .ok (.operation op)

/-- The second document is the first one with the given operations at the given keys. -/
structure Document.Updated [PathItem.Base] (d : Document) (keys : List OperationKey)
    (changed : List Operation) (d' : Document) : Prop where
  others : { d' with paths := d.paths } = d
  order : d'.paths.keys = d.paths.keys
  at_keys : keys.map (fun k => d'.operation k.path k.method) =
    changed.map fun op => .ok (.operation op)
  elsewhere : ∀ path (m : Method), ⟨path, m.name⟩ ∉ keys →
    d'.operation path m.name = d.operation path m.name

namespace Method

/-- The name of a method is in lower case. -/
theorem lower_name (m : Method) : Case.lower m.name = m.name := by
  cases m <;> decide +kernel

/-- A method is read from its own name only. -/
theorem eq_name_of_ofName? {s : String} {m : Method} (h : ofName? s = some m) : s = m.name := by
  have hname := List.find?_some h
  exact (eq_of_beq hname).symm

end Method

namespace OperationKey

variable {k : OperationKey}

/-- A key is exact if its method can be read. -/
theorem exact_iff : k.Exact ↔ (Method.ofName? k.method).isSome = true := by
  rw [Option.isSome_iff_exists]
  constructor
  · rintro ⟨m, hm⟩
    exact ⟨m, hm ▸ m.ofName?_name⟩
  · rintro ⟨m, hm⟩
    exact ⟨m, Method.eq_name_of_ofName? hm⟩

/-- The method of any other key cannot be read. -/
theorem ofName?_eq_none (h : ¬ k.Exact) : Method.ofName? k.method = none := by
  rwa [exact_iff, Bool.not_eq_true, Option.isSome_eq_false_iff, Option.isNone_iff_eq_none] at h

instance (k : OperationKey) : Decidable k.Exact := decidable_of_iff _ exact_iff.symm

/-- What stops later changes at the path of a key, once what it leads to has been changed: nothing
if that is an operation. -/
def hindrance? [PathItem.Base] (k : OperationKey) : Option Fault :=
  if k.Exact then none else PathItem.hindrance? k.method

/-- A change of an operation stands in the way of nothing. -/
theorem hindrance?_of_exact [PathItem.Base] (h : k.Exact) : k.hindrance? = none := if_pos h

end OperationKey

namespace Document

/-! ## operations by key -/

/-- The operation of a key among paths. -/
def operationAt (paths : Table String PathItem) (k : OperationKey) : Option Operation :=
  (Method.ofName? k.method).bind (operationIn paths k.path)

/-- The paths with the operation of a key set, if its path is there. -/
def setOperation (paths : Table String PathItem) (k : OperationKey) (op : Operation) :
    Table String PathItem :=
  match Method.ofName? k.method, paths.find? k.path with
  | some m, some item => paths.put k.path (item.set m op)
  | _, _ => paths

section Operations

variable {paths : Table String PathItem} {k : OperationKey} {op : Operation}

/-- An operation stands in a path item, under the name of its method. -/
theorem exists_item_of_operationAt (h : operationAt paths k = some op) :
    ∃ m item, k.method = m.name ∧ paths.find? k.path = some item ∧ item.operation m = some op := by
  obtain ⟨m, hm, h⟩ := Option.bind_eq_some_iff.1 h
  obtain ⟨item, hitem, hop⟩ := Option.bind_eq_some_iff.1 h
  exact ⟨m, item, Method.eq_name_of_ofName? hm, hitem, hop⟩

/-- Setting an operation sets it in its path item. -/
theorem setOperation_eq {m : Method} {item : PathItem} (hm : k.method = m.name)
    (hitem : paths.find? k.path = some item) (op : Operation) :
    setOperation paths k op = paths.put k.path (item.set m op) := by
  rw [setOperation, hm, m.ofName?_name, hitem]

/-- A key that names no method has no operation to set. -/
theorem setOperation_of_not_exact (hk : ¬ k.Exact) (op : Operation) :
    setOperation paths k op = paths := by
  rw [setOperation, OperationKey.ofName?_eq_none hk]

/-- Setting an operation keeps the paths and their order. -/
theorem keys_setOperation (paths : Table String PathItem) (k : OperationKey) (op : Operation) :
    (setOperation paths k op).keys = paths.keys := by
  rw [setOperation]
  split
  · next hitem => exact Table.keys_put_of_mem ((Table.mem_keys_iff paths k.path).2 ⟨_, hitem⟩) _
  · rfl

/-- An operation that is set stands in its place. -/
theorem operationAt_setOperation_self {old : Operation} (h : operationAt paths k = some old)
    (op : Operation) : operationAt (setOperation paths k op) k = some op := by
  obtain ⟨m, item, hm, hitem, -⟩ := exists_item_of_operationAt h
  rw [setOperation_eq hm hitem, operationAt, hm, m.ofName?_name, Option.bind_some, operationIn,
    Table.find?_put_self, Option.bind_some, item.operation_set_self]

/-- Keys at one path that differ have different methods. -/
theorem method_ne_of_ne {k' : OperationKey} (hne : k' ≠ k) (hpath : k'.path = k.path)
    {m m' : Method} (hm : Method.ofName? k.method = some m)
    (hm' : Method.ofName? k'.method = some m') : m' ≠ m := by
  rintro rfl
  have hname : k'.method = k.method :=
    (Method.eq_name_of_ofName? hm').trans (Method.eq_name_of_ofName? hm).symm
  exact hne (by cases k; cases k'; cases hpath; cases hname; rfl)

/-- Setting an operation leaves every other one. -/
theorem operationAt_setOperation_of_ne {k' : OperationKey} (hne : k' ≠ k) (op : Operation) :
    operationAt (setOperation paths k op) k' = operationAt paths k' := by
  rw [setOperation]
  split
  · next m item hm hitem =>
      rw [operationAt, operationAt]
      cases hm' : Method.ofName? k'.method with
      | none => rfl
      | some m' =>
          rw [Option.bind_some, Option.bind_some, operationIn, operationIn]
          by_cases hpath : k'.path = k.path
          · rw [hpath, Table.find?_put_self, hitem, Option.bind_some, Option.bind_some,
              item.operation_set_of_ne op (method_ne_of_ne hne hpath hm hm')]
          · rw [Table.find?_put_of_ne _ _ hpath]
  · rfl

/-- The paths with several operations set, one after the other. -/
def setOperations (paths : Table String PathItem) (edits : List (OperationKey × Operation)) :
    Table String PathItem :=
  edits.foldl (fun paths e => setOperation paths e.1 e.2) paths

/-- Setting operations leaves the order of the paths. -/
theorem keys_setOperations (paths : Table String PathItem)
    (edits : List (OperationKey × Operation)) :
    (setOperations paths edits).keys = paths.keys := by
  induction edits generalizing paths with
  | nil => rfl
  | cons e edits ih => exact (ih _).trans (keys_setOperation paths e.1 e.2)

/-- Setting operations leaves every operation that is not among them. -/
theorem operationAt_setOperations_of_notMem {edits : List (OperationKey × Operation)}
    (h : k ∉ edits.map Prod.fst) (paths : Table String PathItem) :
    operationAt (setOperations paths edits) k = operationAt paths k := by
  induction edits generalizing paths with
  | nil => rfl
  | cons e edits ih =>
      obtain ⟨hne, hrest⟩ := not_or.1 (List.mem_cons.not.1 h)
      exact (ih hrest _).trans (operationAt_setOperation_of_ne hne e.2)

/-- Of keys that differ, each has the operation that was set for it. -/
theorem operationAt_setOperations {edits : List (OperationKey × Operation)}
    (hn : (edits.map Prod.fst).Nodup) {e : OperationKey × Operation} (he : e ∈ edits)
    (paths : Table String PathItem) {old : Operation} (hold : operationAt paths e.1 = some old) :
    operationAt (setOperations paths edits) e.1 = some e.2 := by
  induction edits generalizing paths old with
  | nil => simp at he
  | cons e' edits ih =>
      obtain ⟨he', hn⟩ := List.nodup_cons.1 hn
      rcases List.mem_cons.1 he with rfl | he
      · exact (operationAt_setOperations_of_notMem he' _).trans
          (operationAt_setOperation_self hold e.2)
      · have hne : e.1 ≠ e'.1 := ne_of_mem_of_not_mem (List.mem_map_of_mem he) he'
        exact ih hn he _ ((operationAt_setOperation_of_ne hne e'.2).trans hold)

/-- Only the changes of keys in lower case set an operation. -/
theorem setOperations_filter (paths : Table String PathItem)
    (edits : List (OperationKey × Operation)) :
    setOperations paths (edits.filter (·.1.Exact)) = setOperations paths edits := by
  induction edits generalizing paths with
  | nil => rfl
  | cons e edits ih =>
      by_cases he : e.1.Exact
      · rw [List.filter_cons_of_pos (by simpa using he)]
        exact ih _
      · rw [List.filter_cons_of_neg (by simpa using he), ih]
        change _ = setOperations (setOperation paths e.1 e.2) edits
        rw [setOperation_of_not_exact he]

end Operations

/-! ## what keys lead to -/

/-- What a key leads to among paths, under the exact name of its method. -/
def lookupAt [PathItem.Base] (paths : Table String PathItem) (k : OperationKey) :
    Except Fault Member :=
  match paths.find? k.path with
  | some item => item.lookup k.method
  | none => .error (.missingKey k.path)

section Lookup

variable [PathItem.Base] {paths : Table String PathItem} {k : OperationKey} {op : Operation}
  {d : Document}

/-- Looking up the name of a method gives its operation. -/
theorem lookup_of_exact (hk : k.Exact) (item : PathItem) :
    item.lookup k.method = .ok (.ofOperation ((Method.ofName? k.method).bind item.operation)) := by
  obtain ⟨m, hm⟩ := hk
  rw [PathItem.lookup, hm, m.ofName?_name, Option.bind_some]

/-- Any other name gives the same in every path item. -/
theorem lookup_of_not_exact (hk : ¬ k.Exact) (item item' : PathItem) :
    item.lookup k.method = item'.lookup k.method := by
  rw [PathItem.lookup, PathItem.lookup, OperationKey.ofName?_eq_none hk]

/-- A key in lower case finds the operation that it has. -/
theorem operation_eq_operationAt (d : Document) (hk : k.Exact) :
    d.operation k.path k.method = .ok (.ofOperation (operationAt d.paths k)) := by
  obtain ⟨m, hm⟩ := hk
  rw [operation, operationAt, hm, m.lower_name, m.ofName?_name, Option.bind_some, operationIn]
  cases d.paths.find? k.path with
  | none => rfl
  | some item => simp only [PathItem.lookup, m.ofName?_name, Option.bind_some]

/-- Operations are found by their exact keys. -/
theorem map_operation_eq {keys : List OperationKey} (d : Document) (hexact : ∀ k ∈ keys, k.Exact)
    {ops : List Operation} (h : keys.map (operationAt d.paths) = ops.map some) :
    keys.map (fun k => d.operation k.path k.method) = ops.map fun op => .ok (.operation op) := by
  rw [List.map_congr_left fun k hk => operation_eq_operationAt d (hexact k hk)]
  simpa only [List.map_map, Function.comp_def, Member.ofOperation_some] using
    congrArg (List.map fun o => (.ok (.ofOperation o) : Except Fault Member)) h

/-- An exact key has an operation if one stands in its place. -/
theorem has_iff_operationAt (d : Document) (hk : k.Exact) :
    d.Has k ↔ ∃ op, operationAt d.paths k = some op := by
  simp only [Has, operation_eq_operationAt d hk, Except.ok.injEq,
    Member.ofOperation_eq_operation_iff]

/-- Keys that are all in a document have a list of operations there. -/
theorem exists_map_operationAt_eq {keys : List OperationKey} (hexact : ∀ k ∈ keys, k.Exact)
    (hhas : ∀ k ∈ keys, d.Has k) :
    ∃ ops : List Operation, keys.map (operationAt d.paths) = ops.map some := by
  have hrange : keys.map (operationAt d.paths) ∈ Set.range (List.map some) := by
    rw [Set.range_list_map]
    intro o ho
    obtain ⟨k, hk, rfl⟩ := List.mem_map.1 ho
    obtain ⟨op, hop⟩ := (has_iff_operationAt d (hexact k hk)).1 (hhas k hk)
    exact ⟨op, hop.symm⟩
  obtain ⟨ops, hops⟩ := hrange
  exact ⟨ops, hops.symm⟩

/-- What a key leads to is in a path item. -/
theorem exists_item_of_lookupAt {x : Member} (h : lookupAt paths k = .ok x) :
    ∃ item, paths.find? k.path = some item ∧ item.lookup k.method = .ok x := by
  rw [lookupAt] at h
  split at h
  · next item hitem => exact ⟨item, hitem, h⟩
  · cases h

/-- A key in lower case leads to the operation that it has. -/
theorem lookupAt_of_operationAt (h : operationAt paths k = some op) :
    lookupAt paths k = .ok (.operation op) := by
  obtain ⟨m, item, hm, hitem, hop⟩ := exists_item_of_operationAt h
  rw [lookupAt, hitem]
  dsimp only
  rw [PathItem.lookup, hm, m.ofName?_name]
  dsimp only
  rw [hop, Member.ofOperation_some]

/-- Setting an operation leaves alone what all other keys lead to. -/
theorem lookupAt_setOperation_of_ne {k' : OperationKey} (hne : k' ≠ k) (op : Operation) :
    lookupAt (setOperation paths k op) k' = lookupAt paths k' := by
  rw [setOperation]
  split
  · next m item hm hitem =>
      rw [lookupAt, lookupAt]
      by_cases hpath : k'.path = k.path
      · rw [hpath, Table.find?_put_self, hitem]
        dsimp only
        by_cases hk' : k'.Exact
        · rw [lookup_of_exact hk', lookup_of_exact hk']
          cases hm' : Method.ofName? k'.method with
          | none => rfl
          | some m' =>
              rw [Option.bind_some, Option.bind_some,
                item.operation_set_of_ne op (method_ne_of_ne hne hpath hm hm')]
        · exact lookup_of_not_exact hk' _ _
      · rw [Table.find?_put_of_ne _ _ hpath]
  · rfl

/-- Setting operations leaves what another key leads to. -/
theorem lookupAt_setOperations_of_notMem {edits : List (OperationKey × Operation)}
    (h : k ∉ edits.map Prod.fst) (paths : Table String PathItem) :
    lookupAt (setOperations paths edits) k = lookupAt paths k := by
  induction edits generalizing paths with
  | nil => rfl
  | cons e edits ih =>
      obtain ⟨hne, hrest⟩ := not_or.1 (List.mem_cons.not.1 h)
      exact (ih hrest _).trans (lookupAt_setOperation_of_ne hne e.2)

end Lookup

/-! ## checking a selection -/

section Check

variable [PathItem.Base] {d : Document} {k : OperationKey} {keys before : List OperationKey}

/-- A key is found if it leads to something, its method taken in lower case. -/
def Finds (d : Document) (k : OperationKey) : Prop :=
  ∃ x, d.operation k.path k.method = .ok x ∧ x ≠ .absent

/-- A key with an operation is found. -/
theorem Has.finds (h : d.Has k) : d.Finds k := by
  obtain ⟨op, hop⟩ := h
  exact ⟨_, hop, by simp⟩

/-- A check passes over a key that is found. -/
theorem checkSelected_cons_of_finds (h : d.Finds k) (keys : List OperationKey) :
    d.checkSelected (k :: keys) = d.checkSelected keys := by
  obtain ⟨x, hx, hne⟩ := h
  rw [checkSelected, hx]
  cases x with
  | absent => exact absurd rfl hne
  | operation op => rfl
  | common name kind => rfl

/-- The check lets keys pass that are found. -/
theorem checkSelected_eq_ok (h : ∀ k ∈ keys, d.Finds k) : d.checkSelected keys = .ok () := by
  induction keys with
  | nil => rfl
  | cons k keys ih =>
      rw [checkSelected_cons_of_finds (h k List.mem_cons_self)]
      exact ih fun k' hk' => h k' (List.mem_cons_of_mem _ hk')

/-- The first key that is refused is the one that is reported. -/
theorem checkSelected_append_cons {after : List OperationKey} {fault : Fault}
    (hbefore : ∀ k ∈ before, d.Finds k) (hk : d.checkSelected [k] = .error fault) :
    d.checkSelected (before ++ k :: after) = .error fault := by
  induction before with
  | nil =>
      rw [List.nil_append, checkSelected]
      rw [checkSelected] at hk
      cases hop : d.operation k.path k.method with
      | error e => rwa [hop] at hk
      | ok x =>
          rw [hop] at hk
          cases x with
          | absent => exact hk
          | operation op => cases hk
          | common name kind => cases hk
  | cons b before ih =>
      rw [List.cons_append, checkSelected_cons_of_finds (hbefore b List.mem_cons_self)]
      exact ih fun k' hk' => hbefore k' (List.mem_cons_of_mem _ hk')

/-- The check stops at a key that leads to nothing. -/
theorem checkSelected_of_absent (h : d.operation k.path k.method = .ok .absent) :
    d.checkSelected [k] = .error (.conflict ⟨k.title, .notInDocument⟩) := by
  rw [checkSelected, h]
  rfl

/-- The first absent key is the one that is reported. -/
theorem checkSelected_eq_error {after : List OperationKey} (hbefore : ∀ k ∈ before, d.Has k)
    (hk : k.Exact) (habsent : ¬ d.Has k) :
    d.checkSelected (before ++ k :: after) = .error (.conflict ⟨k.title, .notInDocument⟩) := by
  have hnone : operationAt d.paths k = none := by
    rw [has_iff_operationAt d hk] at habsent
    exact Option.eq_none_iff_forall_ne_some.2 (not_exists.1 habsent)
  refine checkSelected_append_cons (fun k hk => (hbefore k hk).finds) (checkSelected_of_absent ?_)
  rw [operation_eq_operationAt d hk, hnone, Member.ofOperation_none]

omit [PathItem.Base] in
/-- A key that comes after others stays right behind them when repetitions are left out. -/
theorem eraseDups_append_cons (h : k ∉ before) (after : List OperationKey) : ∃ after',
    (before ++ k :: after).eraseDups = before.eraseDups ++ k :: after' := by
  rw [eraseDups_append_eq, List.eraseDups_cons, List.filter_cons_of_pos (by simpa using h)]
  exact ⟨_, rfl⟩

end Check

/-! ## changes one after the other -/

namespace Changing

/-- The state after a change of what a key leads to. -/
def after (s : Changing) (e : OperationKey × Operation) : Changing where
  paths := setOperation s.paths e.1 e.2
  replaced := if e.1.Exact then s.replaced else s.replaced ++ [e.1]

/-- Changes that go through set the operations. -/
theorem paths_foldl_after (s : Changing) (edits : List (OperationKey × Operation)) :
    (edits.foldl after s).paths = setOperations s.paths edits := by
  induction edits generalizing s with
  | nil => rfl
  | cons e edits ih => exact ih _

variable [PathItem.Base] {s : Changing} {k : OperationKey}

/-- A change may stop later ones at its path, and no others. -/
theorem hindrance?_after (s : Changing) (e : OperationKey × Operation) (path : String) :
    (s.after e).hindrance? path =
      (s.hindrance? path).or (if e.1.path = path then e.1.hindrance? else none) := by
  rw [hindrance?, hindrance?, after, OperationKey.hindrance?]
  by_cases hk : e.1.Exact
  · simp [hk]
  · simp [hk, List.findSome?_append]

/-- What stops changes at a path after some changes: what stopped them before, or else the first
of the changed keys that does. -/
theorem hindrance?_foldl_after (s : Changing) (edits : List (OperationKey × Operation))
    (path : String) : (edits.foldl after s).hindrance? path = (s.hindrance? path).or
      ((edits.map Prod.fst).findSome? fun k => if k.path = path then k.hindrance? else none) := by
  induction edits generalizing s with
  | nil => simp
  | cons e edits ih =>
      rw [List.foldl_cons, ih, hindrance?_after, List.map_cons, List.findSome?_cons,
        Option.or_assoc]
      congr 1
      cases (if e.1.path = path then e.1.hindrance? else none) <;> rfl

/-- Where nothing stops it, an operation takes the place of what a key leads to. -/
theorem put_eq {item : PathItem} (hitem : s.paths.find? k.path = some item)
    (hfree : s.hindrance? k.path = none) (op : Operation) :
    s.put item k op = .ok (s.after (k, op)) := by
  rw [put, hfree, after]
  dsimp only
  cases hm : Method.ofName? k.method with
  | none =>
      have hk : ¬ k.Exact := by rw [OperationKey.exact_iff, hm]; simp
      rw [setOperation_of_not_exact hk, if_neg hk]
  | some m =>
      have hname := Method.eq_name_of_ofName? hm
      rw [setOperation_eq hname hitem, if_pos ⟨m, hname⟩]

end Changing

/-- Keys lead to some members, and none of them stops the change of a later one. -/
structure Changes [PathItem.Base] (d : Document) (keys : List OperationKey)
    (members : List Member) : Prop where
  found : keys.map (lookupAt d.paths) = members.map .ok
  free : keys.Pairwise fun a b => a.path = b.path → a.hindrance? = none

section Lift

variable {m : Type → Type} [Monad m] {α : Type}

/-- A step that goes through without an action is its outcome. -/
theorem liftM_ok (a : α) :
    (liftM (Except.ok a : Except Fault α) : ExceptT Fault m α) = pure a := rfl

/-- A step that fails ends the run. -/
theorem liftM_error (fault : Fault) :
    (liftM (Except.error fault : Except Fault α) : ExceptT Fault m α) = throw fault := rfl

end Lift

section Run

variable [PathItem.Base] {m : Type → Type} [Monad m] [LawfulMonad m] {s : Changing}
  {k : OperationKey} {x : Member} {fault : Fault}

omit [PathItem.Base] in
/-- An action and then a step that may fail. -/
theorem run_lift_bind {α β : Type} (a : m α) (g : α → Except Fault β) :
    ((liftM a : ExceptT Fault m α) >>= fun y => (liftM (g y) : ExceptT Fault m β)).run =
      a >>= fun y => pure (g y) := by
  have hlift : (liftM a : ExceptT Fault m α).run = Except.ok <$> a := rfl
  rw [ExceptT.run_bind, hlift, bind_map_left]
  exact bind_congr fun y => rfl

/-- A change runs the action on what its key leads to, before the path item is copied. -/
theorem run_changeAt_of_lookup {item : PathItem} (hitem : s.paths.find? k.path = some item)
    (h : item.lookup k.method = .ok x) (f : Member → m Operation) :
    (changeAt f s k).run = f x >>= fun op => pure (s.put item k op) := by
  rw [← run_lift_bind, changeAt, hitem]
  simp only [h, liftM_ok, pure_bind]

/-- One change runs the action on what its key leads to, and puts the outcome in its place. -/
theorem run_changeAt (h : lookupAt s.paths k = .ok x) (hfree : s.hindrance? k.path = none)
    (f : Member → m Operation) :
    (changeAt f s k).run = f x >>= fun op => pure (.ok (s.after (k, op))) := by
  obtain ⟨item, hitem, h⟩ := exists_item_of_lookupAt h
  simp only [run_changeAt_of_lookup hitem h, Changing.put_eq hitem hfree]

/-- An earlier change can stop a change, after the action has been run. -/
theorem run_changeAt_of_hindrance (h : lookupAt s.paths k = .ok x)
    (hstop : s.hindrance? k.path = some fault) (f : Member → m Operation) :
    (changeAt f s k).run = f x >>= fun _ => pure (.error fault) := by
  obtain ⟨item, hitem, h⟩ := exists_item_of_lookupAt h
  simp only [run_changeAt_of_lookup hitem h, Changing.put, hstop]

/-- A key that leads to nothing stops the run. -/
theorem run_changeAt_of_error (h : lookupAt s.paths k = .error fault) (f : Member → m Operation) :
    (changeAt f s k).run = pure (.error fault) := by
  rw [lookupAt] at h
  cases hitem : s.paths.find? k.path with
  | none =>
      rw [hitem] at h
      obtain rfl := Except.error.inj h
      simp only [changeAt, hitem]
      rfl
  | some item =>
      rw [hitem] at h
      simp only [changeAt, hitem, h, liftM_error, ExceptT.run_bind, ExceptT.run_throw, pure_bind]

/-- The changes of keys that differ run the action on what the keys lead to at the start, in their
order. -/
theorem run_foldlM_changeAt {keys : List OperationKey} {members : List Member} (hn : keys.Nodup)
    (hfound : keys.map (lookupAt s.paths) = members.map .ok)
    (hfree : keys.Pairwise fun a b => a.path = b.path → a.hindrance? = none)
    (hstart : ∀ k ∈ keys, s.hindrance? k.path = none) (f : Member → m Operation) :
    (keys.foldlM (changeAt f) s).run = members.mapM f >>= fun changed =>
      pure (.ok ((keys.zip changed).foldl Changing.after s)) := by
  induction keys generalizing s members with
  | nil =>
      obtain rfl := List.map_eq_nil_iff.1 hfound.symm
      simp
  | cons k keys ih =>
      obtain ⟨x, members, rfl, hk, hfound⟩ := List.map_eq_cons_iff.1 hfound.symm
      obtain ⟨hmem, hn⟩ := List.nodup_cons.1 hn
      obtain ⟨hlater, hfree⟩ := List.pairwise_cons.1 hfree
      obtain ⟨hnow, hstart⟩ := List.forall_mem_cons.1 hstart
      -- the keys that are left lead to what they led to, and nothing stops them
      have hrest (op : Operation) :
          keys.map (lookupAt (s.after (k, op)).paths) = members.map .ok :=
        (List.map_congr_left fun k' hk' =>
          lookupAt_setOperation_of_ne (ne_of_mem_of_not_mem hk' hmem) op).trans hfound.symm
      have hgoes (op : Operation) : ∀ k' ∈ keys, (s.after (k, op)).hindrance? k'.path = none := by
        intro k' hk'
        rw [Changing.hindrance?_after, hstart k' hk', Option.none_or]
        split
        · next hpath => exact hlater k' hk' hpath
        · rfl
      rw [List.foldlM_cons, ExceptT.run_bind, run_changeAt hk.symm hnow, bind_assoc,
        List.mapM_cons, bind_assoc]
      refine bind_congr fun op => ?_
      simp only [pure_bind, bind_assoc, ih hn (hrest op) hfree (hgoes op)]
      rfl

/-- Keys that can be changed are changed, each with the action run once on what it leads to. -/
theorem Changes.run {d : Document} {keys : List OperationKey} {members : List Member}
    (h : d.Changes keys members) (hn : keys.Nodup) (f : Member → m Operation) :
    (keys.foldlM (changeAt f) { paths := d.paths }).run = members.mapM f >>= fun changed =>
      pure (.ok ((keys.zip changed).foldl Changing.after { paths := d.paths })) :=
  run_foldlM_changeAt hn h.found h.free (fun _ _ => rfl) f

/-- A check that fails is all that is done. -/
theorem run_applyOverM_of_error {d : Document} {selection : List OperationKey}
    (h : d.checkSelected selection.eraseDups = .error fault) (f : Member → m Operation) :
    (d.applyOverM selection f).run = pure (.error fault) := by
  simp only [applyOverM, h, liftM_error, ExceptT.run_bind, ExceptT.run_throw, pure_bind]

/-- After the check the changes are made one after the other. -/
theorem run_applyOverM_of_ok {d : Document} {selection : List OperationKey}
    (h : d.checkSelected selection.eraseDups = .ok ()) {members : List Member}
    (hmembers : d.Changes selection.eraseDups members) (f : Member → m Operation) :
    (d.applyOverM selection f).run = members.mapM f >>= fun changed => pure (.ok
      { d with paths := setOperations d.paths (selection.eraseDups.zip changed) }) := by
  simp only [applyOverM, h, liftM_ok, pure_bind, ExceptT.run_bind,
    hmembers.run (nodup_eraseDups selection) f, bind_assoc]
  simp only [ExceptT.run_pure, Changing.paths_foldl_after]

end Run

section Updated

variable [PathItem.Base] {d : Document} {keys : List OperationKey} {changed : List Operation}

/-- Setting operations at keys that have one updates the document at these keys. -/
theorem updated_setOperations {edits : List (OperationKey × Operation)}
    (hexact : ∀ e ∈ edits, e.1.Exact) (hhas : ∀ e ∈ edits, d.Has e.1)
    (hn : (edits.map Prod.fst).Nodup) :
    d.Updated (edits.map Prod.fst) (edits.map Prod.snd)
      { d with paths := setOperations d.paths edits } where
  others := rfl
  order := keys_setOperations d.paths edits
  at_keys := by
    rw [List.map_map, List.map_map]
    refine List.map_congr_left fun e he => ?_
    obtain ⟨old, hold⟩ := (has_iff_operationAt d (hexact e he)).1 (hhas e he)
    have hset := operationAt_setOperations hn he d.paths hold
    refine (operation_eq_operationAt _ (hexact e he)).trans ?_
    rw [hset, Member.ofOperation_some, Function.comp_apply]
  elsewhere path m hk := by
    have hkey : (⟨path, m.name⟩ : OperationKey).Exact := ⟨m, rfl⟩
    have hat := operationAt_setOperations_of_notMem hk d.paths
    refine (operation_eq_operationAt _ hkey).trans ?_
    rw [hat]
    exact (operation_eq_operationAt d hkey).symm

/-- Keys in lower case that a document has can be changed. -/
theorem changes_of_operationAt (hexact : ∀ k ∈ keys, k.Exact) {ops : List Operation}
    (hops : keys.map (operationAt d.paths) = ops.map some) :
    d.Changes keys (ops.map .operation) where
  found := by
    induction keys generalizing ops with
    | nil =>
        obtain rfl := List.map_eq_nil_iff.1 hops.symm
        rfl
    | cons k keys ih =>
        obtain ⟨op, ops, rfl, hk, hops⟩ := List.map_eq_cons_iff.1 hops.symm
        exact congrArg₂ List.cons (lookupAt_of_operationAt hk.symm)
          (ih (fun k' hk' => hexact k' (List.mem_cons_of_mem _ hk')) hops.symm)
  free := List.Pairwise.imp_of_mem (fun ha _ _ _ => OperationKey.hindrance?_of_exact (hexact _ ha))
    (List.pairwise_of_forall fun _ _ => trivial)

end Updated

section Main

variable [PathItem.Base] {m : Type → Type} [Monad m] [LawfulMonad m]

/-- What is changed is what the document has at the keys, whatever the action makes of it. -/
theorem exists_run_applyOverM {d : Document} {selection : List OperationKey}
    (hexact : ∀ k ∈ selection, k.Exact) (hhas : ∀ k ∈ selection, d.Has k)
    (f : Member → m Operation) :
    ∃ (ops : List Operation) (result : List Operation → Document),
      selection.eraseDups.map (fun k => d.operation k.path k.method) =
        ops.map (fun op => .ok (.operation op)) ∧
      (∀ changed, changed.length = ops.length →
        d.Updated selection.eraseDups changed (result changed)) ∧
      (d.applyOverM selection f).run =
        ops.mapM (fun op => f (.operation op)) >>= fun changed => pure (.ok (result changed)) := by
  have hexact : ∀ k ∈ selection.eraseDups, k.Exact := fun k hk =>
    hexact k (List.mem_eraseDups.1 hk)
  have hhas : ∀ k ∈ selection.eraseDups, d.Has k := fun k hk => hhas k (List.mem_eraseDups.1 hk)
  obtain ⟨ops, hops⟩ := exists_map_operationAt_eq hexact hhas
  have hlength : ops.length = selection.eraseDups.length := by
    simpa using (congrArg List.length hops).symm
  have hrun := run_applyOverM_of_ok (checkSelected_eq_ok fun k hk => (hhas k hk).finds)
    (changes_of_operationAt hexact hops) f
  rw [List.mapM_map] at hrun
  refine ⟨ops, _, map_operation_eq d hexact hops, fun changed hchanged => ?_, hrun⟩
  have hfst : (selection.eraseDups.zip changed).map Prod.fst = selection.eraseDups :=
    List.map_fst_zip (hchanged.trans hlength).ge
  have hsnd : (selection.eraseDups.zip changed).map Prod.snd = changed :=
    List.map_snd_zip (hchanged.trans hlength).le
  have hmem : ∀ e ∈ selection.eraseDups.zip changed, e.1 ∈ selection.eraseDups :=
    fun e he => hfst ▸ List.mem_map_of_mem he
  have hupdated := updated_setOperations (d := d) (fun e he => hexact e.1 (hmem e he))
    (fun e he => hhas e.1 (hmem e he)) (hfst.symm ▸ nodup_eraseDups selection)
  rwa [hfst, hsnd] at hupdated

/-- Selected operations are changed all or none, each once.

A selection may name its operations in any order, and one of them more than once.  If some of them
are absent, the first of these is reported, and the action is not run.  Else the action is run once
for each key, in the order in which the keys first come up, each time on the operation that the
document has at that key.  In the outcome the operation of each key is what the action has made of
it; the operations of all other keys, the order of the paths and all other members are those of
the document. -/
theorem applyOverM_once_per_key (d : Document) (selection : List OperationKey)
    (hexact : ∀ k ∈ selection, k.Exact) (f : Member → m Operation) :
    (∀ before k after, selection = before ++ k :: after → (∀ b ∈ before, d.Has b) → ¬ d.Has k →
      (d.applyOverM selection f).run = pure (.error (.conflict ⟨k.title, .notInDocument⟩))) ∧
    ((∀ k ∈ selection, d.Has k) →
      ∃ (ops : List Operation) (result : List Operation → Document),
        selection.eraseDups.map (fun k => d.operation k.path k.method) =
          ops.map (fun op => .ok (.operation op)) ∧
        (∀ changed, changed.length = ops.length →
          d.Updated selection.eraseDups changed (result changed)) ∧
        (d.applyOverM selection f).run = ops.mapM (fun op => f (.operation op)) >>= fun changed =>
          pure (.ok (result changed))) := by
  refine ⟨?_, fun hhas => exists_run_applyOverM hexact hhas f⟩
  rintro before k after rfl hbefore hk
  obtain ⟨after', hkeys⟩ := eraseDups_append_cons (fun hmem => hk (hbefore k hmem)) after
  refine run_applyOverM_of_error ?_ f
  rw [hkeys]
  exact checkSelected_eq_error (fun b hb => hbefore b (List.mem_eraseDups.1 hb))
    (hexact k (by simp)) hk

/-- A function in the place of an action: each operation becomes its image. -/
theorem applyOver_updated (d : Document) (selection : List OperationKey)
    (hexact : ∀ k ∈ selection, k.Exact) (hhas : ∀ k ∈ selection, d.Has k)
    (f : Operation → Operation) :
    ∃ (ops : List Operation) (d' : Document),
      selection.eraseDups.map (fun k => d.operation k.path k.method) =
        ops.map (fun op => .ok (.operation op)) ∧
      d.applyOver selection f = .ok d' ∧ d.Updated selection.eraseDups (ops.map f) d' := by
  obtain ⟨ops, result, hops, hresult, hrun⟩ :=
    exists_run_applyOverM hexact hhas fun x => return f (← toChange x)
  refine ⟨ops, result (ops.map f), hops, ?_, hresult _ (List.length_map f)⟩
  have hchange : (fun op => (return f (← toChange (.operation op)) : Except Fault Operation)) =
      fun op => pure (f op) := rfl
  rw [hchange, List.mapM_pure, pure_bind] at hrun
  rw [applyOver, hrun]
  rfl

end Main

/-- Users, who are found and changed at one path. -/
def usersDocument : Document where
  paths := [("/users", { get := some { summary := some "Find." },
                         put := some { summary := some "Change." } }),
            ("/teams", { get := some { summary := some "List." } })]

/-- An operation without its summary, which is noted; of anything else its name is noted. -/
def noteSummary (x : Member) : StateM (List (Option String)) Operation := fun noted =>
  match x with
  | .operation op => ({ op with summary := none }, noted ++ [op.summary])
  | .common name _ => ({}, noted ++ [some name])
  | .absent => ({}, noted ++ [none])

/-- Users are changed and found, and each is noted once although one is selected twice; what is
absent is reported before anything is noted. -/
theorem usersDocument_once_per_key :
    letI : PathItem.Base := .documented
    (∃ d', (usersDocument.applyOverM [⟨"/users", "put"⟩, ⟨"/users", "get"⟩, ⟨"/users", "put"⟩]
        noteSummary).run [] = (.ok d', [some "Change.", some "Find."]) ∧
      usersDocument.Updated [⟨"/users", "put"⟩, ⟨"/users", "get"⟩] [{}, {}] d') ∧
    (usersDocument.applyOverM [⟨"/teams", "get"⟩, ⟨"/teams", "put"⟩, ⟨"/", "get"⟩]
      noteSummary).run [] = (.error (.conflict ⟨"PUT /teams", .notInDocument⟩), []) := by
  let _ : PathItem.Base := .documented
  have hget : ∀ path, (⟨path, "get"⟩ : OperationKey).Exact := fun _ => ⟨.get, rfl⟩
  have hput : ∀ path, (⟨path, "put"⟩ : OperationKey).Exact := fun _ => ⟨.put, rfl⟩
  constructor
  · obtain ⟨-, hrun⟩ := applyOverM_once_per_key usersDocument
      [⟨"/users", "put"⟩, ⟨"/users", "get"⟩, ⟨"/users", "put"⟩] (by simp [hget, hput]) noteSummary
    have hfind := (has_iff_operationAt usersDocument (hget "/users")).2 ⟨_, rfl⟩
    have hchange := (has_iff_operationAt usersDocument (hput "/users")).2 ⟨_, rfl⟩
    obtain ⟨ops, result, hops, hresult, hrun⟩ := hrun (by simp [hfind, hchange])
    have hkeys : List.eraseDups [(⟨"/users", "put"⟩ : OperationKey), ⟨"/users", "get"⟩,
        ⟨"/users", "put"⟩] = [⟨"/users", "put"⟩, ⟨"/users", "get"⟩] := by decide
    rw [hkeys] at hops hresult
    obtain rfl : ops = [{ summary := some "Change." }, { summary := some "Find." }] := by
      rw [List.map_cons, List.map_cons, operation_eq_operationAt _ (hput _),
        operation_eq_operationAt _ (hget _)] at hops
      obtain ⟨change, ops, rfl, hchange, hops⟩ := List.map_eq_cons_iff.1 hops.symm
      obtain ⟨find, ops, rfl, hfind, hops⟩ := List.map_eq_cons_iff.1 hops
      obtain rfl := List.map_eq_nil_iff.1 hops
      obtain rfl := Member.operation.inj (Except.ok.inj hchange)
      obtain rfl := Member.operation.inj (Except.ok.inj hfind)
      rfl
    exact ⟨_, congrFun hrun [], hresult [{}, {}] rfl⟩
  · obtain ⟨habsent, -⟩ := applyOverM_once_per_key usersDocument
      [⟨"/teams", "get"⟩, ⟨"/teams", "put"⟩, ⟨"/", "get"⟩] (by simp [hget, hput]) noteSummary
    have hlist := (has_iff_operationAt usersDocument (hget "/teams")).2 ⟨_, rfl⟩
    have hnone : ¬ usersDocument.Has ⟨"/teams", "put"⟩ := by
      rw [has_iff_operationAt usersDocument (hput "/teams")]
      rintro ⟨op, hop⟩
      cases hop
    have hfault := habsent [_] _ _ rfl (by simpa using hlist) hnone
    rw [show OperationKey.title ⟨"/teams", "put"⟩ = "PUT /teams" by decide +kernel] at hfault
    exact congrFun hfault []

end Document
end ApiTree
