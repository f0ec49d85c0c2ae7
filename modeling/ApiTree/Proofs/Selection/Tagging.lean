import ApiTree.Proofs.Selection.Update
import ApiTree.Selection.Annotation
import Mathlib.Data.List.Nodup

/-!
# ApiTree.Proofs.Selection.Tagging

What tagging makes of the tags of a document and of its operations.  Both lists are extended by
the names that are asked for and were not there before, and what was there before is read once
(`Tagged`).  So a name that is new is written as often as it is asked for, and names stay unique
exactly if no new one is asked for twice (`Tagged.nodup_iff`).

* `applyTagsFor_tagged` — tagging operations of a document goes through, and leaves the list of
  its tags and those of the selected operations tagged in this way.
-/

namespace ApiTree

/-- A list of names after some more were asked for: the old names come first and stay as they are,
all that were asked for are there, and a new one is there as often as it was asked for. -/
structure Tagged (asked old new : List String) : Prop where
  first : old <+: new
  covers : ∀ n ∈ asked, n ∈ new
  count : ∀ n, new.count n = if n ∈ old then 1 else asked.count n

namespace Tagged

variable {asked old new : List String}

/-- Adding the names that are not there yet. -/
theorem append_new (hold : old.Nodup) (asked : List String) :
    Tagged asked old (old ++ asked.filter (!old.contains ·)) where
  first := List.prefix_append _ _
  covers n hn := by
    by_cases h : n ∈ old
    · exact List.mem_append_left _ h
    · exact List.mem_append_right _ (List.mem_filter.2 ⟨hn, by simpa using h⟩)
  count n := by
    rw [List.count_append]
    split
    · next h =>
        have hnew : n ∉ asked.filter (!old.contains ·) := by simp [h]
        rw [List.count_eq_one_of_mem hold h, List.count_eq_zero_of_not_mem hnew]
    · next h =>
        rw [List.count_eq_zero_of_not_mem h, Nat.zero_add]
        exact List.count_filter (p := (!old.contains ·)) (by simpa using h)

/-- Names stay unique exactly if each new one was asked for once. -/
theorem nodup_iff (h : Tagged asked old new) :
    new.Nodup ↔ ∀ n ∈ asked, n ∉ old → asked.count n = 1 := by
  rw [List.nodup_iff_count_le_one]
  constructor
  · intro hle n hn hnew
    have hcount := hle n
    rw [h.count, if_neg hnew] at hcount
    exact Nat.le_antisymm hcount (List.count_pos_iff.2 hn)
  · intro hone n
    rw [h.count]
    split
    · exact Nat.le_refl 1
    · next hnew =>
        by_cases hn : n ∈ asked
        · exact (hone n hn hnew).le
        · rw [List.count_eq_zero_of_not_mem hn]
          exact Nat.zero_le 1

end Tagged

namespace Document

variable {d d' : Document} {asked : List AskedTag}

/-- The names of the tags that are asked for. -/
def namesAsked (asked : List AskedTag) : List String := asked.map (·.tag.name)

/-- Each key of an update has an operation before and its change after. -/
theorem Updated.exists_at [PathItem.Base] {keys : List OperationKey} {ops : List Operation}
    {f : Operation → Operation} (h : d.Updated keys (ops.map f) d')
    (hops : keys.map (fun k => d.operation k.path k.method) = ops.map fun op => .ok (.operation op))
    {k : OperationKey} (hk : k ∈ keys) :
    ∃ op, d.operation k.path k.method = .ok (.operation op) ∧
      d'.operation k.path k.method = .ok (.operation (f op)) := by
  obtain ⟨i, hi, rfl⟩ := List.getElem_of_mem hk
  have hbefore := congrArg (·[i]?) hops
  have hafter := congrArg (·[i]?) h.at_keys
  simp only [List.getElem?_map, List.getElem?_eq_getElem hi, Option.map_some] at hbefore hafter
  obtain ⟨op, hop, heq⟩ := Option.map_eq_some_iff.1 hbefore.symm
  rw [hop, Option.map_some, Option.map_some, Option.some.injEq] at hafter
  exact ⟨op, heq.symm, hafter⟩

/-- The tags that are declared are the old ones and those with new names. -/
theorem tagged_declareTags (htags : (d.tags.map (·.name)).Nodup) (asked : List AskedTag) :
    Tagged (namesAsked asked) (d.tags.map (·.name))
      ((d.declareTags (asked.map (·.tag))).tags.map (·.name)) := by
  have hnames : namesAsked asked = (asked.map (·.tag)).map (·.name) := List.map_map.symm
  have hnew := Tagged.append_new htags (namesAsked asked)
  rw [hnames, List.filter_map] at hnew
  rw [declareTags, List.map_append, hnames]
  exact hnew

/-- Tagging operations of a document that names each tag once, in its own list and in those of its
operations.  It goes through, whatever tags are asked for.  The old tags stay, in front and in
their order, and every tag that is asked for is there, in the list of the document and in those of
the selected operations.  A name that was not there before is there as often as it was asked for;
so each list names its tags once again exactly if no name that was not in it was asked for
twice. -/
theorem applyTagsFor_tagged [PathItem.Base] (d : Document) (selection : List OperationKey)
    (asked : List AskedTag) (hexact : ∀ k ∈ selection, k.Exact)
    (hhas : ∀ k ∈ selection, d.Has k) (htags : (d.tags.map (·.name)).Nodup)
    (hops : ∀ path (m : Method) op, d.operation path m.name = .ok (.operation op) → op.tags.Nodup) :
    ∃ d', d.applyTagsFor selection asked = .ok d' ∧ d.tags <+: d'.tags ∧
      Tagged (namesAsked asked) (d.tags.map (·.name)) (d'.tags.map (·.name)) ∧
      ((d'.tags.map (·.name)).Nodup ↔ ∀ n ∈ namesAsked asked, n ∉ d.tags.map (·.name) →
        (namesAsked asked).count n = 1) ∧
      ∀ k ∈ selection, ∃ op op', d.operation k.path k.method = .ok (.operation op) ∧
        d'.operation k.path k.method = .ok (.operation op') ∧
        Tagged (namesAsked asked) op.tags op'.tags ∧
        (op'.tags.Nodup ↔ ∀ n ∈ namesAsked asked, n ∉ op.tags →
          (namesAsked asked).count n = 1) := by
  obtain ⟨ops, changed, hbefore, hrun, hupdated⟩ := applyOver_updated d selection hexact hhas
    fun op => { op with
      tags := op.tags ++ (namesAsked asked).filter (!op.tags.contains ·) }
  have hdeclared : changed.tags = d.tags := congrArg (·.tags) hupdated.others
  have htop := hdeclared ▸ tagged_declareTags (d := changed) (hdeclared ▸ htags) asked
  refine ⟨changed.declareTags (asked.map (·.tag)), ?_, ?_, htop, htop.nodup_iff, fun k hk => ?_⟩
  · simp only [applyTagsFor, List.map_map]
    exact bind_eq_ok_iff.2 ⟨changed, hrun, rfl⟩
  · rw [← hdeclared]
    exact List.prefix_append _ _
  · obtain ⟨op, hop, hop'⟩ := hupdated.exists_at hbefore (List.mem_eraseDups.2 hk)
    have hnodup : op.tags.Nodup := by
      obtain ⟨m, hm⟩ := hexact k hk
      exact hops k.path m op (hm ▸ hop)
    have htagged := Tagged.append_new hnodup (namesAsked asked)
    exact ⟨op, _, hop, hop', htagged, htagged.nodup_iff⟩

/-- A document with one tag, which one of its two operations has. -/
def labelledDocument : Document where
  paths := [("/users", { get := some { tags := ["users"] }, put := some {} })]
  tags := [{ name := "users" }]

/-- A tag that is there already stays the only one of its name; a new one that is asked for twice,
once in full and once by its name, is there twice. -/
theorem labelledDocument_tagged :
    letI : PathItem.Base := .documented
    ∃ d', labelledDocument.applyTagsFor [⟨"/users", "put"⟩, ⟨"/users", "get"⟩]
        [.named "users", .full { name := "staff", description := some "Staff only." },
          .named "staff"] = .ok d' ∧
      (d'.tags.map (·.name)).count "users" = 1 ∧ (d'.tags.map (·.name)).count "staff" = 2 ∧
      ¬ (d'.tags.map (·.name)).Nodup ∧
      ∃ op, d'.operation "/users" "get" = .ok (.operation op) ∧ ["users"] <+: op.tags ∧
        op.tags.count "staff" = 2 := by
  let _ : PathItem.Base := .documented
  have hexact : ∀ k ∈ [(⟨"/users", "put"⟩ : OperationKey), ⟨"/users", "get"⟩], k.Exact := by
    simp only [List.forall_mem_cons, List.not_mem_nil, false_implies, implies_true, and_true]
    exact ⟨⟨.put, rfl⟩, .get, rfl⟩
  have hhas : ∀ k ∈ [(⟨"/users", "put"⟩ : OperationKey), ⟨"/users", "get"⟩],
      labelledDocument.Has k := by
    intro k hk
    rw [has_iff_operationAt labelledDocument (hexact k hk)]
    simp only [List.mem_cons, List.not_mem_nil, or_false] at hk
    rcases hk with rfl | rfl <;> exact ⟨_, rfl⟩
  have hops : ∀ path (m : Method) op,
      labelledDocument.operation path m.name = .ok (.operation op) → op.tags.Nodup := by
    intro path m op hop
    rw [operation_eq_operationAt labelledDocument (k := ⟨path, m.name⟩) ⟨m, rfl⟩,
      Except.ok.injEq, PathItem.Member.ofOperation_eq_operation_iff] at hop
    obtain ⟨n, item, -, hitem, hop⟩ := exists_item_of_operationAt hop
    obtain ⟨-, rfl⟩ := Prod.mk.inj (List.mem_singleton.1 (Table.mem_of_find? hitem))
    cases n <;> cases hop <;> decide
  obtain ⟨d', hrun, -, htop, hnodup, hkeys⟩ := applyTagsFor_tagged labelledDocument
    [⟨"/users", "put"⟩, ⟨"/users", "get"⟩]
    [.named "users", .full { name := "staff", description := some "Staff only." }, .named "staff"]
    hexact hhas (by decide) hops
  obtain ⟨op, op', hop, hop', htagged, -⟩ := hkeys ⟨"/users", "get"⟩ (by simp)
  obtain rfl : op = { tags := ["users"] } := by
    rw [operation_eq_operationAt labelledDocument (k := ⟨"/users", "get"⟩) ⟨.get, rfl⟩] at hop
    exact (PathItem.Member.operation.inj (Except.ok.inj hop)).symm
  have hstaff : ¬ (d'.tags.map (·.name)).Nodup := by
    rw [hnodup]
    decide
  refine ⟨d', hrun, ?_, ?_, hstaff, op', hop', htagged.first, ?_⟩
  · exact (htop.count "users").trans (by decide)
  · exact (htop.count "staff").trans (by decide)
  · exact (htagged.count "staff").trans (by decide)

end Document
end ApiTree
