import ApiTree.Proofs.Conformance.Decision

/-!
# ApiTree.Proofs.Conformance.Founded

Schemas that a check can rely on.  A schema is founded (`Founded`) when its keywords have the right
form, no divisor is among them, and all the schemas that it leads to are founded; being
inductive, that also says that no way goes on forever.  So where definitions are founded they
are guarded, and a value that satisfies a founded schema passes the check
(`Check.run_of_satisfies`).
-/

namespace ApiTree

open Relation

/-- A schema of the right form without a divisor that leads only to such schemas. -/
inductive Founded (definitions : Table String Json) : Json → Prop
  | intro (s : Schema) (formed : Schema.isFormed definitions none (.obj s) = true)
    (undivided : Table.find? s "multipleOf" = none)
    (next : ∀ t ∈ inPlace definitions (.obj s) ++ inside (.obj s), Founded definitions t) :
    Founded definitions (.obj s)

variable {definitions : Table String Json}

namespace Founded

/-- What a founded schema leads to is founded. -/
theorem of_step {s t : Json} (h : Founded definitions s)
    (ht : t ∈ inPlace definitions s ++ inside s) : Founded definitions t := by
  cases h with
  | intro u _ _ hnext => exact hnext t ht

/-- What a founded schema leads to on any way is founded. -/
theorem of_leads {a b : Json × Json} (h : Founded definitions a.2)
    (hway : ReflTransGen (Leads definitions) a b) : Founded definitions b.2 := by
  induction hway with
  | refl => exact h
  | tail _ hstep ih =>
      refine ih.of_step (List.mem_append.2 ?_)
      exact hstep.imp And.right And.right

/-- A founded schema is well typed for every value. -/
theorem wellTyped {s : Json} (h : Founded definitions s) (v : Json) :
    WellTyped definitions none v s := by
  intro w t hway
  cases h.of_leads hway with
  | intro u hformed _ _ => exact hformed

/-- A founded schema divides nothing. -/
theorem dividesExactly {s : Json} (h : Founded definitions s) (v : Json) :
    DividesExactly definitions v s := by
  intro w ms hway x d _ hd
  cases h.of_leads hway with
  | intro _ _ hundivided _ => simp [Schema.HasNumber, hundivided] at hd

/-- A founded schema does not lead back to itself in place. -/
theorem not_returns {s : Json} (h : Founded definitions s) :
    ¬ TransGen (fun a b => b ∈ inPlace definitions a) s s := by
  induction h with
  | intro s _ _ _ ih =>
      intro hcycle
      -- a way back to the start comes through its first step, and leads back to that too
      obtain ⟨t, hstep, hback⟩ := TransGen.head'_iff.1 hcycle
      exact ih t (List.mem_append_left _ hstep) (TransGen.tail' hback hstep)

end Founded

/-! ## founded schemas -/

/-- The schemas in the value of a keyword. -/
def nested : Json → List Json
  | .obj t => [.obj t]
  | .arr ts => ts
  | _ => []

/-- What stands under a keyword is nested in its value. -/
theorem mem_nested_of_under {s : Schema} {keyword : String} {t : Json}
    (h : t ∈ s.under keyword) : ∃ j, (keyword, j) ∈ s ∧ t ∈ nested j := by
  rw [Schema.under] at h
  split at h
  · next u hu => exact ⟨_, Table.mem_of_find? hu, h⟩
  · next ts hts => exact ⟨_, Table.mem_of_find? hts, h⟩
  · simp at h

/-- The keywords that hold schemas. -/
def schemaKeywords : List String :=
  ["allOf", "anyOf", "oneOf", "items", "prefixItems", "additionalProperties"]

/-- A schema is founded when each keyword has the right form and founded schemas in it. -/
theorem founded_of_keywords {s : Schema}
    (hkeys : ∀ e ∈ s, e.1 ∉ ["$ref", "multipleOf", "properties"])
    (hform : ∀ e ∈ s, Schema.hasForm definitions none e.1 e.2 = true)
    (hnested : ∀ e ∈ s, e.1 ∈ schemaKeywords → ∀ t ∈ nested e.2, Founded definitions t) :
    Founded definitions (.obj s) := by
  have habsent (k : String) (hk : k ∈ ["$ref", "multipleOf", "properties"]) :
      Table.find? s k = none := by
    cases hj : Table.find? s k with
    | none => rfl
    | some j => exact absurd hk (hkeys _ (Table.mem_of_find? hj))
  refine .intro s (List.all_eq_true.2 hform) (habsent _ (by simp)) fun t ht => ?_
  simp only [inPlace, inside, habsent "$ref" (by simp), Schema.described,
    habsent "properties" (by simp), List.append_nil, ← List.flatMap_append] at ht
  obtain ⟨keyword, hkeyword, hunder⟩ := List.mem_flatMap.1 ht
  obtain ⟨j, hj, hmem⟩ := mem_nested_of_under hunder
  exact hnested _ hj (by simpa [schemaKeywords] using hkeyword) t hmem

/-- A reference to a founded definition is founded. -/
theorem founded_reference {ref : String} {d : Json}
    (hd : Reference.follow definitions ref = .ok d) (h : Founded definitions d) :
    Founded definitions (.obj [("$ref", .str ref)]) := by
  refine .intro _ ?_ rfl fun t ht => ?_
  · simp [Schema.isFormed, Schema.hasForm, Check.follow, hd, Except.isOk, Except.toBool]
  · obtain rfl : t = d := by
      simpa [inPlace, inside, Check.follow, hd, Except.toOption, Table.find?] using ht
    exact h

/-- Admitting null leaves every other keyword. -/
theorem find?_append_nullable (s : Schema) {k : String} (hk : k ≠ "nullable") :
    Table.find? (s ++ [("nullable", .bool true)]) k = Table.find? s k := by
  rw [Table.find?_append, Table.find?_cons, if_neg (by simpa using hk)]
  simp

/-- A founded schema that may be null is founded. -/
theorem founded_append_nullable {s : Schema} (h : Founded definitions (.obj s)) :
    Founded definitions (.obj (s ++ [("nullable", .bool true)])) := by
  have hunder (k : String) (hk : k ≠ "nullable") :
      Schema.under (s ++ [("nullable", .bool true)]) k = s.under k := by
    simp only [Schema.under, find?_append_nullable s hk]
  have hnext (t : Json) : t ∈ inPlace definitions (.obj (s ++ [("nullable", .bool true)])) ++
      inside (.obj (s ++ [("nullable", .bool true)])) ↔
      t ∈ inPlace definitions (.obj s) ++ inside (.obj s) := by
    simp only [inPlace, inside, Schema.described, List.flatMap_cons, List.flatMap_nil,
      find?_append_nullable s (show "$ref" ≠ "nullable" by decide),
      find?_append_nullable s (show "properties" ≠ "nullable" by decide),
      hunder "allOf" (by decide), hunder "anyOf" (by decide), hunder "oneOf" (by decide),
      hunder "items" (by decide), hunder "prefixItems" (by decide),
      hunder "additionalProperties" (by decide)]
  cases h with
  | intro _ hform hundivided hfounded =>
      refine .intro _ ?_ ?_ fun t ht => hfounded t ((hnext t).1 ht)
      · rw [Schema.isFormed, List.all_append, Bool.and_eq_true]
        exact ⟨hform, rfl⟩
      · rw [find?_append_nullable s (by decide)]
        exact hundivided

/-! ## definitions that are founded -/

/-- Founded definitions are guarded. -/
theorem guarded_of_founded
    (h : ∀ name d, Table.find? definitions name = some d → Founded definitions d) :
    Guarded definitions :=
  guarded_of_definitions fun name d hd => (h name d hd).not_returns

/-- A value that satisfies a founded schema passes the check. -/
theorem Check.run_of_satisfies {R : Json → Json → Prop} (hR : IsSatisfaction definitions none R)
    (hfounded : ∀ name d, Table.find? definitions name = some d → Founded definitions d)
    {v s : Json} (hs : Founded definitions s) (h : R v s) :
    Check.run (m := Except Fault) definitions none v s = .ok none := by
  obtain ⟨verdict, hrun, hiff⟩ := Check.decides_run hR (guarded_of_founded hfounded)
    (hs.wellTyped v) (hs.dividesExactly v)
  rw [← hiff.2 h]
  exact hrun

end ApiTree
