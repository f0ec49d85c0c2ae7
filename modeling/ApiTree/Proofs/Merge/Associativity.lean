import ApiTree.Proofs.Merge.Agreement

/-!
# ApiTree.Proofs.Merge.Associativity

Merging operations is associative, and so are its failures.  Three operations merge, whichever
two are merged first, exactly when each two of them match; what they make together then does not
depend on it either (`Operation.united_assoc`).  Matching alone is no equivalence, as a body may
lack the content type over which two others clash.

* `mergeOperations_assoc` — both ways to merge three operations give the same operation, or both
  fail.
-/

namespace ApiTree

theorem exists_error_iff {α ε : Type} {x : Except ε α} :
    (∃ e, x = .error e) ↔ ∀ a, ¬ x = .ok a := by
  cases x <;> simp

section Three

variable {a b c r : Operation} {identity : String}

theorem mergeOperations_left_ok_iff (hb : b.Proper) (hc : c.Proper) :
    (mergeOperations identity a b >>= fun ab => mergeOperations identity ab c) = .ok r ↔
      (a.Matches b ∧ a.Matches c ∧ b.Matches c) ∧ r = (a.united b).united c := by
  simp only [bind_eq_ok_iff, mergeOperations_eq_ok_iff_matches hb,
    mergeOperations_eq_ok_iff_matches hc]
  constructor
  · rintro ⟨ab, ⟨hab, rfl⟩, habc, rfl⟩
    exact ⟨⟨hab, (Operation.united_matches_iff hb hab).1 habc⟩, rfl⟩
  · rintro ⟨⟨hab, hboth⟩, rfl⟩
    exact ⟨_, ⟨hab, rfl⟩, (Operation.united_matches_iff hb hab).2 hboth, rfl⟩

theorem mergeOperations_right_ok_iff (hb : b.Proper) (hc : c.Proper) :
    (mergeOperations identity b c >>= fun bc => mergeOperations identity a bc) = .ok r ↔
      (a.Matches b ∧ a.Matches c ∧ b.Matches c) ∧ r = a.united (b.united c) := by
  simp only [bind_eq_ok_iff, mergeOperations_eq_ok_iff_matches hc]
  constructor
  · rintro ⟨bc, ⟨hbc, rfl⟩, hr⟩
    obtain ⟨habc, rfl⟩ := (mergeOperations_eq_ok_iff_matches (Operation.proper_united hb hc)).1 hr
    obtain ⟨hab, hac⟩ := (Operation.matches_united_iff hc hbc).1 habc
    exact ⟨⟨hab, hac, hbc⟩, rfl⟩
  · rintro ⟨⟨hab, hac, hbc⟩, rfl⟩
    have habc := (Operation.matches_united_iff hc hbc).2 ⟨hab, hac⟩
    exact ⟨_, ⟨hbc, rfl⟩, (mergeOperations_eq_ok_iff_matches (Operation.proper_united hb hc)).2
      ⟨habc, rfl⟩⟩

end Three

/-- Merging operations is associative.  Whichever two of three operations are merged first, the
outcome is the same operation, with everything in the same order; or it is a conflict both times. -/
theorem mergeOperations_assoc (identity : String) (a b c : Operation) (ha : a.Proper)
    (hb : b.Proper) (hc : c.Proper) :
    (∀ r,
      (mergeOperations identity a b >>= fun ab => mergeOperations identity ab c) = .ok r ↔
      (mergeOperations identity b c >>= fun bc => mergeOperations identity a bc) = .ok r) ∧
    ((∃ e, (mergeOperations identity a b >>= fun ab => mergeOperations identity ab c) =
        .error e) ↔
      ∃ e, (mergeOperations identity b c >>= fun bc => mergeOperations identity a bc) =
        .error e) := by
  have hok : ∀ r,
      (mergeOperations identity a b >>= fun ab => mergeOperations identity ab c) = .ok r ↔
      (mergeOperations identity b c >>= fun bc => mergeOperations identity a bc) = .ok r := by
    intro r
    rw [mergeOperations_left_ok_iff hb hc, mergeOperations_right_ok_iff hb hc,
      Operation.united_assoc ha hb hc]
  refine ⟨hok, ?_⟩
  rw [exists_error_iff, exists_error_iff]
  exact forall_congr' fun r => not_congr (hok r)

/-- A file of one content type is left under a label. -/
def upload (tag contentType : String) (schema : Schema) : Operation where
  tags := [tag, "files"]
  requestBody := some
    { content := [(contentType, { schema := some schema })], required := some true }
  responses := [("201", {})]

theorem proper_upload (tag contentType : String) (schema : Schema) :
    (upload tag contentType schema).Proper where
  responses := by simp [upload]
  content := by
    rintro _ ⟨⟩
    simp

/-- Files of two content types are left in three places; where the first and the last place differ
over one of the types, the one between them does not hide it. -/
theorem upload_merge_assoc :
    (∃ r,
      (mergeOperations "POST /" (upload "a" "text/plain" []) (upload "b" "text/csv" []) >>=
        fun ab => mergeOperations "POST /" ab (upload "c" "text/plain" [])) = .ok r ∧
      (mergeOperations "POST /" (upload "b" "text/csv" []) (upload "c" "text/plain" []) >>=
        fun bc => mergeOperations "POST /" (upload "a" "text/plain" []) bc) = .ok r ∧
      r.tags = ["a", "files", "b", "c"]) ∧
    ∃ e,
      (mergeOperations "POST /" (upload "b" "text/csv" [])
          (upload "c" "text/plain" [("type", .str "string")]) >>=
        fun bc => mergeOperations "POST /" (upload "a" "text/plain" []) bc) = .error e := by
  constructor
  · have htags : (mergeOperations "POST /" (upload "a" "text/plain" [])
        (upload "b" "text/csv" []) >>= fun ab =>
          mergeOperations "POST /" ab (upload "c" "text/plain" [])).toOption.map (·.tags) =
        some ["a", "files", "b", "c"] := by decide +kernel
    obtain ⟨r, hr, htags⟩ := Option.map_eq_some_iff.1 htags
    have hleft := toOption_eq_some_iff.1 hr
    exact ⟨r, hleft, ((mergeOperations_assoc "POST /" _ _ _ (proper_upload _ _ _)
      (proper_upload _ _ _) (proper_upload _ _ _)).1 r).1 hleft, htags⟩
  · refine (mergeOperations_assoc "POST /" _ _ _ (proper_upload _ _ _)
      (proper_upload _ _ _) (proper_upload _ _ _)).2.1 (exists_error_iff.2 fun r hr => ?_)
    have hnone : (mergeOperations "POST /" (upload "a" "text/plain" [])
        (upload "b" "text/csv" []) >>= fun ab => mergeOperations "POST /" ab
          (upload "c" "text/plain" [("type", .str "string")])).toOption.isSome = false := by
      decide +kernel
    rw [hr] at hnone
    cases hnone

end ApiTree
