import ApiTree.Proofs.Conformance.Satisfaction
import ApiTree.Proofs.Table.Merge
import Mathlib.Data.Finset.Card
import Mathlib.Order.WellFounded

/-!
# ApiTree.Proofs.Conformance.Guarded

What being guarded gives.  Every step in place lowers the rank of a schema: the number
of definitions that it still reaches in place, and then its depth (`rank_lt`).  A step
inside lowers the depth of the value.  So no way from a value with a schema goes on
forever, a check starts with more fuel than any way is long (`enough_of_budget_le`), and over
guarded definitions there is exactly one satisfaction (`existsUnique_satisfaction`).
-/

namespace ApiTree

/-! ## depth -/

namespace Json

/-- An item is at most as deep as the list. -/
theorem depth_le_of_mem_items {xs : List Json} {x : Json} (h : x ∈ xs) :
    x.depth ≤ depthList xs := by
  induction xs with
  | nil => simp at h
  | cons y ys ih =>
      rw [depthList]
      rcases List.mem_cons.1 h with rfl | h
      · exact Nat.le_max_left _ _
      · exact (ih h).trans (Nat.le_max_right _ _)

/-- The value of a member is at most as deep as the object. -/
theorem depth_le_of_mem_members {ms : Members} {k : String} {x : Json} (h : (k, x) ∈ ms) :
    x.depth ≤ depthMembers ms := by
  induction ms with
  | nil => simp at h
  | cons m ms ih =>
      obtain ⟨l, y⟩ := m
      rw [depthMembers]
      rcases List.mem_cons.1 h with heq | h
      · obtain ⟨-, rfl⟩ := Prod.mk.inj heq
        exact Nat.le_max_left _ _
      · exact (ih h).trans (Nat.le_max_right _ _)

/-- A part is less deep than the whole. -/
theorem depth_lt_of_mem_parts {v w : Json} (h : w ∈ v.parts) : w.depth < v.depth := by
  cases v with
  | arr xs => exact Nat.lt_succ_of_le (depth_le_of_mem_items h)
  | obj ms =>
      obtain ⟨⟨k, w⟩, hmem, rfl⟩ := List.mem_map.1 h
      exact Nat.lt_succ_of_le (depth_le_of_mem_members hmem)
  | _ => simp [parts] at h

end Json

namespace Schema

variable {s : Schema} {t : Json} {ts : List Json} {keyword : String}

/-- What a list under a keyword holds stands under the keyword. -/
theorem mem_under_of_arr (h : Table.find? s keyword = some (.arr ts)) (ht : t ∈ ts) :
    t ∈ s.under keyword := by
  rwa [under, h]

/-- An object under a keyword stands under the keyword. -/
theorem mem_under_of_obj {ms : Json.Members} (h : Table.find? s keyword = some (.obj ms)) :
    .obj ms ∈ s.under keyword := by
  simp [under, h]

/-- The schema of a member is described. -/
theorem mem_described {ps : Json.Members} {name : String}
    (h : Table.find? s "properties" = some (.obj ps)) (ht : (name, t) ∈ ps) : t ∈ s.described := by
  rw [described, h]
  exact List.mem_map_of_mem ht

/-- What stands under a keyword is less deep than the schema. -/
theorem depth_lt_of_mem_under (h : t ∈ s.under keyword) : t.depth < (Json.obj s).depth := by
  rw [under] at h
  split at h
  · next u hu =>
      obtain rfl := List.mem_singleton.1 h
      exact Nat.lt_succ_of_le (Json.depth_le_of_mem_members (Table.mem_of_find? hu))
  · next us hus =>
      have hle : (Json.arr us).depth ≤ _ := Json.depth_le_of_mem_members (Table.mem_of_find? hus)
      exact (Json.depth_lt_of_mem_parts (v := .arr us) h).trans (Nat.lt_succ_of_le hle)
  · simp at h

/-- What is described is less deep than the schema. -/
theorem depth_lt_of_mem_described (h : t ∈ s.described) : t.depth < (Json.obj s).depth := by
  rw [described] at h
  split at h
  · next ps hps =>
      have hle : (Json.obj ps).depth ≤ _ := Json.depth_le_of_mem_members (Table.mem_of_find? hps)
      exact (Json.depth_lt_of_mem_parts (v := .obj ps) h).trans (Nat.lt_succ_of_le hle)
  · simp at h

end Schema

variable {definitions : Table String Json} {rule : Option Conforms}

/-- A reference leads to a definition. -/
theorem exists_definition_of_follow {ref t : Json} (h : Check.follow definitions ref = .ok t) :
    ∃ name, Table.find? definitions name = some t := by
  cases ref with
  | str ref =>
      rw [Check.follow, Reference.follow] at h
      cases hname : Reference.target? ref with
      | none => simp [hname] at h
      | some name =>
          cases hd : Table.find? definitions name with
          | none => simp [hname, hd] at h
          | some d => exact ⟨name, by simpa [hname, hd] using h⟩
  | _ => simp [Check.follow] at h

/-- A step in place follows a reference to a definition, or goes to a schema that is less
deep. -/
theorem inPlace_cases {s t : Json} (h : t ∈ inPlace definitions s) :
    (∃ name, Table.find? definitions name = some t) ∨ t.depth < s.depth := by
  cases s with
  | obj s =>
      rw [inPlace] at h
      split at h
      · next ref _ =>
          rw [Option.mem_toList] at h
          exact .inl (exists_definition_of_follow (toOption_eq_some_iff.1 h))
      · obtain ⟨keyword, -, hunder⟩ := List.mem_flatMap.1 h
        exact .inr (Schema.depth_lt_of_mem_under hunder)
  | _ => simp [inPlace] at h

/-- What stands inside a schema is less deep. -/
theorem depth_lt_of_mem_inside {s t : Json} (h : t ∈ inside s) : t.depth < s.depth := by
  cases s with
  | obj s =>
      rw [inside] at h
      split at h
      · simp at h
      · rcases List.mem_append.1 h with hunder | hdescribed
        · obtain ⟨keyword, -, hunder⟩ := List.mem_flatMap.1 hunder
          exact Schema.depth_lt_of_mem_under hunder
        · exact Schema.depth_lt_of_mem_described hdescribed
  | _ => simp [inside] at h

/-! ## rank -/

/-- A schema leads in place to the definition of a name. -/
def Reaches (definitions : Table String Json) (s : Json) (name : String) : Prop :=
  ∃ d, Table.find? definitions name = some d ∧
    Relation.TransGen (fun a b => b ∈ inPlace definitions a) s d

open Classical in
/-- The names of the definitions to which a schema leads in place. -/
noncomputable def reached (definitions : Table String Json) (s : Json) : Finset String :=
  {name ∈ definitions.keys.toFinset | Reaches definitions s name}

/-- The rank of a schema: first the number of definitions that it leads to in place, then its
depth, where no definition is deeper than `deepest`. -/
noncomputable def rank (definitions : Table String Json) (deepest : Nat) (s : Json) : Nat :=
  (reached definitions s).card * (deepest + 1) + s.depth

/-- The names that are reached are those that a way in place leads to. -/
theorem mem_reached {s : Json} {name : String} :
    name ∈ reached definitions s ↔ Reaches definitions s name := by
  classical
  rw [reached, Finset.mem_filter, List.mem_toFinset]
  refine and_iff_right_of_imp ?_
  rintro ⟨d, hd, -⟩
  exact (Table.mem_keys_iff definitions name).2 ⟨d, hd⟩

/-- In place no further names are reached. -/
theorem reached_subset {s t : Json} (h : t ∈ inPlace definitions s) :
    reached definitions t ⊆ reached definitions s := by
  intro name hname
  obtain ⟨d, hd, hway⟩ := mem_reached.1 hname
  exact mem_reached.2 ⟨d, hd, .head h hway⟩

/-- The rank of a schema is bounded by the definitions and its depth. -/
theorem rank_le (deepest : Nat) (s : Json) :
    rank definitions deepest s ≤ definitions.length * (deepest + 1) + s.depth := by
  classical
  have hcard : (reached definitions s).card ≤ definitions.length :=
    calc (reached definitions s).card ≤ definitions.keys.toFinset.card := Finset.card_filter_le _ _
      _ ≤ definitions.keys.length := List.toFinset_card_le _
      _ = definitions.length := List.length_map _
  exact Nat.add_le_add_right (Nat.mul_le_mul_right _ hcard) _

/-- Every step in place lowers the rank. -/
theorem rank_lt (hguarded : Guarded definitions) {deepest : Nat}
    (hdeepest : ∀ e ∈ definitions, e.2.depth ≤ deepest) {s t : Json}
    (h : t ∈ inPlace definitions s) : rank definitions deepest t < rank definitions deepest s := by
  have hsub := reached_subset h
  rcases inPlace_cases h with ⟨name, hname⟩ | hdepth
  · -- the definition that is reached now is not reached again
    have hlt : (reached definitions t).card < (reached definitions s).card := by
      refine Finset.card_lt_card ⟨hsub, fun hback => ?_⟩
      obtain ⟨d, hd, hway⟩ := mem_reached.1 (hback (mem_reached.2 ⟨t, hname, .single h⟩))
      obtain rfl : d = t := Option.some.inj (hd.symm.trans hname)
      exact hguarded d hway
    have hdepth : t.depth ≤ deepest := hdeepest _ (Table.mem_of_find? hname)
    have hstep := Nat.mul_le_mul_right (deepest + 1) (Nat.succ_le_of_lt hlt)
    rw [Nat.succ_mul] at hstep
    unfold rank
    omega
  · have hle := Nat.mul_le_mul_right (deepest + 1) (Finset.card_le_card hsub)
    unfold rank
    omega

/-- A way in place comes through a definition, or ends at a schema that is less deep. -/
theorem way_cases {s t : Json} (h : Relation.TransGen (fun a b => b ∈ inPlace definitions a) s t) :
    (∃ name d, Table.find? definitions name = some d ∧
      Relation.TransGen (fun a b => b ∈ inPlace definitions a) s d ∧
      Relation.ReflTransGen (fun a b => b ∈ inPlace definitions a) d t) ∨ t.depth < s.depth := by
  induction h with
  | single hstep =>
      rcases inPlace_cases hstep with ⟨name, hname⟩ | hlt
      · exact .inl ⟨name, _, hname, .single hstep, .refl⟩
      · exact .inr hlt
  | tail hway hstep ih =>
      rcases inPlace_cases hstep with ⟨name, hname⟩ | hlt
      · exact .inl ⟨name, _, hname, .tail hway hstep, .refl⟩
      · rcases ih with ⟨name, d, hname, hto, hfrom⟩ | hless
        · exact .inl ⟨name, d, hname, hto, .tail hfrom hstep⟩
        · exact .inr (hlt.trans hless)

/-- Definitions are guarded when none of them leads back to itself. -/
theorem guarded_of_definitions (h : ∀ name d, Table.find? definitions name = some d →
    ¬ Relation.TransGen (fun a b => b ∈ inPlace definitions a) d d) : Guarded definitions := by
  intro s hcycle
  rcases way_cases hcycle with ⟨name, d, hname, hto, hfrom⟩ | hlt
  · exact h name d hname (Relation.TransGen.trans_right hfrom hto)
  · exact lt_irrefl _ hlt

/-- A schema does not lead back to itself in place, when a list holds all that it leads to
and not the schema. -/
theorem not_returns {S : List Json} {s : Json}
    (hclosed : ∀ t ∈ s :: S, ∀ u ∈ inPlace definitions t, u ∈ S) (hs : s ∉ S) :
    ¬ Relation.TransGen (fun a b => b ∈ inPlace definitions a) s s := by
  suffices h : ∀ t, Relation.TransGen (fun a b => b ∈ inPlace definitions a) s t → t ∈ S from
    fun hcycle => hs (h s hcycle)
  intro t hway
  induction hway with
  | single hstep => exact hclosed s (by simp) _ hstep
  | tail _ hstep ih => exact hclosed _ (List.mem_cons_of_mem s ih) _ hstep

/-- No definition is deeper than the deepest one. -/
theorem depth_le_deepest (definitions : Table String Json) (n : Nat) :
    n ≤ definitions.foldl (fun d e => max d e.2.depth) n ∧
      ∀ e ∈ definitions, e.2.depth ≤ definitions.foldl (fun d e => max d e.2.depth) n := by
  induction definitions generalizing n with
  | nil => simp
  | cons e es ih =>
      obtain ⟨hle, hall⟩ := ih (max n e.2.depth)
      refine ⟨(Nat.le_max_left _ _).trans hle, fun e' he' => ?_⟩
      rcases List.mem_cons.1 he' with rfl | he'
      · exact (Nat.le_max_right _ _).trans hle
      · exact hall e' he'

/-- No way from a value with a schema goes on forever. -/
theorem wellFounded_leads (hguarded : Guarded definitions) :
    WellFounded fun b a => Leads definitions a b := by
  obtain ⟨deepest, hdeepest⟩ : ∃ deepest, ∀ e ∈ definitions, e.2.depth ≤ deepest :=
    ⟨_, (depth_le_deepest definitions 0).2⟩
  refine Subrelation.wf ?_ (InvImage.wf (fun p : Json × Json =>
    (p.1.depth, rank definitions deepest p.2)) (Prod.lex Nat.lt_wfRel Nat.lt_wfRel).wf)
  rintro ⟨w, t⟩ ⟨v, s⟩ (⟨rfl, hplace⟩ | ⟨hpart, -⟩)
  · exact Prod.Lex.right _ (rank_lt hguarded hdeepest hplace)
  · exact Prod.Lex.left _ _ (Json.depth_lt_of_mem_parts hpart)

/-! ## fuel -/

/-- Fuel is enough for a value with a schema: each step in place takes from the rank of the
schema, and each step inside from the depth of the value. -/
def Enough (definitions : Table String Json) (fuel : Nat) (v s : Json) : Prop :=
  ∃ deepest, (∀ e ∈ definitions, e.2.depth ≤ deepest) ∧ s.depth ≤ deepest ∧
    v.depth * ((definitions.length + 1) * (deepest + 1)) + rank definitions deepest s < fuel

/-- Every value has some depth. -/
theorem Json.depth_pos (v : Json) : 0 < v.depth := by
  cases v <;> simp [depth]

/-- Enough fuel is more than one step needs. -/
theorem Enough.one_lt {fuel : Nat} {v s : Json} (h : Enough definitions fuel v s) : 1 < fuel := by
  obtain ⟨deepest, -, -, hlt⟩ := h
  have hpos : 0 < v.depth * ((definitions.length + 1) * (deepest + 1)) :=
    Nat.mul_pos v.depth_pos (Nat.mul_pos (Nat.succ_pos _) (Nat.succ_pos _))
  omega

/-- After a step there is enough fuel for what it leads to. -/
theorem Enough.of_leads (hguarded : Guarded definitions) {fuel : Nat} {v s w t : Json}
    (h : Enough definitions (fuel + 1) v s) (hl : Leads definitions (v, s) (w, t)) :
    Enough definitions fuel w t := by
  obtain ⟨deepest, hdeepest, hdepth, hfuel⟩ := h
  have ht : t.depth ≤ deepest := by
    rcases hl with ⟨-, hplace⟩ | ⟨-, hinside⟩
    · rcases inPlace_cases hplace with ⟨name, hname⟩ | hlt
      · exact hdeepest _ (Table.mem_of_find? hname)
      · exact hlt.le.trans hdepth
    · exact (depth_lt_of_mem_inside hinside).le.trans hdepth
  refine ⟨deepest, hdeepest, ht, ?_⟩
  rcases hl with ⟨heq, hplace⟩ | ⟨hpart, -⟩
  · obtain rfl : w = v := heq
    have hrank : rank definitions deepest t < rank definitions deepest s :=
      rank_lt hguarded hdeepest hplace
    omega
  · have hw : w.depth + 1 ≤ v.depth := Json.depth_lt_of_mem_parts hpart
    have hstep := Nat.mul_le_mul_right ((definitions.length + 1) * (deepest + 1)) hw
    have hrank : rank definitions deepest t ≤ definitions.length * (deepest + 1) + t.depth :=
      rank_le deepest t
    have hsize : (definitions.length + 1) * (deepest + 1) =
        definitions.length * (deepest + 1) + (deepest + 1) := Nat.succ_mul _ _
    rw [Nat.succ_mul] at hstep
    omega

/-- A check starts with enough fuel. -/
theorem enough_of_budget_le {fuel : Nat} {v s : Json}
    (h : Check.budget definitions v s ≤ fuel) : Enough definitions fuel v s := by
  obtain ⟨hroot, hdeepest⟩ := depth_le_deepest definitions s.depth
  refine ⟨_, hdeepest, hroot, ?_⟩
  have hrank : rank definitions (definitions.foldl (fun d e => max d e.2.depth) s.depth) s ≤ _ :=
    rank_le _ s
  rw [Check.budget, Nat.mul_assoc, Nat.succ_mul v.depth] at h
  rw [Nat.succ_mul definitions.length] at h ⊢
  omega

/-- A list of schemas that holds every next schema holds every schema on the way. -/
theorem mem_of_leads {S : List Json}
    (hclosed : ∀ s ∈ S, ∀ t ∈ inPlace definitions s ++ inside s, t ∈ S) {a b : Json × Json}
    (ha : a.2 ∈ S) (hway : Relation.ReflTransGen (Leads definitions) a b) : b.2 ∈ S := by
  induction hway with
  | refl => exact ha
  | tail _ hstep ih =>
      refine hclosed _ ih _ (List.mem_append.2 ?_)
      exact hstep.imp And.right And.right

/-! ## satisfaction -/

section Leads

variable {s : Schema} {v t : Json} {ts : List Json} {keyword : String}

/-- A keyword that applies to the value itself leads to its schemas. -/
theorem leads_in_place (href : Table.find? s "$ref" = none)
    (hkeyword : keyword ∈ ["allOf", "anyOf", "oneOf"])
    (h : Table.find? s keyword = some (.arr ts)) (ht : t ∈ ts) :
    Leads definitions (v, .obj s) (v, t) := by
  refine .inl ⟨rfl, ?_⟩
  simp only [inPlace, href]
  exact List.mem_flatMap.2 ⟨keyword, hkeyword, Schema.mem_under_of_arr h ht⟩

/-- A reference leads to its definition. -/
theorem leads_by_reference {ref : Json} (href : Table.find? s "$ref" = some ref)
    (h : Check.follow definitions ref = .ok t) : Leads definitions (v, .obj s) (v, t) := by
  refine .inl ⟨rfl, ?_⟩
  simp [inPlace, href, h, Except.toOption]

/-- A keyword for parts leads from a part to its schemas. -/
theorem leads_inside (href : Table.find? s "$ref" = none) {w : Json} (hw : w ∈ v.parts)
    (hkeyword : keyword ∈ ["items", "prefixItems", "additionalProperties"])
    (h : t ∈ s.under keyword) : Leads definitions (v, .obj s) (w, t) := by
  refine .inr ⟨hw, ?_⟩
  simp only [inside, href]
  exact List.mem_append_left _ (List.mem_flatMap.2 ⟨keyword, hkeyword, h⟩)

/-- The description of a member leads from a part to its schema. -/
theorem leads_described (href : Table.find? s "$ref" = none) {w : Json} (hw : w ∈ v.parts)
    (h : t ∈ s.described) : Leads definitions (v, .obj s) (w, t) := by
  refine .inr ⟨hw, ?_⟩
  simp only [inside, href]
  exact List.mem_append_right _ h

end Leads

theorem Schema.ExactlyOne.congr {p q : Json → Prop} {ts : List Json} (h : ∀ t ∈ ts, p t ↔ q t)
    (hone : ExactlyOne p ts) : ExactlyOne q ts := by
  obtain ⟨before, t, after, rfl, ht, hrest⟩ := hone
  refine ⟨before, t, after, rfl, (h t (by simp)).1 ht, fun u hu hq => hrest u hu ((h u ?_).2 hq)⟩
  rw [List.mem_append] at hu ⊢
  exact hu.imp_right (List.mem_cons_of_mem _)

/-- One level of satisfaction looks only where the value with the schema leads. -/
theorem Meets.congr {R R' : Json → Json → Prop} {v s : Json}
    (h : ∀ w t, Leads definitions (v, s) (w, t) → (R w t ↔ R' w t))
    (hmeets : Meets definitions rule R v s) : Meets definitions rule R' v s := by
  cases s with
  | obj s =>
      rw [Meets] at hmeets ⊢
      cases href : Table.find? s "$ref" with
      | some ref =>
          rw [href] at hmeets
          obtain ⟨t, ht, hR⟩ := hmeets
          exact ⟨t, ht, (h v t (leads_by_reference href ht)).1 hR⟩
      | none =>
          rw [href] at hmeets
          rcases hmeets with hnull | hadmits
          · exact .inl hnull
          · refine .inr { hadmits with all := ?_, any := ?_, one := ?_, array := ?_, object := ?_ }
            · intro ts hts t ht
              exact (h v t (leads_in_place href (by simp) hts ht)).1 (hadmits.all ts hts t ht)
            · intro ts hts
              obtain ⟨t, ht, hR⟩ := hadmits.any ts hts
              exact ⟨t, ht, (h v t (leads_in_place href (by simp) hts ht)).1 hR⟩
            · intro ts hts
              exact (hadmits.one ts hts).congr fun t ht =>
                h v t (leads_in_place href (by simp) hts ht)
            · rintro xs rfl
              have harr := hadmits.array xs rfl
              refine { harr with items := ?_, row := ?_ }
              · intro t ht x hx
                exact (h x _ (leads_inside href hx (by simp) (Schema.mem_under_of_obj ht))).1
                  (harr.items t ht x hx)
              · intro ts hts i x t hx ht
                have hmem := List.mem_of_getElem? ht
                refine (h x t ?_).1 (harr.row ts hts i x t hx ht)
                rcases hts with hts | hts
                · exact leads_inside href (List.mem_of_getElem? hx) (by simp)
                    (Schema.mem_under_of_arr hts hmem)
                · exact leads_inside href (List.mem_of_getElem? hx) (by simp)
                    (Schema.mem_under_of_arr hts hmem)
            · rintro ms rfl
              have hobj := hadmits.object ms rfl
              have hpart {name : String} {w : Json} (hw : (name, w) ∈ ms) :
                  w ∈ (Json.obj ms).parts := List.mem_map_of_mem (f := (·.2)) hw
              refine { hobj with properties := ?_, additional := ?_ }
              · intro ps name t w hps ht hw
                exact (h w t (leads_described href (hpart (Table.mem_of_find? hw))
                  (Schema.mem_described hps ht))).1 (hobj.properties ps name t w hps ht hw)
              · intro t ht name w hw hnot
                have hmem := Schema.mem_under_of_obj ht
                exact (h w _ (leads_inside href (hpart hw) (by simp) hmem)).1
                  (hobj.additional t ht name w hw hnot)
  | _ => exact hmeets

/-- Meeting a schema depends on the parts that it leads to only. -/
theorem meets_congr {R R' : Json → Json → Prop} {v s : Json}
    (h : ∀ w t, Leads definitions (v, s) (w, t) → (R w t ↔ R' w t)) :
    Meets definitions rule R v s ↔ Meets definitions rule R' v s :=
  ⟨Meets.congr h, Meets.congr fun w t hl => (h w t hl).symm⟩

/-- Over guarded definitions there is one satisfaction: it is given by what it holds of the
pairs to which a value with a schema leads. -/
theorem existsUnique_satisfaction (hguarded : Guarded definitions) :
    ∃! R, IsSatisfaction definitions rule R := by
  have hwf := wellFounded_leads hguarded
  let level (p : Json × Json) (R : ∀ q, Leads definitions p q → Prop) : Prop :=
    Meets definitions rule (fun w t => ∃ h : Leads definitions p (w, t), R (w, t) h) p.1 p.2
  have hfix (v s : Json) : hwf.fix level (v, s) ↔
      Meets definitions rule (fun w t => hwf.fix level (w, t)) v s := by
    rw [hwf.fix_eq level (v, s)]
    exact meets_congr fun w t hl => ⟨fun ⟨_, h⟩ => h, fun h => ⟨hl, h⟩⟩
  refine ⟨fun v s => hwf.fix level (v, s), hfix, fun R hR => ?_⟩
  suffices h : ∀ p : Json × Json, R p.1 p.2 ↔ hwf.fix level p by
    funext v s
    exact propext (h (v, s))
  intro p
  induction p using hwf.induction with
  | _ p ih => exact (hR _ _).trans ((meets_congr fun w t hl => ih (w, t) hl).trans (hfix _ _).symm)

end ApiTree
