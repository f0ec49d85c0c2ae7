import ApiTree.Proofs.Conformance.Breaches
import ApiTree.Proofs.Conformance.Decision

/-!
# ApiTree.Proofs.Conformance.Violations

What a check reports is so, and where it says.

* `violation_genuine` — over guarded definitions, where keywords have the right form and no
  division is rounded, every violation that a check reports is genuine.
-/

namespace ApiTree

namespace Check

open Schema

/-! ## what checks find -/

/-- Whatever a check finds has a property. -/
def Finds {α : Type} (check : Except Fault (Option α)) (Q : α → Prop) : Prop :=
  ∀ a, check = .ok (some a) → Q a

section Combine

variable {α β : Type} {check : Except Fault (Option α)} {P Q : α → Prop}

theorem Finds.mono (h : Finds check P) (hPQ : ∀ a, P a → Q a) : Finds check Q :=
  fun a ha => hPQ a (h a ha)

/-- A check that decides a property finds something only where the property fails. -/
theorem Finds.and_not {p : Prop} (h : Finds check Q) (hdecides : Decides check p) :
    Finds check fun a => Q a ∧ ¬ p := by
  intro a ha
  obtain ⟨found, hfound, hiff⟩ := hdecides
  obtain rfl := Except.ok.inj (ha.symm.trans hfound)
  exact ⟨h a ha, fun hp => nomatch hiff.2 hp⟩

theorem finds_none : Finds (.ok none) Q := by
  rintro a ⟨⟩

theorem finds_some {a : α} (h : Q a) : Finds (.ok (some a)) Q := by
  rintro _ ⟨⟩
  exact h

/-- What is found where a test fails has the property if the failure gives it. -/
theorem finds_unless {ok : Bool} {a : α} (h : ok = false → Q a) :
    Finds (.ok (if ok then none else some a)) Q := by
  cases ok with
  | true => exact finds_none
  | false => exact finds_some (h rfl)

/-- After a step, what follows finds what it finds for each outcome. -/
theorem finds_bind {x : Except Fault β} {f : β → Except Fault (Option α)}
    (h : ∀ b, x = .ok b → Finds (f b) Q) : Finds (x >>= f) Q := by
  cases x with
  | error e => rintro a ⟨⟩
  | ok b => exact h b rfl

/-- A breach that a condition stands for has the property if the condition gives it. -/
theorem finds_breachIf {broken : Bool} {b : Breach} {Q : Breach → Prop} (h : broken = true → Q b) :
    Finds (.ok (breachIf broken b)) Q := by
  cases broken with
  | false => exact finds_none
  | true => exact finds_some (h rfl)

/-- Of some breaches one is found. -/
theorem finds_firstBreach {Q : Breach → Prop} {bs : List (Except Fault (Option Breach))}
    (h : ∀ b ∈ bs, Finds b Q) : Finds (firstBreach bs) Q := by
  induction bs with
  | nil => exact finds_none
  | cons b bs ih =>
      refine finds_bind fun found hfound => ?_
      cases found with
      | some breach => exact finds_some (h b (by simp) breach hfound)
      | none => exact ih fun c hc => h c (List.mem_cons_of_mem b hc)

variable {Q : Violation → Prop}

/-- A breach of the value itself is found in place. -/
theorem finds_onValue {b : Except Fault (Option Breach)} (h : Finds b fun b => Q (.here b)) :
    Finds (onValue (m := Except Fault) b) Q := by
  refine finds_bind fun found hfound => ?_
  cases found with
  | none => exact finds_none
  | some breach => exact finds_some (h breach hfound)

/-- What is found in a part is found under the step to it. -/
theorem finds_onPart {step : Step} {check : Except Fault Verdict}
    (h : Finds check fun x => Q (x.under step)) : Finds (onPart step check) Q := by
  refine finds_bind fun found hfound => ?_
  cases found with
  | none => exact finds_none
  | some x => exact finds_some (h x hfound)

/-- Of two verdicts one is found. -/
theorem finds_orElse {first : Except Fault Verdict} {second : Unit → Except Fault Verdict}
    (h₁ : Finds first Q) (h₂ : Finds (second ()) Q) : Finds (orElse first second) Q := by
  refine finds_bind fun found hfound => ?_
  cases found with
  | none => exact h₂
  | some x => exact finds_some (h₁ x hfound)

/-- Of the verdicts on some parts one is found. -/
theorem finds_firstOf {f : α → Except Fault Verdict} {xs : List α}
    (h : ∀ x ∈ xs, Finds (f x) Q) : Finds (firstOf f xs) Q := by
  induction xs with
  | nil => exact finds_none
  | cons x xs ih =>
      exact finds_orElse (h x (by simp)) (ih fun y hy => h y (List.mem_cons_of_mem x hy))

end Combine

/-! ## keywords -/

section Keywords

variable {definitions : Table String Json} {rule : Option Conforms} {s : Schema}
  {R : Json → Json → Prop}

/-- A keyword that counts is there. -/
theorem find?_of_given? {keyword : String} {j : Json} (h : given? s keyword = some j) :
    Table.find? s keyword = some j := by
  rw [given?] at h
  split at h
  · cases h
  · exact h

/-- What the keyword `type` reports breaks the schema. -/
theorem finds_ofType (v : Json) (hs : Formed definitions rule s) :
    Finds (ofType v s) (s.BrokenBy rule R v []) := by
  have hshape : Finds (ofType v s) fun b => ∃ j, Table.find? s "type" = some j ∧ b = .type j v := by
    rw [ofType]
    split
    · exact finds_none
    · next j hj => exact finds_bind fun _ _ => finds_breachIf fun _ => ⟨j, find?_of_given? hj, rfl⟩
  refine (hshape.and_not (decides_ofType v hs)).mono ?_
  rintro _ ⟨⟨j, hj, rfl⟩, hnot⟩
  exact .type hj fun hname => hnot fun j' hj' => Option.some.inj (hj.symm.trans hj') ▸ hname

/-- What the keywords `enum` and `const` report breaks the schema. -/
theorem finds_ofEnum (v : Json) (hs : Formed definitions rule s) :
    Finds (ofEnum v s) (s.BrokenBy rule R v []) := by
  rw [ofEnum]
  cases hj : Table.find? s "enum" with
  | none => exact finds_none
  | some j =>
      have hform : isList (fun _ => true) j = true := hs "enum" j hj
      cases j with
      | arr options => exact finds_breachIf fun hnone => .enum hj (by simpa using hnone)
      | _ => simp [isList] at hform

/-- What a bound reports is that the number crosses it. -/
theorem finds_bounded {Q : Breach → Prop} {bound : Option Json} {operator : String}
    {crosses : Number → Number → Bool} {v : Json} {x : Number} {breach : Json → Json → Breach}
    (hv : v.number? = some x) (hbound : ∀ j, bound = some j → j.number?.isSome = true)
    (h : ∀ j b, bound = some j → j.number? = some b → crosses x b = true → Q (breach v j)) :
    Finds (bounded bound operator crosses v breach) Q := by
  cases bound with
  | none => exact finds_none
  | some j =>
      obtain ⟨b, hb⟩ := Option.isSome_iff_exists.1 (hbound j rfl)
      rw [bounded, against, toNumber?_of_number? hv, toNumber?_of_number? hb]
      exact finds_breachIf fun hcrosses => h j b rfl hb hcrosses

/-- An inclusive bound stands in the schema and is not flagged as exclusive. -/
theorem inclusive_of_bounds {inclusive exclusive : String} {j : Json}
    (h : (bounds s inclusive exclusive).1 = some j) :
    Table.find? s inclusive = some j ∧ ¬ s.Flags exclusive := by
  rw [bounds] at h
  split at h
  · cases h
  · next hnot =>
      refine ⟨find?_of_given? h, fun hflag => hnot ?_⟩
      rw [given?, show Table.find? s exclusive = some (.bool true) from hflag]

/-- An exclusive bound is a number of its own, or an inclusive one that is flagged. -/
theorem exclusive_of_bounds {inclusive exclusive : String} {j : Json}
    (h : numeric? (bounds s inclusive exclusive).2 = some j) :
    j.number?.isSome = true ∧ (Table.find? s exclusive = some j ∨
      Table.find? s inclusive = some j ∧ s.Flags exclusive) := by
  have hnumeric (found : Option Json) (hfound : numeric? found = some j) :
      j.number?.isSome = true ∧ found = some j := by
    cases found with
    | none => simp [numeric?] at hfound
    | some k => cases k <;> simp [numeric?] at hfound <;> subst hfound <;> exact ⟨rfl, rfl⟩
  obtain ⟨hnumber, hbounds⟩ := hnumeric _ h
  refine ⟨hnumber, ?_⟩
  rw [bounds] at hbounds
  split at hbounds
  · next hflag => exact .inr ⟨find?_of_given? hbounds, find?_of_given? hflag⟩
  · exact .inl (find?_of_given? hbounds)

/-- What the keyword `multipleOf` reports breaks the schema, where division is exact. -/
theorem finds_ofMultiple {v : Json} {x : Number} (hs : Formed definitions rule s)
    (hv : v.number? = some x)
    (hexact : ∀ d, HasNumber s "multipleOf" d → x.dividesExactly d = true) :
    Finds (ofMultiple v s) (s.BrokenBy rule R v []) := by
  have hshape : Finds (ofMultiple v s) fun b =>
      ∃ j, Table.find? s "multipleOf" = some j ∧ b = .multipleOf v j := by
    rw [ofMultiple]
    split
    · exact finds_none
    · next j hj =>
        split
        · exact finds_none
        · split
          · split
            · exact finds_breachIf fun _ => ⟨j, hj, rfl⟩
            · rintro _ ⟨⟩
          · rintro _ ⟨⟩
  refine (hshape.and_not (decides_ofMultiple hs hv hexact)).mono ?_
  rintro _ ⟨⟨j, hj, rfl⟩, hnot⟩
  push Not at hnot
  obtain ⟨d, hd, hzero, hmultiple⟩ := hnot
  exact .multipleOf hv hj (by simpa [HasNumber, hj] using hd) hzero hmultiple

/-- What the keywords for numbers report breaks the schema, where division is exact. -/
theorem finds_ofNumber {v : Json} {x : Number} (hs : Formed definitions rule s)
    (hv : v.number? = some x)
    (hexact : ∀ d, HasNumber s "multipleOf" d → x.dividesExactly d = true) :
    Finds (ofNumber v s) (s.BrokenBy rule R v []) := by
  have hlow : ∀ j, Table.find? s "minimum" = some j → j.number?.isSome = true := hs "minimum"
  have hhigh : ∀ j, Table.find? s "maximum" = some j → j.number?.isSome = true := hs "maximum"
  refine finds_firstBreach fun b hb => ?_
  simp only [List.mem_cons, List.not_mem_nil, or_false] at hb
  rcases hb with rfl | rfl | rfl | rfl | rfl
  · refine finds_bounded hv (fun j hj => hlow j (inclusive_of_bounds hj).1) fun j b hj hb hlt => ?_
    obtain ⟨hfind, hflag⟩ := inclusive_of_bounds hj
    exact .minimum hv hfind hb hflag ((Number.below_iff _ _).1 hlt)
  · refine finds_bounded hv (fun j hj => hhigh j (inclusive_of_bounds hj).1) fun j b hj hb hlt => ?_
    obtain ⟨hfind, hflag⟩ := inclusive_of_bounds hj
    exact .maximum hv hfind hb hflag ((Number.below_iff _ _).1 hlt)
  · refine finds_bounded hv (fun j hj => (exclusive_of_bounds hj).1) fun j b hj hb hle => ?_
    exact .exclusiveMinimum hv (exclusive_of_bounds hj).2 hb ((Number.atMost_iff _ _).1 hle)
  · refine finds_bounded hv (fun j hj => (exclusive_of_bounds hj).1) fun j b hj hb hle => ?_
    exact .exclusiveMaximum hv (exclusive_of_bounds hj).2 hb ((Number.atMost_iff _ _).1 hle)
  · exact finds_ofMultiple hs hv hexact

/-- What the keywords for a size report is that it is too small or too large. -/
theorem finds_ofSize {Q : Breach → Prop} {least most : String}
    {tooFew tooMany : Nat → Json → Breach} {size : Nat}
    (hleast : ∀ j, Table.find? s least = some j → j.number?.isSome = true)
    (hmost : ∀ j, Table.find? s most = some j → j.number?.isSome = true)
    (hfew : ∀ j b, Table.find? s least = some j → j.number? = some b →
      (Number.int size).Lt b → Q (tooFew size j))
    (hmany : ∀ j b, Table.find? s most = some j → j.number? = some b →
      b.Lt (.int size) → Q (tooMany size j)) :
    Finds (ofSize size s least most tooFew tooMany) Q := by
  refine finds_firstBreach fun b hb => ?_
  simp only [List.mem_cons, List.not_mem_nil, or_false] at hb
  rcases hb with rfl | rfl
  · exact finds_bounded rfl hleast fun j b hj hb hlt =>
      hfew j b hj hb ((Number.below_iff _ _).1 hlt)
  · exact finds_bounded rfl hmost fun j b hj hb hlt =>
      hmany j b hj hb ((Number.below_iff _ _).1 hlt)

end Keywords

/-! ## texts, arrays, objects -/

/-- The place that is reported has an item that equals an earlier one. -/
theorem repeated?_eq_some {seen xs : List Json} {i : Nat} (h : repeated? seen xs = some i) :
    ∃ x y k, (seen ++ xs)[i]? = some x ∧ k < i ∧ (seen ++ xs)[k]? = some y ∧
      x.itemEq y = true := by
  induction xs generalizing seen with
  | nil => cases h
  | cons x xs ih =>
      rw [repeated?] at h
      by_cases hx : seen.any x.itemEq = true
      · rw [if_pos hx] at h
        obtain rfl := Option.some.inj h
        obtain ⟨y, hy, heq⟩ := List.any_eq_true.1 hx
        obtain ⟨k, hk, hget⟩ := List.getElem_of_mem hy
        exact ⟨x, y, k, by simp, hk, by simp [List.getElem?_append_left hk, hk, hget], heq⟩
      · rw [if_neg hx] at h
        simpa using ih h

/-- Counting the parts that pass counts those with the property. -/
theorem countClean_eq_countP {f : Json → Except Fault Verdict} {P : Json → Prop} [DecidablePred P]
    {ts : List Json} (h : ∀ t ∈ ts, Decides (f t) (P t)) :
    countClean f ts = .ok (ts.countP (P ·)) := by
  induction ts with
  | nil => rfl
  | cons t ts ih =>
      obtain ⟨found, ht, hp⟩ := h t (by simp)
      rw [countClean, ht, ih fun u hu => h u (List.mem_cons_of_mem t hu)]
      cases found with
      | none =>
          rw [List.countP_cons_of_pos (by simpa using hp.1 rfl)]
          rfl
      | some x =>
          have hnot : ¬ P t := fun ht => Option.some_ne_none x (hp.2 ht)
          rw [List.countP_cons_of_neg (by simpa using hnot)]
          rfl

section Parts

variable {definitions : Table String Json} {rule : Option Conforms} {s : Schema}
  {R : Json → Json → Prop} {sub : Json → Json → Except Fault Verdict} {Q : Violation → Prop}

/-- What the keywords for texts report breaks the schema. -/
theorem finds_ofText {text : String} (hs : Formed definitions rule s)
    (hown : ∀ tail b, s.BrokenBy rule R (.str text) tail b → Q ⟨tail, b⟩) :
    Finds (ofText (answering rule) text s) Q := by
  refine finds_orElse ?_ ?_
  · cases hp : given? s "pattern" with
    | none => exact finds_none
    | some p =>
        have hfind := find?_of_given? hp
        have hform := hs "pattern" p hfind
        cases p <;> simp [hasForm] at hform
        next written =>
          cases rule with
          | some conforms =>
              refine finds_bind fun ok hok => finds_unless fun hnot => hown _ _ (.pattern hfind ?_)
              obtain rfl := Except.ok.inj hok
              exact Bool.eq_false_iff.1 hnot
          | none =>
              obtain ⟨ok, hok, hiff⟩ := found_eq_ok text (hform.resolve_left (by simp))
              refine finds_bind fun ok' hok' => finds_unless fun hnot =>
                hown _ _ (.pattern hfind ?_)
              obtain rfl := Except.ok.inj (hok.symm.trans hok')
              exact mt hiff.2 (Bool.eq_false_iff.1 hnot)
  · cases hf : given? s "format" with
    | none => exact finds_none
    | some f =>
        cases rule with
        | none => exact finds_none
        | some conforms =>
            refine finds_bind fun ok hok => finds_unless fun hnot =>
              hown _ _ (.format (find?_of_given? hf) rfl ?_)
            obtain rfl := Except.ok.inj hok
            exact hnot

/-- What is reported for items is reported for one of them, under its place. -/
theorem finds_ofItems {t : Json} {start : Nat} {xs : List Json}
    (h : ∀ i x, xs[i]? = some x → Finds (sub x t) fun y => Q (y.under (.item (start + i)))) :
    Finds (ofItems sub t start xs) Q := by
  induction xs generalizing start with
  | nil => exact finds_none
  | cons x xs ih =>
      refine finds_orElse (finds_onPart (h 0 x rfl)) (ih fun i y hy => ?_)
      have hnext := h (i + 1) y hy
      rwa [← Nat.add_assoc, Nat.add_right_comm] at hnext

/-- What is reported for a row is reported for one of its places, under the place. -/
theorem finds_ofPairs {start : Nat} {xs ts : List Json}
    (h : ∀ (i : Nat) x t, xs[i]? = some x → ts[i]? = some t →
      Finds (sub x t) fun y => Q (y.under (.item (start + i)))) :
    Finds (ofPairs sub start xs ts) Q := by
  induction xs generalizing start ts with
  | nil => exact finds_none
  | cons x xs ih =>
      cases ts with
      | nil => exact finds_none
      | cons t ts =>
          refine finds_orElse (finds_onPart (h 0 x t rfl rfl)) (ih fun i y u hy hu => ?_)
          have hnext := h (i + 1) y u hy hu
          rwa [← Nat.add_assoc, Nat.add_right_comm] at hnext

/-- What a check of an array finds is of its own, or is found in an item. -/
theorem finds_ofArray {xs : List Json} (hs : Formed definitions rule s)
    (hown : ∀ tail b, s.BrokenBy rule R (.arr xs) tail b → Q ⟨tail, b⟩)
    (hinto : ∀ step w t, s.Into (.arr xs) step w t → Finds (sub w t) fun x => Q (x.under step)) :
    Finds (ofArray sub xs s) Q := by
  refine finds_orElse (finds_onValue ?_) (finds_orElse ?_ (finds_orElse ?_ ?_))
  · exact finds_ofSize (hs "minItems") (hs "maxItems")
      (fun j b hj hb hlt => hown _ _ (.minItems hj hb hlt))
      (fun j b hj hb hlt => hown _ _ (.maxItems hj hb hlt))
  · rintro x hx
    rw [pure_eq_ok_iff] at hx
    split at hx
    · next hflag =>
        obtain ⟨i, hi, rfl⟩ := Option.map_eq_some_iff.1 hx
        obtain ⟨y, z, k, hy, hk, hz, heq⟩ := repeated?_eq_some hi
        exact hown _ _ (.uniqueItems ((flagged_iff (hs "uniqueItems")).1 hflag) hy hk hz heq)
    · cases hx
  · split
    · next t ht =>
        refine finds_ofItems fun i x hx => ?_
        rw [Nat.zero_add]
        exact hinto _ _ _ (.items ht hx)
    · next ts hts =>
        refine finds_ofPairs fun i x t hx ht => ?_
        rw [Nat.zero_add]
        exact hinto _ _ _ (.row (.inl hts) hx ht)
    · exact finds_none
  · refine finds_bind fun ts hlisted => finds_ofPairs fun i x t hx ht => ?_
    obtain ⟨ts', hts, hok⟩ | ⟨-, hok⟩ := listed_eq_ok (s := s) (hs "prefixItems")
    · obtain rfl := Except.ok.inj (hok.symm.trans hlisted)
      rw [Nat.zero_add]
      exact hinto _ _ _ (.row (.inr hts) hx ht)
    · obtain rfl := Except.ok.inj (hok.symm.trans hlisted)
      simp at ht

/-- A name that is reported as missing is required and not there. -/
theorem finds_firstMissing {ms : Json.Members} {names : List Json}
    (hform : ∀ j ∈ names, isText j = true)
    (h : ∀ name, .str name ∈ names → Table.find? ms name = none →
      Q ⟨[.member name], .missing (.str name)⟩) :
    Finds (firstMissing ms names) Q := by
  induction names with
  | nil => exact finds_none
  | cons j names ih =>
      have hrest := ih (fun k hk => hform k (List.mem_cons_of_mem j hk))
        fun name hname => h name (List.mem_cons_of_mem j hname)
      have htext := hform j (by simp)
      cases j with
      | str name =>
          rw [firstMissing]
          split
          · exact hrest
          · next hnot =>
              refine finds_some (h name (by simp) ?_)
              rw [Table.has_iff_find?] at hnot
              exact Option.eq_none_iff_forall_ne_some.2 fun w hw => hnot ⟨w, hw⟩
      | _ => simp [isText] at htext

/-- What a check of an object finds is of its own, or is found in a member. -/
theorem finds_ofObject {ms : Json.Members} (hs : Formed definitions rule s)
    (hown : ∀ tail b, s.BrokenBy rule R (.obj ms) tail b → Q ⟨tail, b⟩)
    (hinto : ∀ step w t, s.Into (.obj ms) step w t → Finds (sub w t) fun x => Q (x.under step)) :
    Finds (ofObject sub ms s) Q := by
  have hform : ∀ j, Table.find? s "required" = some j → isList isText j = true := hs "required"
  obtain ⟨ps, hproperties, hps, hdescribes⟩ := properties_eq_ok hs
  refine finds_orElse ?_ (finds_bind fun ps' hps' => ?_)
  · refine finds_bind fun names hlisted => ?_
    obtain ⟨names', hnames, hok⟩ | ⟨-, hok⟩ := listed_eq_ok hform
    · obtain rfl := Except.ok.inj (hok.symm.trans hlisted)
      exact finds_firstMissing (List.all_eq_true.1 (hform _ hnames)) fun name hname hnone =>
        hown _ _ (.required hnames hname hnone)
    · obtain rfl := Except.ok.inj (hok.symm.trans hlisted)
      exact finds_none
  · obtain rfl := Except.ok.inj (hproperties.symm.trans hps')
    refine finds_orElse (finds_firstOf ?_) (finds_firstOf ?_)
    · rintro ⟨name, t⟩ ht
      obtain ⟨ps', hfind, ht'⟩ := (hps name t).1 ht
      dsimp only
      split
      · next w hw => exact finds_onPart (hinto _ _ _ (.property hfind ht' hw))
      · exact finds_none
    · rintro ⟨name, w⟩ hw
      show Finds (if Table.has ps name then pure none else ofExtra sub _ name w) Q
      split
      · exact finds_none
      · next hnot =>
          have hdescribed : ¬ s.Describes name := mt (hdescribes name).2 hnot
          rw [ofExtra.eq_def]
          split
          · next hclosed =>
              exact finds_some (hown _ _ (.additionalProperties hclosed hw hdescribed))
          · next t ht => exact finds_onPart (hinto _ _ _ (.additional ht hw hdescribed))
          · exact finds_none

/-- What a check of the value's own kind finds is of its own, or is found in a part. -/
theorem finds_ofKind {v : Json} (hs : Formed definitions rule s)
    (hexact : ∀ x d, v.number? = some x → HasNumber s "multipleOf" d → x.dividesExactly d = true)
    (hown : ∀ tail b, s.BrokenBy rule R v tail b → Q ⟨tail, b⟩)
    (hinto : ∀ step w t, s.Into v step w t → Finds (sub w t) fun x => Q (x.under step)) :
    Finds (ofKind sub (answering rule) v s) Q := by
  cases v with
  | int n =>
      exact finds_onValue ((finds_ofNumber hs rfl fun d => hexact _ d rfl).mono fun b => hown [] b)
  | float x =>
      exact finds_onValue ((finds_ofNumber hs rfl fun d => hexact _ d rfl).mono fun b => hown [] b)
  | str text =>
      show Finds (orElse (onValue (ofSize text.length s "minLength" "maxLength" _ _)) fun _ =>
        ofText (answering rule) text s) Q
      refine finds_orElse (finds_onValue ?_) (finds_ofText hs hown)
      exact finds_ofSize (hs "minLength") (hs "maxLength")
        (fun j b hj hb hlt => hown _ _ (.minLength hj hb hlt))
        (fun j b hj hb hlt => hown _ _ (.maxLength hj hb hlt))
  | arr xs => exact finds_ofArray hs hown hinto
  | obj ms => exact finds_ofObject hs hown hinto
  | _ => exact finds_none

/-- Alternatives are missed when the value satisfies none of them. -/
theorem finds_ofAny {v : Json}
    (hform : ∀ j, Table.find? s "anyOf" = some j → isList isObject j = true)
    (hdecides : ∀ ts, Table.find? s "anyOf" = some (.arr ts) → ∀ t ∈ ts,
      Decides (sub v t) (R v t))
    (hown : ∀ ts, Table.find? s "anyOf" = some (.arr ts) → (∀ t ∈ ts, ¬ R v t) →
      Q (.here .noAlternative)) : Finds (ofAny sub v s) Q := by
  rw [ofAny]
  cases hj : Table.find? s "anyOf" with
  | none => exact finds_none
  | some j =>
      have hlist := hform j hj
      cases j with
      | arr ts =>
          obtain ⟨clean, hclean, hiff⟩ := someClean_eq_ok (hdecides ts hj)
          refine finds_bind fun _ hts => finds_bind fun clean' hclean' => finds_unless fun hnot =>
            hown ts hj fun t ht hR => ?_
          obtain rfl := Except.ok.inj hts
          obtain rfl := Except.ok.inj (hclean.symm.trans hclean')
          simp [hiff.2 ⟨t, ht, hR⟩] at hnot
      | _ => simp [isList] at hlist

/-- The alternatives that are counted are those that the value satisfies. -/
theorem finds_ofOne {v : Json} [DecidablePred (R v)]
    (hform : ∀ j, Table.find? s "oneOf" = some j → isList isObject j = true)
    (hdecides : ∀ ts, Table.find? s "oneOf" = some (.arr ts) → ∀ t ∈ ts,
      Decides (sub v t) (R v t))
    (hown : ∀ ts, Table.find? s "oneOf" = some (.arr ts) → ts.countP (R v ·) ≠ 1 →
      Q (.here (.alternatives (ts.countP (R v ·))))) : Finds (ofOne sub v s) Q := by
  rw [ofOne]
  cases hj : Table.find? s "oneOf" with
  | none => exact finds_none
  | some j =>
      have hlist := hform j hj
      cases j with
      | arr ts =>
          have hcount := countClean_eq_countP (hdecides ts hj)
          refine finds_bind fun _ hts => finds_bind fun n hn => ?_
          obtain rfl := Except.ok.inj hts
          obtain rfl := Except.ok.inj (hcount.symm.trans hn)
          show Finds (.ok (if _ then none else some _)) Q
          split
          · exact finds_none
          · next hnot => exact finds_some (hown ts hj hnot)
      | _ => simp [isList] at hlist

/-- What a check finds is of its own, is found for a schema that is to be satisfied as well, or is
found in a part.  What is found for alternatives is not reported. -/
theorem finds_ofSchema {v : Json} (hs : Formed definitions rule s)
    (hexact : ∀ x d, v.number? = some x → HasNumber s "multipleOf" d → x.dividesExactly d = true)
    (hdecides : ∀ keyword ∈ ["anyOf", "oneOf"], ∀ ts, Table.find? s keyword = some (.arr ts) →
      ∀ t ∈ ts, Decides (sub v t) (R v t))
    (hown : ¬ (v = .null ∧ s.Flags "nullable") → ∀ tail b, s.BrokenBy rule R v tail b → Q ⟨tail, b⟩)
    (hall : ¬ (v = .null ∧ s.Flags "nullable") → ∀ ts, Table.find? s "allOf" = some (.arr ts) →
      ∀ t ∈ ts, Finds (sub v t) Q)
    (hinto : ¬ (v = .null ∧ s.Flags "nullable") → ∀ step w t, s.Into v step w t →
      Finds (sub w t) fun x => Q (x.under step)) :
    Finds (ofSchema sub (answering rule) v s) Q := by
  rw [ofSchema]
  split
  · exact finds_none
  next hskip =>
  have hnull : ¬ (v = .null ∧ s.Flags "nullable") := by
    rintro ⟨rfl, hflag⟩
    exact hskip (Bool.and_eq_true_iff.2 ⟨rfl, (flagged_iff (hs "nullable")).2 hflag⟩)
  refine finds_orElse ?_ (finds_orElse ?_ (finds_orElse ?_ (finds_orElse ?_ (finds_orElse ?_ ?_))))
  · refine finds_bind fun ts hlisted => ?_
    obtain ⟨ts', hts, hok⟩ | ⟨-, hok⟩ := listed_eq_ok (s := s) (hs "allOf")
    · obtain rfl := Except.ok.inj (hok.symm.trans hlisted)
      exact finds_firstOf (hall hnull _ hts)
    · obtain rfl := Except.ok.inj (hok.symm.trans hlisted)
      exact finds_none
  · exact finds_ofAny (hs "anyOf") (hdecides "anyOf" (by simp)) fun ts hj hnot =>
      hown hnull _ _ (.anyOf hj hnot)
  · classical
    exact finds_ofOne (hs "oneOf") (hdecides "oneOf" (by simp)) fun ts hj hnot =>
      hown hnull _ _ (.oneOf hj hnot)
  · exact finds_onValue ((finds_ofType v hs).mono fun b => hown hnull [] b)
  · exact finds_onValue ((finds_ofEnum v hs).mono fun b => hown hnull [] b)
  · exact finds_ofKind hs hexact (hown hnull) (hinto hnull)

end Parts

/-- What a check finds is genuine, with enough fuel. -/
theorem finds_within {definitions : Table String Json} {rule : Option Conforms}
    {R : Json → Json → Prop} (hR : IsSatisfaction definitions rule R)
    (hguarded : Guarded definitions) (fuel : Nat) {v t : Json} (hfuel : Enough definitions fuel v t)
    (htyped : WellTyped definitions rule v t) (hexact : DividesExactly definitions v t) :
    Finds (within definitions (answering rule) fuel v t)
      (Violation.Genuine definitions rule R v t) := by
  induction fuel generalizing v t with
  | zero => exact absurd hfuel.one_lt (by omega)
  | succ fuel ih =>
      have htyped' {w u : Json} (hl : Leads definitions (v, t) (w, u)) :
          WellTyped definitions rule w u := fun w' u' hway => htyped w' u' (.head hl hway)
      have hexact' {w u : Json} (hl : Leads definitions (v, t) (w, u)) :
          DividesExactly definitions w u := fun w' ms hway => hexact w' ms (.head hl hway)
      have hfinds {w u : Json} (hl : Leads definitions (v, t) (w, u)) :
          Finds (within definitions (answering rule) fuel w u)
            (Violation.Genuine definitions rule R w u) :=
        ih (hfuel.of_leads hguarded hl) (htyped' hl) (hexact' hl)
      obtain ⟨s, rfl, hs⟩ := exists_formed (htyped v t .refl)
      rw [within]
      cases href : Table.find? s "$ref" with
      | some ref =>
          refine finds_bind fun u hu => (hfinds (leads_by_reference href hu)).mono ?_
          rintro x ⟨way, tail, w, t, hsteps, hdescends, hbroken⟩
          exact ⟨way, tail, w, t, hsteps, .reference href hu hdescends, hbroken⟩
      | none =>
          refine finds_ofSchema (R := R) hs (fun x d => hexact v s .refl x d) ?_ ?_ ?_ ?_
          · intro keyword hkeyword ts hts u hu
            have hl : Leads definitions (v, .obj s) (v, u) :=
              leads_in_place href (List.mem_cons_of_mem _ hkeyword) hts hu
            have henough := hfuel.of_leads hguarded hl
            exact decides_within hR hguarded fuel henough (htyped' hl) (hexact' hl)
          · intro hnull tail b hbroken
            exact ⟨[], tail, v, s, rfl, .here _ _, ⟨href, hnull⟩, hbroken⟩
          · intro hnull ts hts u hu
            refine (hfinds (leads_in_place href (by simp) hts hu)).mono ?_
            rintro x ⟨way, tail, w, t, hsteps, hdescends, hbroken⟩
            exact ⟨way, tail, w, t, hsteps, .all ⟨href, hnull⟩ hts hu hdescends, hbroken⟩
          · intro hnull step w u hinto
            refine (hfinds (hinto.leads href)).mono ?_
            rintro x ⟨way, tail, w', t, hsteps, hdescends, hbroken⟩
            exact ⟨step :: way, tail, w', t, congrArg (step :: ·) hsteps,
              .into ⟨href, hnull⟩ hinto hdescends, hbroken⟩

end Check

/-- A violation that a check reports is genuine and located.  Its steps, written one after the
other, are its path.  All of them, or all but the last, descend to a part of the value with a
schema inside; the keyword of the violation occurs in that schema and is broken by that part,
which does not satisfy the schema.  What the whole of the steps leads to is there, unless a name
is missing. -/
theorem violation_genuine (definitions : Table String Json) (rule : Option Conforms)
    (hguarded : Guarded definitions) (Sat : Json → Json → Prop)
    (hSat : IsSatisfaction definitions rule Sat) (v s : Json)
    (htyped : WellTyped definitions rule v s) (hexact : DividesExactly definitions v s)
    (x : Violation)
    (hx : Check.run (m := Except Fault) definitions (Check.answering rule) v s = .ok (some x)) :
    ∃ way tail w, ∃ t : Schema,
      x.path "$" = "$" ++ String.join ((way ++ tail).map Step.text) ∧
      Descends definitions v s way w (.obj t) ∧ v.PartAt way w ∧
      (x.constraint ≠ "required" → ∃ u, v.PartAt (way ++ tail) u) ∧
      (∃ j, Table.find? t x.constraint = some j) ∧
      t.BrokenBy rule Sat w tail x.breach ∧ ¬ Sat w (.obj t) := by
  obtain ⟨way, tail, w, t, hsteps, hdescends, hcounts, hbroken⟩ :=
    Check.finds_within hSat hguarded _ (enough_of_budget_le le_rfl) htyped hexact x hx
  refine ⟨way, tail, w, t, by rw [Violation.path, hsteps], hdescends, hdescends.partAt,
    fun hrequired => ?_, hbroken.occurs, hbroken, hSat.not_of_brokenBy hcounts hbroken⟩
  obtain ⟨u, hu⟩ := hbroken.partAt hrequired
  exact ⟨u, hdescends.partAt.append hu⟩

/-- In the fork of 4 and the fork of 6 and 3, it is the second part that is no tree of even
numbers: it is neither a leaf nor a fork of such trees. -/
theorem evenTrees_violation :
    ∃ x, Check.run (m := Except Fault) evenTrees none (.arr [.int 4, .arr [.int 6, .int 3]])
        (component "Fork") = .ok (some x) ∧ x.path "$" = "$[1]" ∧ x.constraint = "oneOf" ∧
      ∃ Sat, IsSatisfaction evenTrees none Sat ∧ ∃ way tail w, ∃ t : Schema,
        x.path "$" = "$" ++ String.join ((way ++ tail).map Step.text) ∧
        Descends evenTrees (.arr [.int 4, .arr [.int 6, .int 3]]) (component "Fork") way w
          (.obj t) ∧ t.BrokenBy none Sat w tail x.breach := by
  obtain ⟨Sat, hSat, -⟩ : ∃! Sat, IsSatisfaction evenTrees none Sat :=
    existsUnique_satisfaction guarded_evenTrees
  have hfork : component "Fork" ∈ evenTreeSchemas := by decide
  have hrun : Check.run (m := Except Fault) evenTrees none
      (.arr [.int 4, .arr [.int 6, .int 3]]) (component "Fork") =
        .ok (some ⟨[.item 1], .alternatives 0⟩) := rfl
  obtain ⟨way, tail, w, t, hpath, hdescends, -, -, -, hbroken, -⟩ :=
    violation_genuine evenTrees none guarded_evenTrees Sat hSat _ _ (wellTyped_evenTrees hfork)
      (dividesExactly_evenTrees hfork) _ hrun
  exact ⟨_, hrun, by decide, rfl, Sat, hSat, way, tail, w, t, hpath, hdescends, hbroken⟩

end ApiTree
