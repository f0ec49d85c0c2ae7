import ApiTree.Proofs.Conformance.Decision

/-!
# ApiTree.Proofs.Conformance.Termination

Checking comes to an end.  A check has fuel, so that it is a function; what it does is one step
(`Check.level`) that calls the check again for the schemas to which the step leads.  Over guarded
definitions the fuel counts for nothing:

* `check_terminates` — exactly one function repeats the step without end of fuel, and a check is
  that function with all fuel from its budget on.  It never reports that references go on without
  end, and never misses a definition where every reference that it meets has one.

No keyword has to be of the right form for this.  A check of a malformed schema ends as well, with
a fault of its own.
-/

namespace ApiTree

/-- A fault of a keyword or a value, not of following references. -/
def Fault.IsLocal : Fault → Prop
  | .endless | .missingKey _ => False
  | _ => True

namespace Check

open Schema

/-! ## faults -/

/-- All faults that a computation ends with have a property. -/
def FaultsIn {α : Type} (P : Fault → Prop) (x : Except Fault α) : Prop := ∀ e, x = .error e → P e

/-- Two computations come to the same, and only to faults with a property. -/
def Alike {α : Type} (P : Fault → Prop) (x y : Except Fault α) : Prop := x = y ∧ FaultsIn P x

section Faults

variable {α β : Type} {P Q : Fault → Prop} {x y : Except Fault α}

theorem faultsIn_ok (a : α) : FaultsIn P (.ok a : Except Fault α) := fun _ h => nomatch h

theorem faultsIn_error {e : Fault} (h : P e) : FaultsIn P (.error e : Except Fault α) := by
  rintro _ ⟨⟩
  exact h

theorem FaultsIn.mono (h : FaultsIn P x) (hPQ : ∀ e, P e → Q e) : FaultsIn Q x :=
  fun e he => hPQ e (h e he)

theorem faultsIn_bind {f : α → Except Fault β} (hx : FaultsIn P x)
    (hf : ∀ a, FaultsIn P (f a)) : FaultsIn P (x >>= f) := by
  cases x with
  | error e => exact faultsIn_error (hx e rfl)
  | ok a => exact hf a

/-- A computation comes to the same as itself. -/
theorem FaultsIn.alike (h : FaultsIn P x) : Alike P x x := ⟨rfl, h⟩

/-- Two steps come to the same if each of them does. -/
theorem alike_bind {f g : α → Except Fault β} (hx : Alike P x y)
    (hf : ∀ a, x = .ok a → Alike P (f a) (g a)) : Alike P (x >>= f) (y >>= g) := by
  obtain ⟨rfl, hfaults⟩ := hx
  cases x with
  | error e => exact (faultsIn_error (hfaults e rfl)).alike
  | ok a => exact hf a rfl

end Faults

/-! ## faults of keywords -/

section Local

variable {α : Type}

/-- A computation has faults of its own only. -/
abbrev LocalFaults (x : Except Fault α) : Prop := FaultsIn Fault.IsLocal x

theorem localFaults_parts (j : Json) : LocalFaults (parts j) := by
  cases j with
  | arr xs => exact faultsIn_ok _
  | obj ms => exact faultsIn_ok _
  | str s => exact faultsIn_ok _
  | _ => exact faultsIn_error trivial

theorem localFaults_listed (s : Schema) (keyword : String) : LocalFaults (listed s keyword) := by
  rw [listed]
  cases Table.find? s keyword with
  | none => exact faultsIn_ok _
  | some j => exact localFaults_parts j

theorem localFaults_hashable (j : Json) : LocalFaults (hashable j) := by
  cases j with
  | arr xs => exact faultsIn_error trivial
  | obj ms => exact faultsIn_error trivial
  | _ => exact faultsIn_ok _

/-- What is no schema is a fault of its own. -/
theorem isLocal_notASchema (j : Json) : (notASchema j).IsLocal := by
  cases j with
  | str s =>
      rw [notASchema]
      split <;> trivial
  | arr xs =>
      rw [notASchema]
      split <;> trivial
  | _ => trivial

/-- Looking for a type that admits the value fails by the types only. -/
theorem localFaults_admitsOne (v : Json) (ts : List Json) : LocalFaults (admitsOne v ts) := by
  induction ts with
  | nil => exact faultsIn_ok _
  | cons t ts ih =>
      have hadmits : LocalFaults (admits v t) := by
        cases t with
        | str name => exact faultsIn_ok _
        | _ => exact faultsIn_bind (localFaults_hashable _) fun _ => faultsIn_ok _
      refine faultsIn_bind hadmits fun admitted => ?_
      cases admitted with
      | true => exact faultsIn_ok _
      | false => exact ih

theorem localFaults_ofType (v : Json) (s : Schema) : LocalFaults (ofType v s) := by
  rw [ofType]
  cases given? s "type" with
  | none => exact faultsIn_ok _
  | some expected => exact faultsIn_bind (localFaults_admitsOne v _) fun _ => faultsIn_ok _

theorem localFaults_ofEnum (v : Json) (s : Schema) : LocalFaults (ofEnum v s) := by
  rw [ofEnum]
  cases Table.find? s "enum" with
  | none => exact faultsIn_ok _
  | some options => exact faultsIn_bind (localFaults_parts options) fun _ => faultsIn_ok _

/-- A bound fails by its own value only. -/
theorem localFaults_bounded {bound : Option Json} {operator : String}
    {crosses : Number → Number → Bool} {v : Json} {breach : Json → Json → Breach} :
    LocalFaults (bounded bound operator crosses v breach) := by
  cases bound with
  | none => exact faultsIn_ok _
  | some b =>
      refine faultsIn_bind ?_ fun _ => faultsIn_ok _
      rw [against]
      split
      · exact faultsIn_ok _
      · exact faultsIn_error trivial

theorem localFaults_ofMultiple (v : Json) (s : Schema) : LocalFaults (ofMultiple v s) := by
  rw [ofMultiple]
  cases Table.find? s "multipleOf" with
  | none => exact faultsIn_ok _
  | some d =>
      dsimp only
      split
      · exact faultsIn_ok _
      · split
        · split
          · exact faultsIn_ok _
          · exact faultsIn_error trivial
        · exact faultsIn_error trivial

/-- Breaches that are looked for one after the other have the faults of each. -/
theorem localFaults_firstBreach {bs : List (Except Fault (Option Breach))}
    (h : ∀ b ∈ bs, LocalFaults b) : LocalFaults (firstBreach bs) := by
  induction bs with
  | nil => exact faultsIn_ok _
  | cons b bs ih =>
      refine faultsIn_bind (h b List.mem_cons_self) fun found => ?_
      cases found with
      | some breach => exact faultsIn_ok _
      | none => exact ih fun b' hb' => h b' (List.mem_cons_of_mem b hb')

theorem localFaults_ofNumber (v : Json) (s : Schema) : LocalFaults (ofNumber v s) := by
  refine localFaults_firstBreach fun b hb => ?_
  simp only [List.mem_cons, List.not_mem_nil, or_false] at hb
  rcases hb with rfl | rfl | rfl | rfl | rfl
  · exact localFaults_bounded
  · exact localFaults_bounded
  · exact localFaults_bounded
  · exact localFaults_bounded
  · exact localFaults_ofMultiple v s

theorem localFaults_ofSize (size : Nat) (s : Schema) (least most : String)
    (tooFew tooMany : Nat → Json → Breach) :
    LocalFaults (ofSize size s least most tooFew tooMany) := by
  refine localFaults_firstBreach fun b hb => ?_
  simp only [List.mem_cons, List.not_mem_nil, or_false] at hb
  rcases hb with rfl | rfl
  · exact localFaults_bounded
  · exact localFaults_bounded

theorem localFaults_found (pattern : Json) (text : String) : LocalFaults (found pattern text) := by
  cases pattern with
  | str written =>
      rw [found]
      split
      · exact faultsIn_ok _
      · exact faultsIn_error trivial
  | _ => exact faultsIn_bind (localFaults_hashable _) fun _ => faultsIn_error trivial

theorem localFaults_firstMissing (ms : Json.Members) (names : List Json) :
    LocalFaults (firstMissing ms names) := by
  induction names with
  | nil => exact faultsIn_ok _
  | cons j names ih =>
      cases j with
      | str name =>
          rw [firstMissing]
          split
          · exact ih
          · exact faultsIn_ok _
      | _ => exact faultsIn_bind (localFaults_hashable _) fun _ => faultsIn_ok _

theorem localFaults_properties (s : Schema) : LocalFaults (properties s) := by
  rw [properties]
  split
  · exact faultsIn_ok _
  · exact faultsIn_ok _
  · exact faultsIn_error trivial

end Local

/-! ## putting verdicts together -/

section Combine

variable {P : Fault → Prop}

/-- A verdict and what is asked after it come to the same if each does. -/
theorem alike_orElse {first first' : Except Fault Verdict}
    {second second' : Unit → Except Fault Verdict}
    (h₁ : Alike P first first') (h₂ : Alike P (second ()) (second' ())) :
    Alike P (orElse first second) (orElse first' second') :=
  alike_bind h₁ fun found _ => match found with
    | some _ => (faultsIn_ok _).alike
    | none => h₂

/-- A verdict on a part comes to the same wherever the part stands. -/
theorem alike_onPart {v v' : Except Fault Verdict} (step : Step) (h : Alike P v v') :
    Alike P (onPart step v) (onPart step v') :=
  alike_bind h fun _ _ => (faultsIn_ok _).alike

theorem alike_onValue {b : Except Fault (Option Breach)} (h : FaultsIn P b) :
    Alike P (onValue (m := Except Fault) b) (onValue b) :=
  alike_bind (x := b) h.alike fun _ _ => (faultsIn_ok _).alike

variable {α : Type} {f g : α → Except Fault Verdict} {xs : List α}

/-- The first verdict on some parts is the same if it is on each. -/
theorem alike_firstOf (h : ∀ x ∈ xs, Alike P (f x) (g x)) :
    Alike P (firstOf f xs) (firstOf g xs) := by
  induction xs with
  | nil => exact (faultsIn_ok _).alike
  | cons x xs ih =>
      have hrest := ih fun y hy => h y (List.mem_cons_of_mem x hy)
      exact alike_orElse (h x List.mem_cons_self) hrest

/-- Whether some part passes is the same if each verdict is. -/
theorem alike_someClean (h : ∀ x ∈ xs, Alike P (f x) (g x)) :
    Alike P (someClean f xs) (someClean g xs) := by
  induction xs with
  | nil => exact (faultsIn_ok _).alike
  | cons x xs ih =>
      have hrest := ih fun y hy => h y (List.mem_cons_of_mem x hy)
      refine alike_bind (h x List.mem_cons_self) fun found _ => ?_
      cases found with
      | none => exact (faultsIn_ok _).alike
      | some _ => exact hrest

/-- How many parts pass is the same if each verdict is. -/
theorem alike_countClean (h : ∀ x ∈ xs, Alike P (f x) (g x)) :
    Alike P (countClean f xs) (countClean g xs) := by
  induction xs with
  | nil => exact (faultsIn_ok _).alike
  | cons x xs ih =>
      have hrest := ih fun y hy => h y (List.mem_cons_of_mem x hy)
      exact alike_bind (h x List.mem_cons_self) fun _ _ =>
        alike_bind hrest fun _ _ => (faultsIn_ok _).alike

end Combine

/-! ## one step -/

/-- One step of a check, with `sub` for the schemas to which it leads. -/
def level (definitions : Table String Json) (rule : Option (TextRule (Except Fault)))
    (sub : Json → Json → Except Fault Verdict) (v : Json) : Json → Except Fault Verdict
  | .obj s =>
    match Table.find? s "$ref" with
    | some ref => do sub v (← follow definitions ref)
    | none => ofSchema sub rule v s
  | s => .error (notASchema s)

section Level

variable {definitions : Table String Json} {rule : Option (TextRule (Except Fault))}
  {P : Fault → Prop} {sub sub' : Json → Json → Except Fault Verdict} {s : Schema} {v : Json}

/-- With fuel left a check is one step with one unit of fuel less. -/
theorem within_succ (fuel : Nat) (v s : Json) :
    within definitions rule (fuel + 1) v s =
      level definitions rule (within definitions rule fuel) v s := by
  cases s <;> rfl

/-- What is no schema is refused at once. -/
theorem level_other {t : Json} (h : isObject t = false) (v : Json) :
    level definitions rule sub v t = .error (notASchema t) := by
  cases t with
  | obj ms => simp [isObject] at h
  | _ => rfl

/-- With fuel left, what is no object is no schema. -/
theorem within_other {fuel : Nat} {t : Json} (h : isObject t = false) (hfuel : 0 < fuel)
    (v : Json) :
    within definitions rule fuel v t = .error (notASchema t) := by
  obtain ⟨n, rfl⟩ := Nat.exists_eq_add_of_lt hfuel
  rw [Nat.zero_add, within_succ, level_other h]

/-- What stands where a list of schemas is expected: schemas of a list, or else no schemas. -/
theorem mem_parts {j t : Json} {ts : List Json} (h : parts j = .ok ts) (ht : t ∈ ts) :
    (∃ us, j = .arr us ∧ t ∈ us) ∨ isObject t = false := by
  cases j with
  | arr us =>
      obtain rfl := Except.ok.inj h
      exact .inl ⟨us, rfl, ht⟩
  | obj ms =>
      obtain rfl := Except.ok.inj h
      obtain ⟨e, -, rfl⟩ := List.mem_map.1 ht
      exact .inr rfl
  | str text =>
      obtain rfl := Except.ok.inj h
      obtain ⟨c, -, rfl⟩ := List.mem_map.1 ht
      exact .inr rfl
  | _ => cases h

/-- What a keyword lists is a part of the schema, or no schema at all. -/
theorem mem_listed {keyword : String} {t : Json} {ts : List Json} (h : listed s keyword = .ok ts)
    (ht : t ∈ ts) : t ∈ s.under keyword ∨ isObject t = false := by
  rw [listed] at h
  cases hj : Table.find? s keyword with
  | none =>
      rw [hj] at h
      obtain rfl := Except.ok.inj h
      exact absurd ht List.not_mem_nil
  | some j =>
      rw [hj] at h
      rcases mem_parts h ht with ⟨us, rfl, hu⟩ | hother
      · exact .inl (mem_under_of_arr hj hu)
      · exact .inr hother

/-- Faults of keywords have the property, and so have those of the rule. -/
structure Covers (P : Fault → Prop) (rule : Option (TextRule (Except Fault))) : Prop where
  keywords : ∀ e, Fault.IsLocal e → P e
  rule : ∀ r, rule = some r → ∀ p text, FaultsIn P (r p text)

/-- The calls for the schemas to which a value with a schema leads are alike, and so are those for
what is no schema. -/
structure Calls (definitions : Table String Json) (P : Fault → Prop)
    (sub sub' : Json → Json → Except Fault Verdict) (v s : Json) : Prop where
  leads : ∀ w t, Leads definitions (v, s) (w, t) → Alike P (sub w t) (sub' w t)
  other : ∀ w t, isObject t = false → Alike P (sub w t) (sub' w t)

/-- Faults of keywords and values are among those of any check. -/
theorem Covers.faultsIn {α : Type} {x : Except Fault α} (hP : Covers P rule) (h : LocalFaults x) :
    FaultsIn P x :=
  h.mono hP.keywords

section Parts

/-- The keywords for texts come to the same, since they ask for no other check. -/
theorem alike_ofText (hP : Covers P rule) (text : String) :
    Alike P (ofText rule text s) (ofText rule text s) := by
  refine alike_orElse ?_ ?_
  · cases given? s "pattern" with
    | none => exact (faultsIn_ok _).alike
    | some p =>
        cases rule with
        | some r => exact alike_bind (hP.rule r rfl p text).alike fun _ _ => (faultsIn_ok _).alike
        | none =>
            have hfound := hP.faultsIn (localFaults_found p text)
            exact alike_bind (x := found p text) hfound.alike fun _ _ => (faultsIn_ok _).alike
  · split
    · next f r _ =>
        exact alike_bind (hP.rule r rfl f text).alike fun _ _ => (faultsIn_ok _).alike
    · exact (faultsIn_ok _).alike

variable (href : Table.find? s "$ref" = none) (hsub : Calls definitions P sub sub' v (.obj s))

include href hsub

/-- A keyword that applies to the value itself asks for checks that come to the same. -/
theorem alike_in_place {keyword : String} (hkeyword : keyword ∈ ["allOf", "anyOf", "oneOf"])
    {j : Json} {ts : List Json}
    (hj : Table.find? s keyword = some j) (hts : parts j = .ok ts) :
    ∀ t ∈ ts, Alike P (sub v t) (sub' v t) := by
  intro t ht
  rcases mem_parts hts ht with ⟨us, rfl, hu⟩ | hother
  · exact hsub.leads v t (leads_in_place href hkeyword hj hu)
  · exact hsub.other v t hother

/-- The keyword `anyOf` comes to the same if the checks that it asks for do. -/
theorem alike_ofAny (hP : Covers P rule) :
    Alike P (ofAny sub v s) (ofAny sub' v s) := by
  rw [ofAny, ofAny]
  cases hj : Table.find? s "anyOf" with
  | none => exact (faultsIn_ok _).alike
  | some j =>
      refine alike_bind (hP.faultsIn (localFaults_parts j)).alike fun ts hts => ?_
      have hcalls := alike_in_place href hsub (by simp) hj hts
      exact alike_bind (alike_someClean hcalls) fun _ _ => (faultsIn_ok _).alike

/-- The keyword `oneOf` comes to the same if the checks that it asks for do. -/
theorem alike_ofOne (hP : Covers P rule) :
    Alike P (ofOne sub v s) (ofOne sub' v s) := by
  rw [ofOne, ofOne]
  cases hj : Table.find? s "oneOf" with
  | none => exact (faultsIn_ok _).alike
  | some j =>
      refine alike_bind (hP.faultsIn (localFaults_parts j)).alike fun ts hts => ?_
      have hcalls := alike_in_place href hsub (by simp) hj hts
      exact alike_bind (alike_countClean hcalls) fun _ _ => (faultsIn_ok _).alike

/-- The keyword `allOf` comes to the same if the checks that it asks for do. -/
theorem alike_ofAll (hP : Covers P rule) :
    Alike P (do firstOf (sub v) (← liftM (listed s "allOf")))
      (do firstOf (sub' v) (← liftM (listed s "allOf"))) := by
  refine alike_bind (x := listed s "allOf") (hP.faultsIn (localFaults_listed s _)).alike
    fun ts hts => alike_firstOf fun t ht => ?_
  rcases mem_listed hts ht with hunder | hother
  · refine hsub.leads v t (.inl ⟨rfl, ?_⟩)
    simp only [inPlace, href]
    exact List.mem_flatMap.2 ⟨"allOf", by simp, hunder⟩
  · exact hsub.other v t hother

end Parts

/-- The items of a list come to the same if the check of each does. -/
theorem alike_ofItems {t : Json} {i : Nat} {xs : List Json}
    (h : ∀ x ∈ xs, Alike P (sub x t) (sub' x t)) :
    Alike P (ofItems sub t i xs) (ofItems sub' t i xs) := by
  induction xs generalizing i with
  | nil => exact (faultsIn_ok _).alike
  | cons x xs ih =>
      have hrest := ih (i := i + 1) fun y hy => h y (List.mem_cons_of_mem x hy)
      exact alike_orElse (alike_onPart _ (h x List.mem_cons_self)) hrest

/-- The places of a row come to the same if the checks of items against places do. -/
theorem alike_ofPairs {i : Nat} {xs ts : List Json}
    (h : ∀ x ∈ xs, ∀ t ∈ ts, Alike P (sub x t) (sub' x t)) :
    Alike P (ofPairs sub i xs ts) (ofPairs sub' i xs ts) := by
  induction xs generalizing i ts with
  | nil => exact (faultsIn_ok _).alike
  | cons x xs ih =>
      cases ts with
      | nil => exact (faultsIn_ok _).alike
      | cons t ts =>
          have hrest := ih (i := i + 1) fun y hy u hu =>
            h y (List.mem_cons_of_mem x hy) u (List.mem_cons_of_mem t hu)
          exact alike_orElse (alike_onPart _ (h x List.mem_cons_self t List.mem_cons_self)) hrest

/-- The keywords for arrays come to the same if the checks that they ask for do. -/
theorem alike_ofArray (hP : Covers P rule) (href : Table.find? s "$ref" = none) {xs : List Json}
    (hsub : Calls definitions P sub sub' (.arr xs) (.obj s)) :
    Alike P (ofArray sub xs s) (ofArray sub' xs s) := by
  have hsize := alike_onValue
    (hP.faultsIn (localFaults_ofSize xs.length s "minItems" "maxItems" .minItems .maxItems))
  have hinside {keyword : String}
      (hk : keyword ∈ ["items", "prefixItems", "additionalProperties"]) :
      ∀ x ∈ xs, ∀ t ∈ s.under keyword, Alike P (sub x t) (sub' x t) := fun x hx t ht =>
    hsub.leads x t (leads_inside href hx hk ht)
  refine alike_orElse hsize (alike_orElse (faultsIn_ok _).alike (alike_orElse ?_ ?_))
  · split
    · next ms hms => exact alike_ofItems fun x hx => hinside (by simp) x hx _ (mem_under_of_obj hms)
    · next ts hts =>
        exact alike_ofPairs fun x hx t ht => hinside (by simp) x hx t (mem_under_of_arr hts ht)
    · exact (faultsIn_ok _).alike
  · refine alike_bind (x := listed s "prefixItems") (hP.faultsIn (localFaults_listed s _)).alike
      fun ts hts => alike_ofPairs fun x hx t ht => ?_
    rcases mem_listed hts ht with hunder | hother
    · exact hinside (by simp) x hx t hunder
    · exact hsub.other x t hother

/-- A member beside the declared ones comes to the same if its check does. -/
theorem alike_ofExtra {extra : Option Json} {name : String} {w : Json}
    (h : ∀ t, extra = some (.obj t) → Alike P (sub w (.obj t)) (sub' w (.obj t))) :
    Alike P (ofExtra sub extra name w) (ofExtra sub' extra name w) := by
  unfold ofExtra
  split
  · exact (faultsIn_ok _).alike
  · next t => exact alike_onPart _ (h t rfl)
  · exact (faultsIn_ok _).alike

/-- The keywords for objects come to the same if the checks that they ask for do. -/
theorem alike_ofObject (hP : Covers P rule) (href : Table.find? s "$ref" = none)
    {ms : Json.Members} (hsub : Calls definitions P sub sub' (.obj ms) (.obj s)) :
    Alike P (ofObject sub ms s) (ofObject sub' ms s) := by
  have hpart {name : String} {w : Json} (hw : (name, w) ∈ ms) : w ∈ (Json.obj ms).parts :=
    List.mem_map_of_mem (f := (·.2)) hw
  refine alike_orElse ?_ ?_
  · exact alike_bind (x := listed s "required") (hP.faultsIn (localFaults_listed s _)).alike
      fun names _ => (hP.faultsIn (localFaults_firstMissing ms names)).alike
  refine alike_bind (x := properties s) (hP.faultsIn (localFaults_properties s)).alike
    fun described hdescribed => alike_orElse ?_ ?_
  · refine alike_firstOf ?_
    rintro ⟨name, t⟩ ht
    have hmem : t ∈ s.described := by
      rw [properties] at hdescribed
      split at hdescribed
      · exact absurd (Except.ok.inj hdescribed ▸ ht) List.not_mem_nil
      · next ps hps => exact mem_described hps (Except.ok.inj hdescribed ▸ ht)
      · cases hdescribed
    dsimp only
    split
    · next w hw =>
        have hinside := hpart (Table.mem_of_find? hw)
        exact alike_onPart _ (hsub.leads w t (leads_described href hinside hmem))
    · exact (faultsIn_ok _).alike
  · refine alike_firstOf ?_
    rintro ⟨name, w⟩ hw
    dsimp only
    split
    · exact (faultsIn_ok _).alike
    · exact alike_ofExtra fun t ht =>
        hsub.leads w _ (leads_inside href (hpart hw) (by simp) (mem_under_of_obj ht))

/-- The keywords for one kind of value come to the same if the checks that they ask for do. -/
theorem alike_ofKind (hP : Covers P rule) (href : Table.find? s "$ref" = none)
    (hsub : Calls definitions P sub sub' v (.obj s)) :
    Alike P (ofKind sub rule v s) (ofKind sub' rule v s) := by
  cases v with
  | null => exact (faultsIn_ok _).alike
  | bool b => exact (faultsIn_ok _).alike
  | int n => exact alike_onValue (hP.faultsIn (localFaults_ofNumber _ s))
  | float x => exact alike_onValue (hP.faultsIn (localFaults_ofNumber _ s))
  | str text =>
      have hsize := hP.faultsIn
        (localFaults_ofSize text.length s "minLength" "maxLength" .minLength .maxLength)
      have htext : Alike P (ofText rule text s) (ofText rule text s) := alike_ofText hP text
      show Alike P (orElse _ fun _ => ofText rule text s) (orElse _ fun _ => ofText rule text s)
      exact alike_orElse (alike_onValue hsize) htext
  | arr xs => exact alike_ofArray hP href hsub
  | obj ms => exact alike_ofObject hP href hsub

/-- One step comes to the same with calls that come to the same. -/
theorem alike_level (hP : Covers P rule) {s : Json}
    (hfollow : ∀ ms ref, s = .obj ms → Table.find? ms "$ref" = some ref →
      FaultsIn P (follow definitions ref))
    (hsub : Calls definitions P sub sub' v s) :
    Alike P (level definitions rule sub v s) (level definitions rule sub' v s) := by
  cases s with
  | obj s =>
      rw [level, level]
      cases href : Table.find? s "$ref" with
      | some ref =>
          exact alike_bind (hfollow s ref rfl href).alike fun t ht =>
            hsub.leads v t (leads_by_reference href ht)
      | none =>
          dsimp only
          rw [ofSchema, ofSchema]
          split
          · exact (faultsIn_ok _).alike
          · have htype := alike_onValue (hP.faultsIn (localFaults_ofType v s))
            have henum := alike_onValue (hP.faultsIn (localFaults_ofEnum v s))
            exact alike_orElse (alike_ofAll href hsub hP) (alike_orElse (alike_ofAny href hsub hP)
              (alike_orElse (alike_ofOne href hsub hP) (alike_orElse htype
                (alike_orElse henum (alike_ofKind hP href hsub)))))
  | _ => exact (faultsIn_error (hP.keywords _ (isLocal_notASchema _))).alike

/-- With enough fuel a check comes to the same whatever the fuel is.  Its faults have a property
that faults of keywords, of the rule, and of following the references on the way have. -/
theorem alike_within (hguarded : Guarded definitions) (hP : Covers P rule) {fuel fuel' : Nat}
    {v s : Json} (h : Enough definitions fuel v s) (h' : Enough definitions fuel' v s)
    (hfollow : ∀ w ms ref, Relation.ReflTransGen (Leads definitions) (v, s) (w, .obj ms) →
      Table.find? ms "$ref" = some ref → FaultsIn P (follow definitions ref)) :
    Alike P (within definitions rule fuel v s) (within definitions rule fuel' v s) := by
  induction fuel generalizing fuel' v s with
  | zero => exact absurd h.one_lt (by omega)
  | succ fuel ih =>
      obtain ⟨fuel', rfl⟩ := Nat.exists_eq_add_of_lt (Nat.zero_lt_of_lt h'.one_lt)
      rw [Nat.zero_add] at h' ⊢
      rw [within_succ, within_succ]
      refine alike_level hP ?_ ⟨fun w t hl => ?_, fun w t hother => ?_⟩
      · rintro ms ref rfl href
        exact hfollow v ms ref .refl href
      · exact ih (h.of_leads hguarded hl) (h'.of_leads hguarded hl)
          fun w' ms ref hway => hfollow w' ms ref (.head hl hway)
      · rw [within_other hother (Nat.lt_of_succ_lt_succ h.one_lt),
          within_other hother (Nat.lt_of_succ_lt_succ h'.one_lt)]
        exact (faultsIn_error (hP.keywords _ (isLocal_notASchema t))).alike

end Level

/-! ## the whole recursion -/

/-- A function repeats the step of a check: it is the recursion of the step, without fuel. -/
def Repeats (definitions : Table String Json) (rule : Option (TextRule (Except Fault)))
    (check : Json → Json → Except Fault Verdict) : Prop :=
  ∀ v s, check v s = level definitions rule check v s

/-- The rule gives a fault for some pattern and text. -/
def Raises (rule : Option (TextRule (Except Fault))) (e : Fault) : Prop :=
  ∃ r p text, rule = some r ∧ r p text = .error e

section Whole

variable {definitions : Table String Json} {rule : Option (TextRule (Except Fault))}

theorem covers_true : Covers (fun _ => True) rule :=
  ⟨fun _ _ => trivial, fun _ _ _ _ _ _ => trivial⟩

/-- Any fuel that is enough gives the answer of a run. -/
theorem within_eq_run (hguarded : Guarded definitions) {fuel : Nat} {v s : Json}
    (h : Enough definitions fuel v s) :
    within definitions rule fuel v s = run definitions rule v s :=
  (alike_within hguarded covers_true h (enough_of_budget_le le_rfl) fun _ _ _ _ _ _ _ => trivial).1

/-- A check with all fuel from its budget on repeats the step. -/
theorem repeats_run (hguarded : Guarded definitions) :
    Repeats definitions rule (run definitions rule) := by
  intro v s
  have henough : Enough definitions (budget definitions v s + 1) v s :=
    enough_of_budget_le (Nat.le_succ _)
  rw [← within_eq_run hguarded henough, within_succ]
  refine (alike_level (P := fun _ => True) covers_true (fun _ _ _ _ _ _ => trivial)
    ⟨fun w t hl => ?_, fun w t hother => ?_⟩).1
  · exact ⟨within_eq_run hguarded (henough.of_leads hguarded hl), fun _ _ => trivial⟩
  · have henough' : Enough definitions (budget definitions w t) w t := enough_of_budget_le le_rfl
    rw [run, within_other hother (Nat.lt_of_succ_lt_succ henough.one_lt),
      within_other hother (Nat.zero_lt_of_lt henough'.one_lt)]
    exact ⟨rfl, fun _ _ => trivial⟩

/-- No two functions repeat the step of a check. -/
theorem Repeats.unique (hguarded : Guarded definitions)
    {check check' : Json → Json → Except Fault Verdict} (h : Repeats definitions rule check)
    (h' : Repeats definitions rule check') : check = check' := by
  suffices hpairs : ∀ p : Json × Json, check p.1 p.2 = check' p.1 p.2 by
    funext v s
    exact hpairs (v, s)
  intro p
  induction p using (wellFounded_leads hguarded).induction with
  | _ p ih =>
      obtain ⟨v, s⟩ := p
      rw [h v s, h' v s]
      refine (alike_level (P := fun _ => True) covers_true (fun _ _ _ _ _ _ => trivial)
        ⟨fun w t hl => ⟨ih (w, t) hl, fun _ _ => trivial⟩, fun w t hother => ?_⟩).1
      rw [h w t, h' w t, level_other hother, level_other hother]
      exact ⟨rfl, fun _ _ => trivial⟩

/-- A fault of a run is one of a keyword, of the rule, or of following a reference on the way. -/
theorem run_faults (hguarded : Guarded definitions) {v s : Json} {e : Fault}
    (h : run definitions rule v s = .error e) :
    e.IsLocal ∨ Raises rule e ∨ ∃ w ms ref,
      Relation.ReflTransGen (Leads definitions) (v, s) (w, .obj ms) ∧
        Table.find? ms "$ref" = some ref ∧ follow definitions ref = .error e := by
  let P (e : Fault) : Prop := e.IsLocal ∨ Raises rule e ∨ ∃ w ms ref,
    Relation.ReflTransGen (Leads definitions) (v, s) (w, .obj ms) ∧
      Table.find? ms "$ref" = some ref ∧ follow definitions ref = .error e
  have hP : Covers P rule :=
    ⟨fun _ he => .inl he, fun r hr p text _ he => .inr (.inl ⟨r, p, text, hr, he⟩)⟩
  have henough : Enough definitions (budget definitions v s) v s := enough_of_budget_le le_rfl
  have hrun := alike_within hguarded hP henough henough fun w ms ref hway href _ he =>
    .inr (.inr ⟨w, ms, ref, hway, href, he⟩)
  exact hrun.2 e h

/-- Following a reference is one look into the definitions. -/
theorem follow_ne_endless (ref : Json) : follow definitions ref ≠ .error .endless := by
  cases ref with
  | str ref =>
      rw [follow, Reference.follow]
      split
      · simp
      · split <;> simp
  | _ => simp [follow]

end Whole

end Check

/-- Every reference on the way from a value with a schema leads to a definition. -/
def Defined (definitions : Table String Json) (v s : Json) : Prop :=
  ∀ w ms, Relation.ReflTransGen (Leads definitions) (v, s) (w, .obj ms) →
    ∀ ref, Table.find? ms "$ref" = some ref → ∃ t, Check.follow definitions ref = .ok t

/-- Over guarded definitions exactly one function repeats the step of a check, and it is what a
check runs: fuel from the budget on gives the same answer.  A run reports that references go on
without end, or that a definition is missing where every reference on the way has one, only if
the caller's rule does. -/
theorem check_terminates (definitions : Table String Json)
    (rule : Option (TextRule (Except Fault))) (hguarded : Guarded definitions) :
    (∃! check, Check.Repeats definitions rule check) ∧
      Check.Repeats definitions rule (Check.run definitions rule) ∧
      ∀ v s,
        (∀ fuel, Check.budget definitions v s ≤ fuel →
          Check.within definitions rule fuel v s = Check.run definitions rule v s) ∧
        (Check.run definitions rule v s = .error .endless → Check.Raises rule .endless) ∧
        (Defined definitions v s → ∀ name,
          Check.run definitions rule v s = .error (.missingKey name) →
            Check.Raises rule (.missingKey name)) := by
  have hrepeats : Check.Repeats definitions rule (Check.run definitions rule) :=
    Check.repeats_run hguarded
  refine ⟨⟨_, hrepeats, fun check h => h.unique hguarded hrepeats⟩, hrepeats, fun v s => ?_⟩
  refine ⟨fun fuel h => Check.within_eq_run hguarded (enough_of_budget_le h), fun h => ?_,
    fun hdefined name h => ?_⟩
  · obtain hlocal | hraises | ⟨w, ms, ref, -, -, hfollow⟩ := Check.run_faults hguarded h
    · exact absurd hlocal id
    · exact hraises
    · exact absurd hfollow (Check.follow_ne_endless ref)
  · obtain hlocal | hraises | ⟨w, ms, ref, hway, href, hfollow⟩ := Check.run_faults hguarded h
    · exact absurd hlocal id
    · exact hraises
    · obtain ⟨t, ht⟩ := hdefined w ms hway ref href
      rw [ht] at hfollow
      cases hfollow

/-- Keywords of the right form have references that lead to definitions. -/
theorem WellTyped.defined {definitions : Table String Json} {rule : Option Conforms} {v s : Json}
    (h : WellTyped definitions rule v s) : Defined definitions v s := by
  intro w ms hway ref href
  obtain ⟨ms', hms, hformed⟩ := Check.exists_formed (h w (.obj ms) hway)
  obtain rfl := Json.obj.inj hms
  have hok : (Check.follow definitions ref).isOk = true := hformed "$ref" ref href
  cases hfollow : Check.follow definitions ref with
  | ok t => exact ⟨t, rfl⟩
  | error e => simp [hfollow, Except.isOk, Except.toBool] at hok

/-- A check against the trees of even numbers, which hold trees, comes to an end on every value,
and misses no definition. -/
theorem evenTrees_terminates :
    Guarded evenTrees ∧ (∃! check, Check.Repeats evenTrees none check) ∧
      ∀ v e, Check.run evenTrees none v (component "Tree") =
          (.error e : Except Fault Check.Verdict) →
        e ≠ .endless ∧ ∀ name, e ≠ .missingKey name := by
  obtain ⟨hunique, -, hends⟩ := check_terminates evenTrees none guarded_evenTrees
  have hraises (e : Fault) : ¬ Check.Raises none e := fun ⟨r, _, _, hr, _⟩ => nomatch hr
  refine ⟨guarded_evenTrees, hunique, fun v e he => ?_⟩
  obtain ⟨-, hendless, hmissing⟩ := hends v (component "Tree")
  constructor
  · rintro rfl
    exact hraises _ (hendless he)
  · rintro name rfl
    exact hraises _ (hmissing (wellTyped_evenTrees (by decide)).defined name he)

-- a definition that is only a reference to itself is not guarded, and no fuel is enough for it
example : Check.run (m := Except Fault) [("Loop", component "Loop")] none .null (component "Loop") =
    .error .endless := rfl

end ApiTree
