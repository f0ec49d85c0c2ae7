import ApiTree.Proofs.Conformance.Guarded
import ApiTree.Proofs.Json.Equality

/-!
# ApiTree.Proofs.Conformance.Keywords

What the keywords of a schema ask for is decided.  A check decides a property when it
gives an answer without a fault and finds nothing exactly where the property holds
(`Decides`).  Each way to put checks together decides what its parts decide together; so
each group of keywords decides its own part of satisfaction, as soon as satisfaction is
decided for the schemas to which the value leads.
-/

namespace ApiTree

/-- A check decides a property: it gives an answer, which finds nothing exactly where the
property holds. -/
def Decides {α : Type} (check : Except Fault (Option α)) (p : Prop) : Prop :=
  ∃ found, check = .ok found ∧ (found = none ↔ p)

namespace Check

open Schema

/-! ## putting verdicts together -/

section Combine

variable {p q : Prop}

theorem decides_congr {α : Type} {x : Except Fault (Option α)} (h : Decides x p) (hpq : p ↔ q) :
    Decides x q := by
  obtain ⟨found, hx, hiff⟩ := h
  exact ⟨found, hx, hiff.trans hpq⟩

theorem decides_ok {α : Type} {found : Option α} (h : found = none ↔ p) :
    Decides (.ok found) p :=
  ⟨found, rfl, h⟩

/-- After a step that succeeds, what follows decides. -/
theorem decides_bind {α β : Type} {x : Except Fault β} {b : β}
    {f : β → Except Fault (Option α)} (hx : x = .ok b) (h : Decides (f b) p) :
    Decides (x >>= f) p := by
  rw [hx]
  exact h

/-- A condition that breaks a keyword decides its contrary. -/
theorem decides_breachIf {broken : Bool} {b : Breach} (h : broken = false ↔ p) :
    Decides (.ok (breachIf broken b)) p :=
  decides_ok (by cases broken <;> simp_all [breachIf])

theorem decides_firstBreach_nil : Decides (firstBreach []) True :=
  decides_ok (by simp)

/-- Looking at one more breach decides both properties. -/
theorem decides_firstBreach_cons {b : Except Fault (Option Breach)}
    {bs : List (Except Fault (Option Breach))} (hb : Decides b p)
    (hbs : Decides (firstBreach bs) q) :
    Decides (firstBreach (b :: bs)) (p ∧ q) := by
  obtain ⟨found, rfl, hp⟩ := hb
  cases found with
  | some breach => exact decides_ok (by simp_all)
  | none => exact decides_congr hbs (by simp [hp.1 rfl])

/-- A breach of the value itself decides as it does by itself. -/
theorem decides_onValue {b : Except Fault (Option Breach)} (h : Decides b p) :
    Decides (onValue (m := Except Fault) b) p := by
  obtain ⟨found, rfl, hp⟩ := h
  exact decides_ok (by rw [Option.map_eq_none_iff, hp])

/-- A verdict on a part decides as it does by itself. -/
theorem decides_onPart {step : Step} {v : Except Fault Verdict} (h : Decides v p) :
    Decides (onPart step v) p := by
  obtain ⟨found, rfl, hp⟩ := h
  exact decides_ok (by rw [Option.map_eq_none_iff, hp])

/-- Two verdicts one after the other decide both properties. -/
theorem decides_orElse {first : Except Fault Verdict} {second : Unit → Except Fault Verdict}
    (h₁ : Decides first p) (h₂ : Decides (second ()) q) :
    Decides (orElse first second) (p ∧ q) := by
  obtain ⟨found, rfl, hp⟩ := h₁
  cases found with
  | some v => exact decides_ok (by simp_all)
  | none => exact decides_congr h₂ (by simp [hp.1 rfl])

variable {α : Type} {f : α → Except Fault Verdict} {P : α → Prop} {xs : List α}

/-- The first verdict on some parts decides the properties of all. -/
theorem decides_firstOf (h : ∀ x ∈ xs, Decides (f x) (P x)) :
    Decides (firstOf f xs) (∀ x ∈ xs, P x) := by
  induction xs with
  | nil => exact decides_ok (by simp)
  | cons x xs ih =>
      have hrest := ih fun y hy => h y (List.mem_cons_of_mem x hy)
      exact decides_congr (decides_orElse (h x (by simp)) hrest) (by simp)

/-- Looking for a part that passes finds whether one has the property. -/
theorem someClean_eq_ok (h : ∀ x ∈ xs, Decides (f x) (P x)) :
    ∃ clean, someClean f xs = .ok clean ∧ (clean = true ↔ ∃ x ∈ xs, P x) := by
  induction xs with
  | nil => exact ⟨false, rfl, by simp⟩
  | cons x xs ih =>
      obtain ⟨found, hx, hp⟩ := h x (by simp)
      obtain ⟨clean, hxs, hclean⟩ := ih fun y hy => h y (List.mem_cons_of_mem x hy)
      cases found with
      | none => exact ⟨true, by rw [someClean, hx]; rfl, by simp [hp.1 rfl]⟩
      | some v => exact ⟨clean, by rw [someClean, hx]; exact hxs, by simp_all⟩

end Combine

/-- Exactly one of a list is the first and none of the others, or one of the others only. -/
theorem exactlyOne_cons {P : Json → Prop} {t : Json} {ts : List Json} :
    ExactlyOne P (t :: ts) ↔ (P t ∧ ∀ u ∈ ts, ¬ P u) ∨ (¬ P t ∧ ExactlyOne P ts) := by
  constructor
  · rintro ⟨before, u, after, heq, hu, hrest⟩
    cases before with
    | nil =>
        obtain ⟨rfl, rfl⟩ := List.cons.inj heq
        exact .inl ⟨hu, by simpa using hrest⟩
    | cons b before =>
        obtain ⟨rfl, rfl⟩ := List.cons.inj heq
        exact .inr ⟨hrest t (by simp), before, u, after, rfl, hu,
          fun w hw => hrest w (List.mem_cons_of_mem t hw)⟩
  · rintro (⟨ht, hrest⟩ | ⟨ht, before, u, after, rfl, hu, hrest⟩)
    · exact ⟨[], t, ts, rfl, ht, by simpa using hrest⟩
    · refine ⟨t :: before, u, after, rfl, hu, fun w hw => ?_⟩
      rcases List.mem_cons.1 hw with rfl | hw
      · exact ht
      · exact hrest w hw

/-- Counting the parts that pass tells none and exactly one from the other cases. -/
theorem countClean_eq_ok {f : Json → Except Fault Verdict} {P : Json → Prop} {ts : List Json}
    (h : ∀ t ∈ ts, Decides (f t) (P t)) :
    ∃ n, countClean f ts = .ok n ∧ (n = 0 ↔ ∀ t ∈ ts, ¬ P t) ∧ (n = 1 ↔ ExactlyOne P ts) := by
  induction ts with
  | nil => exact ⟨0, rfl, by simp, by simp [ExactlyOne]⟩
  | cons t ts ih =>
      obtain ⟨found, ht, hp⟩ := h t (by simp)
      obtain ⟨n, hts, hnone, hone⟩ := ih fun u hu => h u (List.mem_cons_of_mem t hu)
      refine ⟨if found.isNone then n + 1 else n, by rw [countClean, ht, hts]; rfl, ?_, ?_⟩
      · cases found <;> simp_all
      · rw [exactlyOne_cons, ← hnone, ← hone, ← hp]
        cases found <;> simp

/-! ## keywords -/

/-- The test of a type decides whether the value has it. -/
theorem hasType_iff (v : Json) (name : String) : hasType v name = true ↔ v.HasType name := by
  unfold hasType Json.HasType
  split <;> cases v <;> simp [Json.kind, Json.isBool, Double.isWhole_iff]

section Keywords

variable {definitions : Table String Json} {rule : Option Conforms} {s : Schema}

/-- Every keyword of the schema has the right form. -/
def Formed (definitions : Table String Json) (rule : Option Conforms) (s : Schema) : Prop :=
  ∀ keyword j, Table.find? s keyword = some j → hasForm definitions rule keyword j = true

/-- What is of the right form is a schema whose keywords are. -/
theorem exists_formed {t : Json} (h : isFormed definitions rule t = true) :
    ∃ s, t = .obj s ∧ Formed definitions rule s := by
  cases t with
  | obj s =>
      exact ⟨s, rfl, fun keyword j hj => List.all_eq_true.1 h (keyword, j) (Table.mem_of_find? hj)⟩
  | _ => simp [isFormed] at h

/-- A keyword that is not null is found as it is. -/
theorem given?_eq_find? {keyword : String} (h : Table.find? s keyword ≠ some .null) :
    given? s keyword = Table.find? s keyword := by
  rw [given?]
  split
  · contradiction
  · rfl

/-- A truth value that is set is read as true exactly if it is. -/
theorem flagged_iff {keyword : String}
    (h : ∀ j, Table.find? s keyword = some j → j.isBool = true) :
    flagged s keyword = true ↔ Flags s keyword := by
  rw [flagged, Flags]
  cases hj : Table.find? s keyword with
  | none => simp
  | some j =>
      have hbool := h j hj
      cases j <;> simp [Json.isBool] at hbool
      simp [Json.truthy]

/-- A keyword of the right form gives its list, or an empty one if it is not there. -/
theorem listed_eq_ok {keyword : String} {form : Json → Bool}
    (h : ∀ j, Table.find? s keyword = some j → isList form j = true) :
    (∃ ts, Table.find? s keyword = some (.arr ts) ∧ listed s keyword = .ok ts) ∨
      Table.find? s keyword = none ∧ listed s keyword = .ok [] := by
  rw [listed]
  cases hj : Table.find? s keyword with
  | none => exact .inr ⟨rfl, rfl⟩
  | some j =>
      have hform := h j hj
      cases j with
      | arr ts => exact .inl ⟨ts, rfl, rfl⟩
      | _ => simp [isList] at hform

/-- Looking through a list of types finds whether the value has one of them. -/
theorem admitsOne_eq_ok (v : Json) {ts : List Json} (h : ∀ t ∈ ts, isText t = true) :
    ∃ admitted, admitsOne v ts = .ok admitted ∧
      (admitted = true ↔ ∃ name, .str name ∈ ts ∧ v.HasType name) := by
  induction ts with
  | nil => exact ⟨false, rfl, by simp⟩
  | cons t ts ih =>
      obtain ⟨admitted, hts, hiff⟩ := ih fun u hu => h u (List.mem_cons_of_mem t hu)
      have htext := h t (by simp)
      cases t with
      | str name =>
          by_cases hname : hasType v name = true
          · refine ⟨true, by rw [admitsOne, admits, hname]; rfl, ?_⟩
            exact iff_of_true rfl ⟨name, by simp, (hasType_iff v name).1 hname⟩
          · refine ⟨admitted, ?_, ?_⟩
            · rw [admitsOne, admits, Bool.eq_false_iff.2 hname]
              exact hts
            · rw [hiff]
              rw [hasType_iff] at hname
              constructor
              · rintro ⟨n, hn, hv⟩
                exact ⟨n, List.mem_cons_of_mem _ hn, hv⟩
              · rintro ⟨n, hn, hv⟩
                rcases List.mem_cons.1 hn with heq | hn
                · exact absurd (Json.str.inj heq ▸ hv) hname
                · exact ⟨n, hn, hv⟩
      | _ => simp [isText] at htext

/-- The keyword `type` decides whether the value has a type that it names. -/
theorem decides_ofType (v : Json) (hs : Formed definitions rule s) :
    Decides (ofType v s) (∀ j, Table.find? s "type" = some j →
      ∃ name, (j = .str name ∨ ∃ ts, j = .arr ts ∧ .str name ∈ ts) ∧ v.HasType name) := by
  have hform : ∀ j, Table.find? s "type" = some j → (isText j || isList isText j) = true :=
    fun j hj => hs "type" j hj
  have hgiven : given? s "type" = Table.find? s "type" :=
    given?_eq_find? fun hnull => by simpa [isText, isList] using hform _ hnull
  rw [ofType, hgiven]
  cases hj : Table.find? s "type" with
  | none => exact decides_ok (by simp)
  | some j =>
      have hlist (ts : List Json) (htexts : ∀ t ∈ ts, isText t = true)
          (hnames : ∀ name, Json.str name ∈ ts ↔
            j = .str name ∨ ∃ ts, j = .arr ts ∧ .str name ∈ ts) :
          Decides (do return breachIf (!(← admitsOne v ts)) (.type j v)) (∀ j', some j = some j' →
            ∃ name, (j' = .str name ∨ ∃ ts, j' = .arr ts ∧ .str name ∈ ts) ∧ v.HasType name) := by
        obtain ⟨admitted, hok, hiff⟩ := admitsOne_eq_ok v htexts
        rw [hok]
        refine decides_breachIf ?_
        simp only [Bool.not_eq_false', hiff, hnames, Option.some.injEq, forall_eq']
      -- one name stands for the list of it alone
      have htext := hform j hj
      cases j with
      | arr ts => exact hlist ts (by simpa [isText, isList] using htext) (by simp)
      | str name => exact hlist [.str name] (by simp [isText]) (by simp [eq_comm])
      | _ => simp [isText, isList] at htext

/-- The keyword `enum` decides whether the value equals one of the options. -/
theorem decides_ofEnum (v : Json) (hs : Formed definitions rule s) :
    Decides (ofEnum v s) (∀ options, Table.find? s "enum" = some (.arr options) →
      ∃ e ∈ options, v.itemEq e = true) := by
  rw [ofEnum]
  cases hj : Table.find? s "enum" with
  | none => exact decides_ok (by simp)
  | some j =>
      have hform : isList (fun _ => true) j = true := hs "enum" j hj
      cases j with
      | arr options =>
          refine decides_breachIf ?_
          simp
      | _ => simp [isList] at hform

/-- A number counts as a number where truth values do too. -/
theorem toNumber?_of_number? {v : Json} {x : Number} (h : v.number? = some x) :
    v.toNumber? = some x := by
  cases v <;> simp_all [Json.number?, Json.toNumber?]

/-- A bound that is a number, or missing, is compared with a number. -/
theorem decides_bounded {bound : Option Json} {operator : String}
    {crosses : Number → Number → Bool} {v : Json} {x : Number} {breach : Json → Json → Breach}
    (hbound : ∀ b, bound = some b → b.number?.isSome = true) (hv : v.number? = some x) :
    Decides (bounded bound operator crosses v breach)
      (∀ b, bound.bind Json.number? = some b → crosses x b = false) := by
  cases bound with
  | none => exact decides_ok (by simp)
  | some b =>
      obtain ⟨n, hn⟩ := Option.isSome_iff_exists.1 (hbound b rfl)
      rw [bounded, against, toNumber?_of_number? hv, toNumber?_of_number? hn]
      refine decides_breachIf ?_
      simp [hn]

/-- What is asked for by a bound that may be exclusive: the inclusive part. -/
theorem decides_inclusive {inclusive exclusive operator : String}
    {crosses : Number → Number → Bool} {v : Json} {x : Number} {breach : Json → Json → Breach}
    (hinclusive : ∀ j, Table.find? s inclusive = some j → j.number?.isSome = true)
    (hexclusive : ∀ j, Table.find? s exclusive = some j → (j.isBool || j.number?.isSome) = true)
    (hv : v.number? = some x) :
    Decides (bounded (bounds s inclusive exclusive).1 operator crosses v breach)
      (∀ b, HasNumber s inclusive b → ¬ Flags s exclusive → crosses x b = false) := by
  have hnull : given? s inclusive = Table.find? s inclusive :=
    given?_eq_find? fun h => by simpa [Json.number?] using hinclusive _ h
  have hnull' : given? s exclusive = Table.find? s exclusive :=
    given?_eq_find? fun h => by simpa [Json.number?, Json.isBool] using hexclusive _ h
  rw [bounds, hnull, hnull']
  by_cases hflag : Flags s exclusive
  · rw [show Table.find? s exclusive = some (.bool true) from hflag]
    exact decides_congr (decides_bounded (by simp) hv) (by simp [hflag])
  · rw [Flags] at hflag
    split
    · contradiction
    · exact decides_congr (decides_bounded hinclusive hv) (by simp [HasNumber, Flags, hflag])

/-- Reading a bound as a number twice is reading it once. -/
theorem bind_numeric? (j : Option Json) : (numeric? j).bind Json.number? = j.bind Json.number? := by
  cases j with
  | none => rfl
  | some j => cases j <;> rfl

/-- What is asked for by a bound that may be exclusive: the exclusive part. -/
theorem decides_exclusive {inclusive exclusive operator : String}
    {crosses : Number → Number → Bool} {v : Json} {x : Number} {breach : Json → Json → Breach}
    (hinclusive : ∀ j, Table.find? s inclusive = some j → j.number?.isSome = true)
    (hexclusive : ∀ j, Table.find? s exclusive = some j → (j.isBool || j.number?.isSome) = true)
    (hv : v.number? = some x) :
    Decides (bounded (numeric? (bounds s inclusive exclusive).2) operator crosses v breach)
      (∀ b, HasNumber s exclusive b ∨ HasNumber s inclusive b ∧ Flags s exclusive →
        crosses x b = false) := by
  have hnull : given? s inclusive = Table.find? s inclusive :=
    given?_eq_find? fun h => by simpa [Json.number?] using hinclusive _ h
  have hnull' : given? s exclusive = Table.find? s exclusive :=
    given?_eq_find? fun h => by simpa [Json.number?, Json.isBool] using hexclusive _ h
  have hnumber (j : Option Json) (b : Json) (h : numeric? j = some b) :
      b.number?.isSome = true := by
    cases j with
    | none => simp [numeric?] at h
    | some j => cases j <;> simp [numeric?] at h <;> subst h <;> rfl
  refine decides_congr (decides_bounded (hnumber _) hv) ?_
  rw [bounds, hnull, hnull', bind_numeric?]
  by_cases hflag : Flags s exclusive
  · have hfind : Table.find? s exclusive = some (.bool true) := hflag
    simp [hfind, HasNumber, hflag, Json.number?]
  · rw [Flags] at hflag
    split
    · contradiction
    · simp [HasNumber, Flags, hflag]

/-- A number counts as false exactly if it is zero. -/
theorem truthy_eq_false_iff {d : Json} {n : Number} (h : d.number? = some n) :
    d.truthy = false ↔ n.rational? = some 0 := by
  cases d with
  | int m =>
      obtain rfl := Option.some.inj h
      simp [Json.truthy, Number.rational?]
  | float x =>
      obtain rfl := Option.some.inj h
      cases x with
      | finite s m e =>
          have hpow : (2 : ℚ) ^ e ≠ 0 := (zpow_pos (by norm_num) _).ne'
          cases s <;>
            simp [Json.truthy, Number.rational?, Double.rational?, Double.isZero, hpow]
      | _ => simp [Json.truthy, Number.rational?, Double.rational?, Double.isZero]
  | _ => simp [Json.number?] at h

/-- The keyword `multipleOf` decides whether the number is a multiple, where division is exact. -/
theorem decides_ofMultiple {v : Json} {x : Number} (hs : Formed definitions rule s)
    (hv : v.number? = some x)
    (hexact : ∀ d, HasNumber s "multipleOf" d → x.dividesExactly d = true) :
    Decides (ofMultiple v s)
      (∀ d, HasNumber s "multipleOf" d → d.rational? ≠ some 0 → x.IsMultiple d) := by
  rw [ofMultiple]
  cases hj : Table.find? s "multipleOf" with
  | none => exact decides_ok (by simp [HasNumber, hj])
  | some j =>
      have hform : j.number?.any Number.isFinite = true := hs "multipleOf" j hj
      obtain ⟨d, hd, hfinite⟩ := (Option.any_eq_true _ _).1 hform
      have hbound (d' : Number) : HasNumber s "multipleOf" d' ↔ d = d' := by
        simp [HasNumber, hj, hd]
      simp only [hbound, forall_eq', toNumber?_of_number? hv, toNumber?_of_number? hd]
      by_cases hzero : j.truthy = false
      · have hrational := (truthy_eq_false_iff hd).1 hzero
        simp only [hzero, Bool.not_false, if_true]
        exact decides_ok (by simp [hrational])
      · have hrational := mt (truthy_eq_false_iff hd).2 hzero
        obtain ⟨whole, hwhole, hiff⟩ := Number.isMultipleOf?_of_exact
          (hexact d ((hbound d).2 rfl)) ((Number.isFinite_iff d).1 hfinite)
        simp only [Bool.not_eq_false] at hzero
        simp only [hzero, Bool.not_true, Bool.false_eq_true, if_false, hwhole]
        exact decides_breachIf (by simp [hiff, hrational])

/-- The constraints on a number are decided. -/
theorem decides_ofNumber {v : Json} {x : Number} (hs : Formed definitions rule s)
    (hv : v.number? = some x)
    (hexact : ∀ d, HasNumber s "multipleOf" d → x.dividesExactly d = true) :
    Decides (ofNumber v s) (AdmitsNumber s x) := by
  have hlow : ∀ j, Table.find? s "minimum" = some j → j.number?.isSome = true := hs "minimum"
  have hlow' : ∀ j, Table.find? s "exclusiveMinimum" = some j →
      (j.isBool || j.number?.isSome) = true := hs "exclusiveMinimum"
  have hhigh : ∀ j, Table.find? s "maximum" = some j → j.number?.isSome = true := hs "maximum"
  have hhigh' : ∀ j, Table.find? s "exclusiveMaximum" = some j →
      (j.isBool || j.number?.isSome) = true := hs "exclusiveMaximum"
  refine decides_congr (decides_firstBreach_cons (decides_inclusive hlow hlow' hv)
    (decides_firstBreach_cons (decides_inclusive hhigh hhigh' hv)
      (decides_firstBreach_cons (decides_exclusive hlow hlow' hv)
        (decides_firstBreach_cons (decides_exclusive hhigh hhigh' hv)
          (decides_firstBreach_cons (decides_ofMultiple hs hv hexact)
            decides_firstBreach_nil))))) ?_
  simp only [← Bool.not_eq_true, Number.below_iff, Number.atMost_iff]
  constructor
  · rintro ⟨hmin, hmax, hmin', hmax', hmultiple, -⟩
    exact ⟨hmin, hmax, hmin', hmax', hmultiple⟩
  · rintro ⟨hmin, hmax, hmin', hmax', hmultiple⟩
    exact ⟨hmin, hmax, hmin', hmax', hmultiple, trivial⟩

/-- The bounds on a size are decided. -/
theorem decides_ofSize {least most : String} {tooFew tooMany : Nat → Json → Breach} (size : Nat)
    (hleast : ∀ j, Table.find? s least = some j → j.number?.isSome = true)
    (hmost : ∀ j, Table.find? s most = some j → j.number?.isSome = true) :
    Decides (ofSize size s least most tooFew tooMany) (AdmitsSize s least most size) := by
  refine decides_congr (decides_firstBreach_cons (decides_bounded hleast rfl)
    (decides_firstBreach_cons (decides_bounded hmost rfl) decides_firstBreach_nil)) ?_
  simp only [← Bool.not_eq_true, Number.below_iff]
  constructor
  · rintro ⟨hleast, hmost, -⟩
    exact ⟨hleast, hmost⟩
  · rintro ⟨hleast, hmost⟩
    exact ⟨hleast, hmost, trivial⟩

/-! ## texts, arrays, objects -/

/-- A rule that always answers. -/
def answering (rule : Option Conforms) : Option (TextRule (Except Fault)) :=
  rule.map fun conforms p text => pure (conforms p text)

/-- A pattern that can be read decides whether it is found in a text. -/
theorem found_eq_ok {written : String} (text : String) (h : (Pattern.ofText written).isOk = true) :
    ∃ ok, found (.str written) text = .ok ok ∧ (ok = true ↔ FoundIn (.str written) text) := by
  cases hp : Pattern.ofText written with
  | error e => simp [hp, Except.isOk, Except.toBool] at h
  | ok p => exact ⟨p.occursIn text, by rw [found, hp], by simp [FoundIn, hp]⟩

/-- The pattern and the format are decided. -/
theorem decides_ofText (hs : Formed definitions rule s) (text : String) :
    Decides (ofText (answering rule) text s)
      ((∀ p, Table.find? s "pattern" = some p → MatchesPattern rule p text) ∧
      ∀ f conforms, Table.find? s "format" = some f → rule = some conforms →
        conforms f text = true) := by
  have hpattern : ∀ j, Table.find? s "pattern" = some j →
      ∃ written, j = .str written ∧ (rule = none → (Pattern.ofText written).isOk = true) := by
    intro j hj
    have hform := hs "pattern" j hj
    cases j <;> simp [hasForm] at hform
    exact ⟨_, rfl, fun hrule => by simpa [hrule] using hform⟩
  have hformat : ∀ j, Table.find? s "format" = some j → isText j = true := hs "format"
  have hnull : given? s "pattern" = Table.find? s "pattern" :=
    given?_eq_find? fun h => by simpa using hpattern _ h
  have hnull' : given? s "format" = Table.find? s "format" :=
    given?_eq_find? fun h => by simpa [isText] using hformat _ h
  unfold ofText
  rw [hnull, hnull']
  refine decides_orElse ?_ ?_
  · cases hp : Table.find? s "pattern" with
    | none => exact decides_ok (by simp)
    | some p =>
        obtain ⟨written, rfl, hreadable⟩ := hpattern p hp
        cases rule with
        | some conforms =>
            refine decides_ok ?_
            cases h : conforms (.str written) text <;> simp [MatchesPattern, h]
        | none =>
            obtain ⟨ok, hok, hiff⟩ := found_eq_ok text (hreadable rfl)
            simp only [answering, Option.map_none]
            rw [show (liftM (found (.str written) text) : Except Fault Bool) = .ok ok from hok]
            refine decides_ok ?_
            cases ok <;> simp [MatchesPattern, ← hiff]
  · cases hf : Table.find? s "format" with
    | none => exact decides_ok (by simp)
    | some f =>
        cases rule with
        | none => exact decides_ok (by simp)
        | some conforms =>
            refine decides_ok ?_
            cases h : conforms f text <;> simp [h]

theorem itemEq_comm (a b : Json) : a.itemEq b = b.itemEq a := by
  cases a with
  | bool x =>
      cases b with
      | bool y => exact Bool.beq_comm
      | _ => rfl
  | _ =>
      cases b with
      | bool y => rfl
      | _ => exact Json.looseEq_comm _ _

/-- No place is reported when the items are pairwise different, and differ from those seen. -/
theorem repeated?_eq_none_iff (seen xs : List Json) :
    repeated? seen xs = none ↔ (∀ a ∈ seen, ∀ b ∈ xs, a.itemEq b = false) ∧
      xs.Pairwise fun a b => a.itemEq b = false := by
  induction xs generalizing seen with
  | nil => simp [repeated?]
  | cons x xs ih =>
      rw [repeated?]
      by_cases hx : seen.any x.itemEq = true
      · obtain ⟨a, ha, heq⟩ := List.any_eq_true.1 hx
        rw [itemEq_comm] at heq
        simp only [hx, if_true, reduceCtorEq, false_iff]
        exact fun h => by simp [h.1 a ha x (by simp)] at heq
      · have hnew : ∀ a ∈ seen, a.itemEq x = false := fun a ha => by
          rw [itemEq_comm]
          exact Bool.eq_false_iff.2 fun h => hx (List.any_eq_true.2 ⟨a, ha, h⟩)
        rw [if_neg hx, ih, List.pairwise_cons]
        constructor
        · rintro ⟨hseen, hpairs⟩
          refine ⟨fun a ha b hb => ?_, fun b hb => hseen x (by simp) b hb, hpairs⟩
          rcases List.mem_cons.1 hb with rfl | hb
          · exact hnew a ha
          · exact hseen a (by simp [ha]) b hb
        · rintro ⟨hseen, hfirst, hpairs⟩
          refine ⟨fun a ha b hb => ?_, hpairs⟩
          rcases List.mem_append.1 ha with ha | ha
          · exact hseen a ha b (List.mem_cons_of_mem x hb)
          · exact List.mem_singleton.1 ha ▸ hfirst b hb

variable {R : Json → Json → Prop} {sub : Json → Json → Except Fault Verdict}

/-- Checking items one after the other decides the property of all. -/
theorem decides_ofItems {t : Json} {i : Nat} {xs : List Json}
    (h : ∀ x ∈ xs, Decides (sub x t) (R x t)) :
    Decides (ofItems sub t i xs) (∀ x ∈ xs, R x t) := by
  induction xs generalizing i with
  | nil => exact decides_ok (by simp)
  | cons x xs ih =>
      exact decides_congr (decides_orElse (decides_onPart (h x (by simp)))
        (ih fun y hy => h y (List.mem_cons_of_mem x hy))) (by simp)

/-- Checking a row place by place decides the properties of all places. -/
theorem decides_ofPairs {i : Nat} {xs ts : List Json}
    (h : ∀ x ∈ xs, ∀ t ∈ ts, Decides (sub x t) (R x t)) :
    Decides (ofPairs sub i xs ts)
      (∀ (i : Nat) x t, xs[i]? = some x → ts[i]? = some t → R x t) := by
  induction xs generalizing i ts with
  | nil => exact decides_ok (by simp)
  | cons x xs ih =>
      cases ts with
      | nil => exact decides_ok (by simp)
      | cons t ts =>
          refine decides_congr (decides_orElse (decides_onPart (h x (by simp) t (by simp)))
            (ih fun y hy u hu => h y (List.mem_cons_of_mem x hy) u (List.mem_cons_of_mem t hu))) ?_
          constructor
          · rintro ⟨hfirst, hrest⟩ i y u hy hu
            cases i with
            | zero => simp_all
            | succ i => exact hrest i y u hy hu
          · intro hall
            exact ⟨hall 0 x t rfl rfl, fun i => hall (i + 1)⟩

/-- Looking for a name that is missing decides whether all are there. -/
theorem decides_firstMissing {ms : Json.Members} {names : List Json}
    (h : ∀ j ∈ names, isText j = true) :
    Decides (firstMissing ms names)
      (∀ name, .str name ∈ names → ∃ w, Table.find? ms name = some w) := by
  induction names with
  | nil => exact decides_ok (by simp)
  | cons j names ih =>
      have htext := h j (by simp)
      cases j with
      | str name =>
          rw [firstMissing]
          by_cases hname : Table.has ms name = true
          · rw [if_pos hname]
            refine decides_congr (ih fun k hk => h k (List.mem_cons_of_mem _ hk)) ?_
            have hfind := (Table.has_iff_find? ms name).1 hname
            simp only [List.mem_cons, Json.str.injEq, forall_eq_or_imp, hfind, true_and]
          · rw [if_neg hname]
            refine decides_ok (iff_of_false (by simp) fun hall => hname ?_)
            exact (Table.has_iff_find? ms name).2 (hall name (by simp))
      | _ => simp [isText] at htext

/-- The keyword `uniqueItems` decides whether the items differ in pairs. -/
theorem decides_unique {xs : List Json} (hs : Formed definitions rule s) :
    Decides (pure (if flagged s "uniqueItems" then
        (repeated? [] xs).map fun i => (Violation.here .duplicateItem).under (.item i)
      else none) : Except Fault Verdict)
      (Flags s "uniqueItems" → xs.Pairwise fun a b => a.itemEq b = false) := by
  refine decides_ok ?_
  by_cases hflags : Flags s "uniqueItems"
  · simp [(flagged_iff (hs "uniqueItems")).2 hflags, hflags, repeated?_eq_none_iff]
  · simp [mt (flagged_iff (hs "uniqueItems")).1 hflags, hflags]

section Array

variable {xs : List Json} (href : Table.find? s "$ref" = none)
  (hsub : ∀ w t, Leads definitions (.arr xs, .obj s) (w, t) → Decides (sub w t) (R w t))

include href hsub

/-- A row of schemas decides the properties of the items at its places. -/
theorem decides_row {keyword : String} {ts : List Json}
    (hkeyword : keyword ∈ ["items", "prefixItems", "additionalProperties"])
    (h : Table.find? s keyword = some (.arr ts)) :
    Decides (ofPairs sub 0 xs ts)
      (∀ (i : Nat) x t, xs[i]? = some x → ts[i]? = some t → R x t) :=
  decides_ofPairs fun x hx t ht =>
    hsub x t (leads_inside href hx hkeyword (mem_under_of_arr h ht))

/-- The keyword `items` decides the property of every item, or of the places of a row. -/
theorem decides_items :
    Decides (match Table.find? s "items" with
      | some (.obj ms) => ofItems sub (.obj ms) 0 xs
      | some (.arr ts) => ofPairs sub 0 xs ts
      | _ => pure none)
      ((∀ t, Table.find? s "items" = some (.obj t) → ∀ x ∈ xs, R x (.obj t)) ∧
        ∀ ts, Table.find? s "items" = some (.arr ts) →
          ∀ (i : Nat) x t, xs[i]? = some x → ts[i]? = some t → R x t) := by
  split
  · next ms hms =>
      refine decides_congr (decides_ofItems fun x hx =>
        hsub x _ (leads_inside href hx (by simp) (mem_under_of_obj hms))) ?_
      simp [hms]
  · next ts hts => exact decides_congr (decides_row href hsub (by simp) hts) (by simp [hts])
  · next hobj harr =>
      exact decides_ok (iff_of_true rfl ⟨fun t ht => absurd ht (hobj t),
        fun ts hts => absurd hts (harr ts)⟩)

/-- The keyword `prefixItems` decides the properties of the first items. -/
theorem decides_prefixItems (hs : Formed definitions rule s) :
    Decides (do ofPairs sub 0 xs (← listed s "prefixItems"))
      (∀ ts, Table.find? s "prefixItems" = some (.arr ts) →
        ∀ (i : Nat) x t, xs[i]? = some x → ts[i]? = some t → R x t) := by
  obtain ⟨ts, hts, hlisted⟩ | ⟨hnone, hlisted⟩ := listed_eq_ok (s := s) (hs "prefixItems")
  · exact decides_bind hlisted
      (decides_congr (decides_row href hsub (by simp) hts) (by simp [hts]))
  · have hempty : ∀ x ∈ xs, ∀ t ∈ ([] : List Json), Decides (sub x t) (R x t) := by simp
    exact decides_bind hlisted (decides_congr (decides_ofPairs hempty) (by simp [hnone]))

/-- The constraints on an array are decided, when they are where it leads. -/
theorem decides_ofArray (hs : Formed definitions rule s) :
    Decides (ofArray sub xs s) (AdmitsArray R s xs) := by
  refine decides_congr (decides_orElse (decides_onValue (decides_ofSize xs.length (hs "minItems")
    (hs "maxItems"))) (decides_orElse (decides_unique hs) (decides_orElse (decides_items href hsub)
      (decides_prefixItems href hsub hs)))) ?_
  constructor
  · rintro ⟨hsize, hdistinct, ⟨hall, hpairs⟩, hfirst⟩
    exact ⟨hsize, hdistinct, hall, fun ts hts => hts.elim (hpairs ts) (hfirst ts)⟩
  · rintro ⟨hsize, hdistinct, hall, hrows⟩
    exact ⟨hsize, hdistinct, ⟨hall, fun ts hts => hrows ts (.inl hts)⟩,
      fun ts hts => hrows ts (.inr hts)⟩

end Array

/-- The described members are those under `properties`. -/
theorem properties_eq_ok (hs : Formed definitions rule s) :
    ∃ ps, properties s = .ok ps ∧
      (∀ name t, (name, t) ∈ ps ↔
        ∃ ps, Table.find? s "properties" = some (.obj ps) ∧ (name, t) ∈ ps) ∧
      ∀ name, Table.has ps name = true ↔ Describes s name := by
  rw [properties]
  cases hj : Table.find? s "properties" with
  | none => exact ⟨[], rfl, by simp, by simp [Table.has, Describes, hj]⟩
  | some j =>
      have hform := hs "properties" j hj
      cases j <;> simp [hasForm] at hform
      next ps => exact ⟨ps, rfl, by simp, by simp [Table.has, Describes, hj]⟩

/-- The keyword `required` decides whether every required name is there. -/
theorem decides_required {ms : Json.Members} (hs : Formed definitions rule s) :
    Decides (do firstMissing ms (← listed s "required"))
      (∀ names name, Table.find? s "required" = some (.arr names) → .str name ∈ names →
        ∃ w, Table.find? ms name = some w) := by
  have hform : ∀ j, Table.find? s "required" = some j → isList isText j = true := hs "required"
  obtain ⟨names, hnames, hlisted⟩ | ⟨hnone, hlisted⟩ := listed_eq_ok hform
  · have htexts := hform _ hnames
    refine decides_bind hlisted
      (decides_congr (decides_firstMissing (List.all_eq_true.1 htexts)) ?_)
    simp only [hnames, Option.some.injEq, Json.arr.injEq]
    exact ⟨fun h names' name heq hname => h name (heq ▸ hname), fun h name => h names name rfl⟩
  · exact decides_bind hlisted (decides_ok (by simp [hnone]))

/-- A member that is described is decided by its own schema. -/
theorem decides_member {ms : Json.Members} {name : String} {t : Json}
    (hsub : ∀ w, Table.find? ms name = some w → Decides (sub w t) (R w t)) :
    Decides (match Table.find? ms name with
      | some v => onPart (.member name) (sub v t)
      | none => pure none) (∀ w, Table.find? ms name = some w → R w t) := by
  cases hw : Table.find? ms name with
  | none => exact decides_ok (by simp)
  | some w => exact decides_congr (decides_onPart (hsub w hw)) (by simp)

/-- A member that is not described is decided by what the schema says of such members. -/
theorem decides_ofExtra {extra : Option Json} {name : String} {w : Json}
    (hsub : ∀ t, extra = some (.obj t) → Decides (sub w (.obj t)) (R w (.obj t))) :
    Decides (ofExtra sub extra name w)
      (extra ≠ some (.bool false) ∧ ∀ t, extra = some (.obj t) → R w (.obj t)) := by
  unfold ofExtra
  split
  · exact decides_ok (by simp)
  · next t => exact decides_congr (decides_onPart (hsub t rfl)) (by simp)
  · next hfalse hobj =>
      exact decides_ok (iff_of_true rfl ⟨hfalse, fun t ht => absurd ht (hobj t)⟩)

/-- The constraints on an object are decided, when they are where it leads. -/
theorem decides_ofObject {ms : Json.Members} (hs : Formed definitions rule s)
    (href : Table.find? s "$ref" = none)
    (hsub : ∀ w t, Leads definitions (.obj ms, .obj s) (w, t) → Decides (sub w t) (R w t)) :
    Decides (ofObject sub ms s) (AdmitsObject R s ms) := by
  have hpart {name : String} {w : Json} (hw : (name, w) ∈ ms) : w ∈ (Json.obj ms).parts :=
    List.mem_map_of_mem (f := (·.2)) hw
  obtain ⟨ps, hproperties, hps, hdescribes⟩ := properties_eq_ok hs
  have hmembers : ∀ p ∈ ps, Decides (match Table.find? ms p.1 with
      | some v => onPart (.member p.1) (sub v p.2)
      | none => pure none) (∀ w, Table.find? ms p.1 = some w → R w p.2) := by
    rintro ⟨name, t⟩ ht
    obtain ⟨ps', hps', ht'⟩ := (hps name t).1 ht
    exact decides_member fun w hw => hsub w t (leads_described href
      (hpart (Table.mem_of_find? hw)) (mem_described hps' ht'))
  have hextra : ∀ m ∈ ms, Decides (if Table.has ps m.1 then pure none
      else ofExtra sub (Table.find? s "additionalProperties") m.1 m.2)
      (¬ Describes s m.1 → Table.find? s "additionalProperties" ≠ some (.bool false) ∧
        ∀ t, Table.find? s "additionalProperties" = some (.obj t) → R m.2 (.obj t)) := by
    rintro ⟨name, w⟩ hw
    by_cases hname : Table.has ps name = true
    · rw [if_pos hname]
      exact decides_ok (by simp [(hdescribes name).1 hname])
    · rw [if_neg hname]
      refine decides_congr (decides_ofExtra fun t ht => hsub w _ (leads_inside href (hpart hw)
        (by simp) (mem_under_of_obj ht))) ?_
      exact ⟨fun h _ => h, fun h => h (mt (hdescribes name).2 hname)⟩
  refine decides_congr (decides_orElse (decides_required hs) (decides_bind hproperties
    (decides_orElse (decides_firstOf hmembers) (decides_firstOf hextra)))) ?_
  constructor
  · rintro ⟨hnames, hmembers, hextra⟩
    refine ⟨hnames, fun ps' name t w hps' ht => ?_, fun hfalse name w hw => ?_,
      fun t ht name w hw hnot => (hextra (name, w) hw hnot).2 t ht⟩
    · exact hmembers (name, t) ((hps name t).2 ⟨ps', hps', ht⟩) w
    · by_contra hnot
      exact (hextra (name, w) hw hnot).1 hfalse
  · rintro ⟨hnames, hmembers, hclosed, hextra⟩
    refine ⟨hnames, fun ⟨name, t⟩ ht w hw => ?_, fun ⟨name, w⟩ hw hnot => ⟨fun hfalse => ?_,
      fun t ht => hextra t ht name w hw hnot⟩⟩
    · obtain ⟨ps', hps', ht'⟩ := (hps name t).1 ht
      exact hmembers ps' name t w hps' ht' hw
    · exact hnot (hclosed hfalse name w hw)

end Keywords

end Check
end ApiTree
