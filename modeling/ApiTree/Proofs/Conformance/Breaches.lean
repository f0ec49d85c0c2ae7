import ApiTree.Proofs.Conformance.Keywords

/-!
# ApiTree.Proofs.Conformance.Breaches

What it is for a violation to be genuine, said without the order in which a check goes.  A
violation has a way of steps.  Along it, or along all but its last step, a value with a schema
descends to a part of the value with a schema inside (`Descends`), and that schema has the keyword
of the violation, which the part breaks (`Schema.BrokenBy`, one case for each kind of breach).  So
the part does not satisfy the schema.
-/

namespace ApiTree

/-! ## ways into a value -/

namespace Json

/-- A step leads from a value to one of its parts. -/
inductive Part : Json → Step → Json → Prop
  | member {ms : Members} {name : String} {w : Json} (hw : (name, w) ∈ ms) :
    Part (.obj ms) (.member name) w
  | item {xs : List Json} {i : Nat} {x : Json} (hx : xs[i]? = some x) : Part (.arr xs) (.item i) x

/-- Steps lead from a value to a part of it, at any depth. -/
inductive PartAt : Json → List Step → Json → Prop
  | here (v : Json) : PartAt v [] v
  | step {v w u : Json} {first : Step} {way : List Step} (hfirst : Part v first w)
    (rest : PartAt w way u) : PartAt v (first :: way) u

theorem PartAt.append {v w u : Json} {way way' : List Step} (h : PartAt v way w)
    (h' : PartAt w way' u) : PartAt v (way ++ way') u := by
  induction h with
  | here v => exact h'
  | step hfirst _ ih => exact .step hfirst (ih h')

end Json

/-! ## ways into a schema -/

namespace Schema

/-- The constraints of a schema count for a value: the schema is no reference, and does not
allow for null where the value is null. -/
structure CountsFor (s : Schema) (v : Json) : Prop where
  ref : Table.find? s "$ref" = none
  null : ¬ (v = .null ∧ s.Flags "nullable")

/-- A schema leads by a step to a part of a value with a schema for it. -/
inductive Into (s : Schema) : Json → Step → Json → Json → Prop
  | property {ms ps : Json.Members} {name : String} {w t : Json}
    (hps : Table.find? s "properties" = some (.obj ps)) (ht : (name, t) ∈ ps)
    (hw : Table.find? ms name = some w) : Into s (.obj ms) (.member name) w t
  | additional {ms t : Json.Members} {name : String} {w : Json}
    (ht : Table.find? s "additionalProperties" = some (.obj t)) (hw : (name, w) ∈ ms)
    (hnot : ¬ s.Describes name) : Into s (.obj ms) (.member name) w (.obj t)
  | items {xs : List Json} {t : Json.Members} {i : Nat} {x : Json}
    (ht : Table.find? s "items" = some (.obj t)) (hx : xs[i]? = some x) :
    Into s (.arr xs) (.item i) x (.obj t)
  | row {xs ts : List Json} {i : Nat} {x t : Json}
    (hts : Table.find? s "items" = some (.arr ts) ∨ Table.find? s "prefixItems" = some (.arr ts))
    (hx : xs[i]? = some x) (ht : ts[i]? = some t) : Into s (.arr xs) (.item i) x t

open Classical in
/-- A constraint of a schema is broken by a value, with `R` for the schemas inside.  The steps
lead from the value to the part at fault: the name that is missing or unexpected, the item that
equals an earlier one; else there are none. -/
inductive BrokenBy (rule : Option Conforms) (R : Json → Json → Prop) (s : Schema) :
    Json → List Step → Breach → Prop
  | anyOf {v : Json} {ts : List Json} (hts : Table.find? s "anyOf" = some (.arr ts))
    (hnot : ∀ t ∈ ts, ¬ R v t) : BrokenBy rule R s v [] .noAlternative
  | oneOf {v : Json} {ts : List Json} (hts : Table.find? s "oneOf" = some (.arr ts))
    (hnot : ts.countP (R v ·) ≠ 1) : BrokenBy rule R s v [] (.alternatives (ts.countP (R v ·)))
  | type {v j : Json} (hj : Table.find? s "type" = some j)
    (hnot : ¬ ∃ name, (j = .str name ∨ ∃ ts, j = .arr ts ∧ .str name ∈ ts) ∧ v.HasType name) :
    BrokenBy rule R s v [] (.type j v)
  | enum {v : Json} {options : List Json} (hj : Table.find? s "enum" = some (.arr options))
    (hnot : ∀ e ∈ options, v.itemEq e = false) : BrokenBy rule R s v [] (.enum v (.arr options))
  | minimum {v j : Json} {x b : Number} (hv : v.number? = some x)
    (hj : Table.find? s "minimum" = some j) (hb : j.number? = some b)
    (hflag : ¬ s.Flags "exclusiveMinimum") (hlt : x.Lt b) : BrokenBy rule R s v [] (.minimum v j)
  | maximum {v j : Json} {x b : Number} (hv : v.number? = some x)
    (hj : Table.find? s "maximum" = some j) (hb : j.number? = some b)
    (hflag : ¬ s.Flags "exclusiveMaximum") (hlt : b.Lt x) : BrokenBy rule R s v [] (.maximum v j)
  | exclusiveMinimum {v j : Json} {x b : Number} (hv : v.number? = some x)
    (hj : Table.find? s "exclusiveMinimum" = some j ∨
      Table.find? s "minimum" = some j ∧ s.Flags "exclusiveMinimum")
    (hb : j.number? = some b) (hle : x.Le b) : BrokenBy rule R s v [] (.exclusiveMinimum v j)
  | exclusiveMaximum {v j : Json} {x b : Number} (hv : v.number? = some x)
    (hj : Table.find? s "exclusiveMaximum" = some j ∨
      Table.find? s "maximum" = some j ∧ s.Flags "exclusiveMaximum")
    (hb : j.number? = some b) (hle : b.Le x) : BrokenBy rule R s v [] (.exclusiveMaximum v j)
  | multipleOf {v j : Json} {x d : Number} (hv : v.number? = some x)
    (hj : Table.find? s "multipleOf" = some j) (hd : j.number? = some d)
    (hzero : d.rational? ≠ some 0) (hnot : ¬ x.IsMultiple d) :
    BrokenBy rule R s v [] (.multipleOf v j)
  | minLength {t : String} {j : Json} {b : Number} (hj : Table.find? s "minLength" = some j)
    (hb : j.number? = some b) (hlt : (Number.int t.length).Lt b) :
    BrokenBy rule R s (.str t) [] (.minLength t.length j)
  | maxLength {t : String} {j : Json} {b : Number} (hj : Table.find? s "maxLength" = some j)
    (hb : j.number? = some b) (hlt : b.Lt (.int t.length)) :
    BrokenBy rule R s (.str t) [] (.maxLength t.length j)
  | pattern {t : String} {p : Json} (hp : Table.find? s "pattern" = some p)
    (hnot : ¬ MatchesPattern rule p t) : BrokenBy rule R s (.str t) [] (.pattern t p)
  | format {t : String} {f : Json} {conforms : Conforms} (hf : Table.find? s "format" = some f)
    (hrule : rule = some conforms) (hnot : conforms f t = false) :
    BrokenBy rule R s (.str t) [] (.format t f)
  | minItems {xs : List Json} {j : Json} {b : Number} (hj : Table.find? s "minItems" = some j)
    (hb : j.number? = some b) (hlt : (Number.int xs.length).Lt b) :
    BrokenBy rule R s (.arr xs) [] (.minItems xs.length j)
  | maxItems {xs : List Json} {j : Json} {b : Number} (hj : Table.find? s "maxItems" = some j)
    (hb : j.number? = some b) (hlt : b.Lt (.int xs.length)) :
    BrokenBy rule R s (.arr xs) [] (.maxItems xs.length j)
  | uniqueItems {xs : List Json} {i k : Nat} {x y : Json} (hflag : s.Flags "uniqueItems")
    (hx : xs[i]? = some x) (hk : k < i) (hy : xs[k]? = some y) (heq : x.itemEq y = true) :
    BrokenBy rule R s (.arr xs) [.item i] .duplicateItem
  | required {ms : Json.Members} {names : List Json} {name : String}
    (hnames : Table.find? s "required" = some (.arr names)) (hname : .str name ∈ names)
    (hnone : Table.find? ms name = none) :
    BrokenBy rule R s (.obj ms) [.member name] (.missing (.str name))
  | additionalProperties {ms : Json.Members} {name : String} {w : Json}
    (hclosed : Table.find? s "additionalProperties" = some (.bool false)) (hw : (name, w) ∈ ms)
    (hnot : ¬ s.Describes name) : BrokenBy rule R s (.obj ms) [.member name] (.unexpected name)

end Schema

/-- A value with a schema descends by steps to a part of the value with a schema inside.
References and the schemas that are all to be satisfied take no step. -/
inductive Descends (definitions : Table String Json) :
    Json → Json → List Step → Json → Json → Prop
  | here (v s : Json) : Descends definitions v s [] v s
  | reference {v t w u ref : Json} {s : Schema} {way : List Step}
    (href : Table.find? s "$ref" = some ref) (ht : Check.follow definitions ref = .ok t)
    (rest : Descends definitions v t way w u) : Descends definitions v (.obj s) way w u
  | all {v t w u : Json} {s : Schema} {ts : List Json} {way : List Step} (hcounts : s.CountsFor v)
    (hts : Table.find? s "allOf" = some (.arr ts)) (ht : t ∈ ts)
    (rest : Descends definitions v t way w u) : Descends definitions v (.obj s) way w u
  | into {v x t w u : Json} {s : Schema} {step : Step} {way : List Step} (hcounts : s.CountsFor v)
    (hinto : s.Into v step x t) (rest : Descends definitions x t way w u) :
    Descends definitions v (.obj s) (step :: way) w u

/-- A violation is genuine: its way descends to a part of the value with a schema whose
constraints count for the part, and one of them is broken there. -/
def Violation.Genuine (definitions : Table String Json) (rule : Option Conforms)
    (R : Json → Json → Prop) (v s : Json) (x : Violation) : Prop :=
  ∃ way tail w, ∃ t : Schema, x.steps = way ++ tail ∧ Descends definitions v s way w (.obj t) ∧
    t.CountsFor w ∧ t.BrokenBy rule R w tail x.breach

namespace Schema

variable {rule : Option Conforms} {R : Json → Json → Prop} {s : Schema} {v w t : Json} {step : Step}

theorem Into.part (h : s.Into v step w t) : v.Part step w := by
  cases h with
  | property _ _ hw => exact .member (Table.mem_of_find? hw)
  | additional _ hw _ => exact .member hw
  | items _ hx => exact .item hx
  | row _ hx _ => exact .item hx

theorem Into.leads {definitions : Table String Json} (href : Table.find? s "$ref" = none)
    (h : s.Into v step w t) : Leads definitions (v, .obj s) (w, t) := by
  cases h with
  | property hps ht hw =>
      exact leads_described href (List.mem_map_of_mem (f := (·.2)) (Table.mem_of_find? hw))
        (mem_described hps ht)
  | additional ht hw _ =>
      exact leads_inside href (List.mem_map_of_mem (f := (·.2)) hw) (by simp) (mem_under_of_obj ht)
  | items ht hx => exact leads_inside href (List.mem_of_getElem? hx) (by simp) (mem_under_of_obj ht)
  | row hts hx ht =>
      rcases hts with hts | hts <;>
        exact leads_inside href (List.mem_of_getElem? hx) (by simp)
          (mem_under_of_arr hts (List.mem_of_getElem? ht))

variable {tail : List Step} {b : Breach}

/-- The keyword of a breach occurs in the schema that is broken. -/
theorem BrokenBy.occurs (h : s.BrokenBy rule R v tail b) :
    ∃ j, Table.find? s b.constraint = some j := by
  cases h with
  | exclusiveMinimum _ hj _ _ => exact hj.elim (fun h => ⟨_, h⟩) fun h => ⟨_, h.2⟩
  | exclusiveMaximum _ hj _ _ => exact hj.elim (fun h => ⟨_, h⟩) fun h => ⟨_, h.2⟩
  | _ => exact ⟨_, by assumption⟩

/-- The part at fault is there, unless it is a name that is missing. -/
theorem BrokenBy.partAt (h : s.BrokenBy rule R v tail b) (hb : b.constraint ≠ "required") :
    ∃ w, v.PartAt tail w := by
  cases h with
  | uniqueItems _ hx _ _ _ => exact ⟨_, .step (.item hx) (.here _)⟩
  | additionalProperties _ hw _ => exact ⟨_, .step (.member hw) (.here _)⟩
  | required _ _ _ => exact absurd rfl hb
  | _ => exact ⟨_, .here _⟩

theorem exactlyOne_iff_countP {p : Json → Prop} [DecidablePred p] {ts : List Json} :
    ExactlyOne p ts ↔ ts.countP (p ·) = 1 := by
  induction ts with
  | nil => simp [ExactlyOne]
  | cons t ts ih =>
      rw [Check.exactlyOne_cons, ih]
      by_cases ht : p t
      · simp [ht, List.countP_eq_zero]
      · simp [ht]

/-- A value that breaks a constraint does not meet all of them. -/
theorem BrokenBy.not_admits (h : s.BrokenBy rule R v tail b) : ¬ Admits R rule s v := by
  intro hadmits
  cases h with
  | anyOf hts hnot =>
      obtain ⟨t, ht, hR⟩ := hadmits.any _ hts
      exact hnot t ht hR
  | oneOf hts hnot =>
      classical
      exact hnot (exactlyOne_iff_countP.1 (hadmits.one _ hts))
  | type hj hnot => exact hnot (hadmits.type _ hj)
  | enum hj hnot =>
      obtain ⟨e, he, heq⟩ := hadmits.enum _ hj
      simp [hnot e he] at heq
  | minimum hv hj hb hflag hlt =>
      exact (hadmits.number _ hv).minimum _ (by simp [HasNumber, hj, hb]) hflag hlt
  | maximum hv hj hb hflag hlt =>
      exact (hadmits.number _ hv).maximum _ (by simp [HasNumber, hj, hb]) hflag hlt
  | exclusiveMinimum hv hj hb hle =>
      refine (hadmits.number _ hv).exclusiveMinimum _ (hj.imp ?_ (And.imp_left ?_)) hle <;>
        exact fun hj => by simp [HasNumber, hj, hb]
  | exclusiveMaximum hv hj hb hle =>
      refine (hadmits.number _ hv).exclusiveMaximum _ (hj.imp ?_ (And.imp_left ?_)) hle <;>
        exact fun hj => by simp [HasNumber, hj, hb]
  | multipleOf hv hj hd hzero hnot =>
      exact hnot ((hadmits.number _ hv).multipleOf _ (by simp [HasNumber, hj, hd]) hzero)
  | minLength hj hb hlt =>
      exact (hadmits.text _ rfl).length.least _ (by simp [HasNumber, hj, hb]) hlt
  | maxLength hj hb hlt =>
      exact (hadmits.text _ rfl).length.most _ (by simp [HasNumber, hj, hb]) hlt
  | pattern hp hnot => exact hnot ((hadmits.text _ rfl).pattern _ hp)
  | format hf hrule hnot => simp [(hadmits.text _ rfl).format _ _ hf hrule] at hnot
  | minItems hj hb hlt =>
      exact (hadmits.array _ rfl).size.least _ (by simp [HasNumber, hj, hb]) hlt
  | maxItems hj hb hlt =>
      exact (hadmits.array _ rfl).size.most _ (by simp [HasNumber, hj, hb]) hlt
  | uniqueItems hflag hx hk hy heq =>
      obtain ⟨hi, rfl⟩ := List.getElem?_eq_some_iff.1 hx
      obtain ⟨hk', rfl⟩ := List.getElem?_eq_some_iff.1 hy
      have hunique := (hadmits.array _ rfl).unique hflag
      have hdistinct := List.pairwise_iff_getElem.1 hunique _ _ hk' hi hk
      rw [Check.itemEq_comm] at hdistinct
      simp [hdistinct] at heq
  | required hnames hname hnone =>
      obtain ⟨w, hw⟩ := (hadmits.object _ rfl).required _ _ hnames hname
      simp [hnone] at hw
  | additionalProperties hclosed hw hnot =>
      exact hnot ((hadmits.object _ rfl).closed hclosed _ _ hw)

end Schema

theorem Descends.partAt {definitions : Table String Json} {v s w t : Json} {way : List Step}
    (h : Descends definitions v s way w t) : v.PartAt way w := by
  induction h with
  | here v s => exact .here v
  | reference _ _ _ ih => exact ih
  | all _ _ _ _ ih => exact ih
  | into _ hinto _ ih => exact .step hinto.part ih

/-- A part that breaks a constraint does not satisfy its schema. -/
theorem IsSatisfaction.not_of_brokenBy {definitions : Table String Json} {rule : Option Conforms}
    {R : Json → Json → Prop} (hR : IsSatisfaction definitions rule R) {v : Json} {s : Schema}
    {tail : List Step} {b : Breach} (hcounts : s.CountsFor v) (h : s.BrokenBy rule R v tail b) :
    ¬ R v (.obj s) := by
  rw [hR v (.obj s), Meets, hcounts.ref]
  exact not_or.2 ⟨hcounts.null, h.not_admits⟩

end ApiTree
