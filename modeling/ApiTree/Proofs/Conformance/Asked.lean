import ApiTree.Proofs.Conformance.Founded
import ApiTree.Proofs.Schema.Listed

/-!
# ApiTree.Proofs.Conformance.Asked

What the keywords of the schemas of structural types ask for (`Schema.Asks`).  A schema is
satisfied by the values for which all of its keywords ask for what holds
(`satisfies_of_asks`), among them a schema that lists values (`Schema.Lists`).
-/

namespace ApiTree

namespace Schema

variable {R : Json → Json → Prop} {s : Schema} {v : Json}

/-! ## keywords -/

/-- What a keyword of the schema of a structural type asks for.  Of the other keywords none
can be kept. -/
def Asks (R : Json → Json → Prop) (v : Json) (keyword : String) (j : Json) : Prop :=
  match keyword with
  | "allOf" => ∃ ts, j = .arr ts ∧ ∀ t ∈ ts, R v t
  | "anyOf" => ∃ ts, j = .arr ts ∧ ∃ t ∈ ts, R v t
  | "type" => ∃ word, j = .str word ∧ v.HasType word
  | "enum" => ∃ options, j = .arr options ∧ ∃ e ∈ options, v.itemEq e = true
  | "minimum" => ∃ b, j = .int b ∧ ∀ x, v.number? = some x → ¬ x.Lt (.int b)
  | "maximum" => ∃ b, j = .int b ∧ ∀ x, v.number? = some x → ¬ Number.Lt (.int b) x
  | "minItems" => ∃ b, j = .int b ∧ ∀ xs, v = .arr xs → ¬ (Number.int xs.length).Lt (.int b)
  | "maxItems" => ∃ b, j = .int b ∧ ∀ xs, v = .arr xs → ¬ Number.Lt (.int b) (.int xs.length)
  | "items" => ∃ t, j = .obj t ∧ ∀ xs, v = .arr xs → ∀ x ∈ xs, R x (.obj t)
  | "prefixItems" => ∃ ts, j = .arr ts ∧ ∀ xs, v = .arr xs →
    ∀ (i : Nat) x t, xs[i]? = some x → ts[i]? = some t → R x t
  | "additionalProperties" => ∃ t, j = .obj t ∧
    ∀ ms, v = .obj ms → ∀ name w, (name, w) ∈ ms → R w (.obj t)
  | "nullable" | "title" | "description" => True
  | _ => False

/-- The keywords of schemas of other types. -/
def otherKeywords : List String :=
  ["oneOf", "multipleOf", "exclusiveMinimum", "exclusiveMaximum", "minLength", "maxLength",
    "pattern", "format", "uniqueItems", "required", "properties"]

/-- Other keywords ask nothing. -/
theorem not_asks {keyword : String} (h : keyword ∈ otherKeywords) (j : Json) :
    ¬ Asks R v keyword j := by
  simp only [otherKeywords, List.mem_cons, List.not_mem_nil, or_false] at h
  obtain rfl | rfl | rfl | rfl | rfl | rfl | rfl | rfl | rfl | rfl | rfl := h <;> simp [Asks]

/-- A schema admits a value when each keyword does. -/
theorem admits_of_asks (h : ∀ e ∈ s, Asks R v e.1 e.2) : Admits R none s v := by
  have hask (k : String) (j : Json) (hj : Table.find? s k = some j) : Asks R v k j :=
    h _ (Table.mem_of_find? hj)
  have habsent (k : String) (hk : k ∈ otherKeywords) : Table.find? s k = none := by
    cases hj : Table.find? s k with
    | none => rfl
    | some j => exact absurd (hask k j hj) (not_asks hk j)
  have hbounds (k : String) (b : Number) (hb : HasNumber s k b) :
      ∃ j, Asks R v k j ∧ j.number? = some b := by
    obtain ⟨j, hj, hb⟩ := Option.bind_eq_some_iff.1 hb
    exact ⟨j, hask k j hj, hb⟩
  have hunbounded (k : String) (hk : k ∈ otherKeywords) (b : Number) : ¬ HasNumber s k b := by
    simp [HasNumber, habsent k hk]
  have hunflagged (k : String) (hk : k ∈ otherKeywords) : ¬ Flags s k := by
    simp [Flags, habsent k hk]
  constructor
  case all =>
    intro ts hts
    obtain ⟨_, heq, hall⟩ := hask "allOf" _ hts
    obtain rfl := Json.arr.inj heq
    exact hall
  case any =>
    intro ts hts
    obtain ⟨_, heq, hany⟩ := hask "anyOf" _ hts
    obtain rfl := Json.arr.inj heq
    exact hany
  case one => simp [habsent "oneOf" (by decide)]
  case type =>
    intro j hj
    obtain ⟨word, rfl, hword⟩ := hask "type" j hj
    exact ⟨word, .inl rfl, hword⟩
  case enum =>
    intro options hoptions
    obtain ⟨_, heq, henum⟩ := hask "enum" _ hoptions
    obtain rfl := Json.arr.inj heq
    exact henum
  case number =>
    intro x hx
    refine ⟨fun b hb _ => ?_, fun b hb _ => ?_, fun b hb => ?_, fun b hb => ?_, fun d hd => ?_⟩
    · obtain ⟨_, ⟨n, rfl, hmin⟩, hn⟩ := hbounds "minimum" b hb
      obtain rfl := Option.some.inj hn
      exact hmin x hx
    · obtain ⟨_, ⟨n, rfl, hmax⟩, hn⟩ := hbounds "maximum" b hb
      obtain rfl := Option.some.inj hn
      exact hmax x hx
    · rcases hb with hb | ⟨-, hflag⟩
      · exact absurd hb (hunbounded _ (by decide) b)
      · exact absurd hflag (hunflagged _ (by decide))
    · rcases hb with hb | ⟨-, hflag⟩
      · exact absurd hb (hunbounded _ (by decide) b)
      · exact absurd hflag (hunflagged _ (by decide))
    · exact absurd hd (hunbounded _ (by decide) d)
  case text =>
    intro t _
    refine ⟨⟨fun b hb => absurd hb (hunbounded _ (by decide) b),
      fun b hb => absurd hb (hunbounded _ (by decide) b)⟩, ?_, by simp⟩
    simp [habsent "pattern" (by decide)]
  case array =>
    intro xs hxs
    refine ⟨⟨fun b hb => ?_, fun b hb => ?_⟩, fun hflag => absurd hflag (hunflagged _ (by decide)),
      fun t ht => ?_, fun ts hts => ?_⟩
    · obtain ⟨_, ⟨n, rfl, hmin⟩, hn⟩ := hbounds "minItems" b hb
      obtain rfl := Option.some.inj hn
      exact hmin xs hxs
    · obtain ⟨_, ⟨n, rfl, hmax⟩, hn⟩ := hbounds "maxItems" b hb
      obtain rfl := Option.some.inj hn
      exact hmax xs hxs
    · obtain ⟨_, heq, hitems⟩ := hask "items" _ ht
      obtain rfl := Json.obj.inj heq
      exact hitems xs hxs
    · rcases hts with hts | hts
      · obtain ⟨_, heq, -⟩ := hask "items" _ hts
        cases heq
      · obtain ⟨_, heq, hrow⟩ := hask "prefixItems" _ hts
        obtain rfl := Json.arr.inj heq
        exact hrow xs hxs
  case object =>
    intro ms hms
    refine ⟨?_, ?_, fun hclosed => ?_, fun t ht name w hw _ => ?_⟩
    · simp [habsent "required" (by decide)]
    · simp [habsent "properties" (by decide)]
    · obtain ⟨_, heq, -⟩ := hask "additionalProperties" _ hclosed
      cases heq
    · obtain ⟨_, heq, hmembers⟩ := hask "additionalProperties" _ ht
      obtain rfl := Json.obj.inj heq
      exact hmembers ms hms name w hw

/-- What a schema admits it admits as well where null is allowed for. -/
theorem admits_append_nullable (h : Admits R none s v) :
    Admits R none (s ++ [("nullable", .bool true)]) v := by
  constructor
  case all => simpa (disch := decide) only [find?_append_nullable] using h.all
  case any => simpa (disch := decide) only [find?_append_nullable] using h.any
  case one => simpa (disch := decide) only [find?_append_nullable] using h.one
  case type => simpa (disch := decide) only [find?_append_nullable] using h.type
  case enum => simpa (disch := decide) only [find?_append_nullable] using h.enum
  case number =>
    intro x hx
    obtain ⟨hmin, hmax, hexmin, hexmax, hmultiple⟩ := h.number x hx
    constructor <;> simpa (disch := decide) only [HasNumber, Flags, find?_append_nullable]
  case text =>
    intro t ht
    obtain ⟨⟨hleast, hmost⟩, hpattern, hformat⟩ := h.text t ht
    refine ⟨⟨?_, ?_⟩, ?_, ?_⟩ <;> simpa (disch := decide) only [HasNumber, find?_append_nullable]
  case array =>
    intro xs hxs
    obtain ⟨⟨hleast, hmost⟩, hunique, hitems, hrow⟩ := h.array xs hxs
    refine ⟨⟨?_, ?_⟩, ?_, ?_, ?_⟩ <;>
      simpa (disch := decide) only [HasNumber, Flags, find?_append_nullable]
  case object =>
    intro ms hms
    obtain ⟨hrequired, hproperties, hclosed, hadditional⟩ := h.object ms hms
    constructor <;> simpa (disch := decide) only [Describes, find?_append_nullable]

end Schema

section Satisfied

open Schema

variable {definitions : Table String Json} {R : Json → Json → Prop} {s : Schema}

/-- A schema without a reference at its top is satisfied where each keyword asks for what
holds. -/
theorem satisfies_of_asks (hR : IsSatisfaction definitions none R) {v : Json}
    (h : ∀ e ∈ s, Asks R v e.1 e.2) : R v (.obj s) := by
  have href : Table.find? s "$ref" = none := by
    cases hj : Table.find? s "$ref" with
    | none => rfl
    | some j => exact absurd (h _ (Table.mem_of_find? hj)) (by simp [Asks])
  rw [hR, Meets, href]
  exact .inr (admits_of_asks h)

/-- What satisfies the definition satisfies the reference to it. -/
theorem satisfies_reference (hR : IsSatisfaction definitions none R) {ref : String} {d v : Json}
    (hd : Reference.follow definitions ref = .ok d) (h : R v d) :
    R v (.obj [("$ref", .str ref)]) := by
  rw [hR, Meets]
  exact ⟨d, hd, h⟩

/-- Null satisfies a schema that admits it. -/
theorem satisfies_null (hR : IsSatisfaction definitions none R)
    (href : Table.find? s "$ref" = none) (hn : Table.find? s "nullable" = some (.bool true)) :
    R .null (.obj s) := by
  rw [hR, Meets, href]
  exact .inl ⟨rfl, hn⟩

/-- Admitting null takes nothing away. -/
theorem satisfies_append_nullable (hR : IsSatisfaction definitions none R) {v : Json}
    (href : Table.find? s "$ref" = none) (h : R v (.obj s)) :
    R v (.obj (s ++ [("nullable", .bool true)])) := by
  rw [hR, Meets] at h ⊢
  rw [find?_append_nullable s (by decide)]
  simp only [href] at h ⊢
  rcases h with ⟨rfl, hn⟩ | hadmits
  · refine .inl ⟨rfl, ?_⟩
    rw [Flags, Table.find?_append, show Table.find? s "nullable" = _ from hn]
    rfl
  · exact .inr (admits_append_nullable hadmits)

end Satisfied

/-! ## listed values -/

namespace Json

/-- A fixed value equals itself as an item. -/
theorem itemEq_of_isLiteral {v : Json} (h : v.isLiteral = true) : v.itemEq v = true := by
  cases v with
  | str s => simp [itemEq, looseEq]
  | int n => simp [itemEq, looseEq, toNumber?, Number.same_iff, Number.place?]
  | bool b => simp [itemEq]
  | _ => simp [isLiteral] at h

end Json

/-- The values of a literal type are of the JSON type that they share. -/
theorem hasType_of_shared {vs : List Json} {v : Json} {word : String}
    (h : ∀ v ∈ vs, v.isLiteral = true) (hword : Schema.sharedType? vs = some word) (hv : v ∈ vs) :
    v.HasType word := by
  have hkind : ∃ u, u.isLiteral = true ∧ v.kind = u.kind ∧ Schema.typeOf? u = some word := by
    cases vs with
    | nil => simp at hv
    | cons u us =>
        rw [Schema.sharedType?] at hword
        split at hword
        · next hkinds =>
            refine ⟨u, h u List.mem_cons_self, ?_, hword⟩
            rcases List.mem_cons.1 hv with rfl | hv
            · rfl
            · simpa using List.all_eq_true.1 hkinds v hv
        · cases hword
  obtain ⟨u, hu, hkind, htype⟩ := hkind
  have hliteral := h v hv
  cases u with
  | str t =>
      obtain rfl := Option.some.inj htype
      cases v <;> simp_all [Json.kind, Json.isLiteral, Json.HasType]
  | int n =>
      obtain rfl := Option.some.inj htype
      cases v <;> simp_all [Json.kind, Json.isLiteral, Json.HasType]
  | bool b =>
      obtain rfl := Option.some.inj htype
      cases v <;> simp_all [Json.kind, Json.isLiteral, Json.HasType]
  | _ => simp [Json.isLiteral] at hu

namespace Schema

namespace Lists

variable {vs : List Json} {s : Schema} {definitions : Table String Json} {R : Json → Json → Prop}

/-- A schema that lists values is founded. -/
theorem founded (h : Lists vs s) : Founded definitions (.obj s) := by
  refine founded_of_keywords (fun e he => ?_) (fun e he => ?_) (fun e he => ?_) <;>
    rcases h.keywords e he with rfl | ⟨word, -, rfl⟩ | ⟨text, rfl | rfl⟩ <;>
    simp [hasForm, isList, isText, schemaKeywords]

/-- A listed value satisfies the schema. -/
theorem satisfies (h : Lists vs s) (hR : IsSatisfaction definitions none R)
    (hvs : ∀ v ∈ vs, v.isLiteral = true) {v : Json} (hv : v ∈ vs) : R v (.obj s) := by
  refine satisfies_of_asks hR fun e he => ?_
  rcases h.keywords e he with rfl | ⟨word, hword, rfl⟩ | ⟨text, rfl | rfl⟩
  · exact ⟨vs, rfl, v, hv, Json.itemEq_of_isLiteral (hvs v hv)⟩
  · exact ⟨word, rfl, hasType_of_shared hvs hword hv⟩
  · trivial
  · trivial

/-- What satisfies a schema that lists values satisfies it among other definitions too. -/
theorem satisfies_of_satisfies {definitions' : Table String Json} {R' : Json → Json → Prop}
    (h : Lists vs s) (hR' : IsSatisfaction definitions' none R')
    (hR : IsSatisfaction definitions none R) {v : Json} (hv : R' v (.obj s)) : R v (.obj s) := by
  have hentry {k : String} {j : Json} (hj : Table.find? s k = some j) :=
    h.keywords _ (Table.mem_of_find? hj)
  have habsent (k : String) (hk : k ∉ ["enum", "type", "title", "description"]) :
      Table.find? s k = none := by
    cases hj : Table.find? s k with
    | none => rfl
    | some j => rcases hentry hj with heq | ⟨word, -, heq⟩ | ⟨text, heq | heq⟩ <;> simp_all
  have hadmits : Admits R' none s v := by
    rw [hR', Meets, habsent "$ref" (by simp)] at hv
    refine hv.resolve_left fun hnull => ?_
    simp [Flags, habsent "nullable" (by simp)] at hnull
  refine satisfies_of_asks hR fun e he => ?_
  rcases h.keywords e he with rfl | ⟨word, hword, rfl⟩ | ⟨text, rfl | rfl⟩
  · exact ⟨vs, rfl, hadmits.enum vs h.values⟩
  · -- the type that is found is the one that the values share
    obtain ⟨j, hj⟩ := (Table.mem_keys_iff s "type").1 (List.mem_map_of_mem he)
    obtain ⟨name, hname, htype⟩ := hadmits.type j hj
    obtain rfl : j = .str word := by
      rcases hentry hj with heq | ⟨word', hword', heq⟩ | ⟨text, heq | heq⟩ <;> simp_all
    obtain rfl : word = name := by simpa using hname
    exact ⟨word, rfl, htype⟩
  · trivial
  · trivial

end Lists

end Schema
end ApiTree
