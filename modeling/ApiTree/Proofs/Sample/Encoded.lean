import ApiTree.Proofs.Sample.Draws
import ApiTree.Proofs.Table.Merge
import ApiTree.Proofs.Ty.Distinct
import ApiTree.Proofs.Ty.Structural
import ApiTree.Sample.Encoding
import ApiTree.Sample.Generator

/-!
# ApiTree.Proofs.Sample.Encoded

What is drawn for a structural type can be encoded, and its encoded form is one of the type
(`Catalog.exists_generator`).  A value that is drawn for the member of a union is
encoded in the shape of the union, which says nothing, so the form of a value is the same in
the shape of its type and in the open shape (`Value.EncodesTo`).
-/

namespace ApiTree

namespace Value

variable {c : Catalog}

/-! ## encoding -/

/-- How a value is written depends only on what decides it in the shape. -/
theorem encode_congr {s s' : Shape} (h : s.written = s'.written) (v : Value) :
    encode c s v = encode c s' v := by
  have hmember : memberShape c s = memberShape c s' := by
    funext i name
    simp only [memberShape, h]
  cases v <;> simp only [encode, hmember, h]

/-- A union says nothing about how its values are written. -/
theorem encode_union (ss : List Shape) (v : Value) : encode c (.union ss) v = encode c .any v := by
  have hmember : memberShape c (.union ss) = memberShape c .any := by
    funext i name
    simp only [memberShape, Shape.written]
    cases c.form i <;> rfl
  have hitem (kind : Collection) : Shape.ofItem (.union ss) kind = Shape.ofItem .any kind := rfl
  cases v <;> simp only [encode, hmember, hitem, Shape.written, Shape.ofEntry]

/-- The form of a value in a shape, which it also has in the open shape. -/
structure EncodesTo (c : Catalog) (s : Shape) (v : Value) (j : Json) : Prop where
  inShape : encode c s v = .ok j
  plain : encode c .any v = .ok j
  null : j = .null → v = .null

/-- Items that can be encoded for their places are encoded as a list, whether or not places say how.
-/
theorem exists_items {s : ℕ → Shape} {P : ℕ → Json → Prop} {vs : List Value} {i : ℕ}
    (h : ∀ (k : ℕ) v, vs[k]? = some v → ∃ j, EncodesTo c (s (i + k)) v j ∧ P k j) :
    ∃ js, encodeItems c s i vs = .ok js ∧ encodeItems c (fun _ => .any) i vs = .ok js ∧
      js.length = vs.length ∧ ∀ (k : ℕ) j, js[k]? = some j → P k j := by
  induction vs generalizing i P with
  | nil => exact ⟨[], rfl, rfl, rfl, by simp⟩
  | cons v vs ih =>
      obtain ⟨j, hj, hP⟩ := h 0 v rfl
      obtain ⟨js, hjs, hplain, hlen, hrest⟩ := ih (i := i + 1) (P := fun k => P (k + 1))
        fun k w hk => by simpa [Nat.add_assoc, Nat.add_comm 1] using h (k + 1) w (by simpa using hk)
      refine ⟨j :: js, ?_, ?_, by simp [hlen], fun k x hk => ?_⟩
      · have hhead : encode c (s i) v = .ok j := hj.inShape
        rw [encodeItems, hhead, hjs]
        rfl
      · rw [encodeItems, hj.plain, hplain]
        rfl
      · cases k with
        | zero =>
            obtain rfl : j = x := by simpa using hk
            exact hP
        | succ k => exact hrest k x (by simpa using hk)

/-- Entries whose values can be encoded are encoded as an object. -/
theorem exists_entries {s : Shape} {P : Json → Prop} {es : List (Value × Value)}
    (h : ∀ e ∈ es, ∃ j, EncodesTo c s e.2 j ∧ P j) :
    ∃ ms, encodeEntries c s es = .ok ms ∧ encodeEntries c .any es = .ok ms ∧ ∀ e ∈ ms, P e.2 := by
  induction es with
  | nil => exact ⟨[], rfl, rfl, by simp⟩
  | cons e es ih =>
      obtain ⟨k, v⟩ := e
      obtain ⟨j, hj, hP⟩ := h (k, v) List.mem_cons_self
      obtain ⟨ms, hms, hplain, hrest⟩ := ih fun e he => h e (List.mem_cons_of_mem _ he)
      refine ⟨(keyText c k, j) :: ms, ?_, ?_, ?_⟩
      · rw [encodeEntries, hj.inShape, hms]
        rfl
      · rw [encodeEntries, hj.plain, hplain]
        rfl
      · intro e he
        rcases List.mem_cons.1 he with rfl | he
        · exact hP
        · exact hrest e he

/-! ## entries -/

/-- After an entry is put its values are old ones, or it. -/
theorem mem_putEntry {es : List (Value × Value)} {k v : Value} {e : Value × Value}
    (h : e ∈ putEntry es k v) : e.2 = v ∨ e ∈ es := by
  induction es with
  | nil =>
      obtain rfl := List.mem_singleton.1 h
      exact .inl rfl
  | cons e' es ih =>
      obtain ⟨k', v'⟩ := e'
      rw [putEntry] at h
      split at h <;> rcases List.mem_cons.1 h with rfl | h
      · exact .inl rfl
      · exact .inr (List.mem_cons_of_mem _ h)
      · exact .inr List.mem_cons_self
      · exact (ih h).imp_right (List.mem_cons_of_mem _)

/-- Entries with equal keys become one, with a value that was given. -/
theorem exists_dictOf {P : Value → Prop} {es : List (Value × Value)} (h : ∀ e ∈ es, P e.2) :
    ∃ es', dictOf es = .dict es' ∧ ∀ e ∈ es', P e.2 := by
  refine ⟨_, rfl, ?_⟩
  suffices hfold : ∀ known : List (Value × Value), (∀ e ∈ known, P e.2) →
      ∀ e ∈ es.foldl (fun es e => putEntry es e.1 e.2) known, P e.2 from hfold [] (by simp)
  induction es with
  | nil => exact fun known hknown => hknown
  | cons e es ih =>
      refine fun known hknown => ih (fun e' he' => h e' (List.mem_cons_of_mem _ he')) _ ?_
      intro e' he'
      rcases mem_putEntry he' with heq | he'
      · exact heq ▸ h e List.mem_cons_self
      · exact hknown e' he'

end Value

/-! ## drawing -/

namespace Generator

variable {σ : Type} {gs : List (Draw σ Value)} {ts : List Ty} {P : Ty → Value → Prop}

/-- Drawing a row draws a value for each place. -/
theorem yields_row (h : List.Forall₂ (fun g t => g.Yields (P t)) gs ts) :
    (row gs).Yields fun vs => vs.length = ts.length ∧
      ∀ (k : ℕ) v t, vs[k]? = some v → ts[k]? = some t → P t v := by
  induction h with
  | nil => exact Draw.yields_pure ⟨rfl, by simp⟩
  | @cons g t gs ts hg _ ih =>
      refine Draw.yields_bind hg fun v hv => Draw.yields_bind ih fun vs hvs =>
        Draw.yields_pure ⟨by simp [hvs.1], fun k w u hw hu => ?_⟩
      cases k with
      | zero =>
          obtain rfl : v = w := by simpa using hw
          obtain rfl : t = u := by simpa using hu
          exact hv
      | succ k => exact hvs.2 k w u (by simpa using hw) (by simpa using hu)

/-- Drawing one of several draws a value of one of them. -/
theorem yields_oneOf [RandomSource σ] (hne : ts ≠ [])
    (h : List.Forall₂ (fun g t => g.Yields (P t)) gs ts) :
    (oneOf gs).Yields fun v => ∃ t ∈ ts, P t v := by
  have hgs : gs ≠ [] := by
    rintro rfl
    cases h
    exact hne rfl
  refine Draw.yields_bind (Draw.yields_choice hgs) fun g hg => ?_
  obtain ⟨t, ht, hyields⟩ : ∃ t ∈ ts, g.Yields (P t) := by
    clear hne hgs
    induction h with
    | nil => simp at hg
    | @cons g' t gs ts hg' _ ih =>
        rcases List.mem_cons.1 hg with rfl | hg
        · exact ⟨t, List.mem_cons_self, hg'⟩
        · obtain ⟨t', ht', hy⟩ := ih hg
          exact ⟨t', List.mem_cons_of_mem _ ht', hy⟩
  exact hyields.mono fun v hv => ⟨t, ht, hv⟩

end Generator

namespace Catalog

open Value Generator

variable {c : Catalog}

/-- A value is encoded in the shape of a type, and the form that it gets is one of the type. -/
def Writes (c : Catalog) (t : Ty) (v : Value) : Prop :=
  ∃ j, EncodesTo c (c.shape t) v j ∧ Ty.Encodes c t j

/-- What the members of a union are written as does not depend on null. -/
theorem written_ofMembers (empty : Bool) (ss : List Shape) :
    (Shape.ofMembers empty ss).written = (match ss with
      | [s] => s
      | ss => .union ss).written := by
  cases empty <;> rfl

/-- A value that is written for the member of a union is written for the union. -/
theorem writes_union {style : UnionStyle} {ts : List Ty} {t : Ty} {v : Value} (ht : t ∈ ts)
    (h : c.Writes t v) : c.Writes (.union style ts) v := by
  obtain ⟨j, hj, hform⟩ := h
  refine ⟨j, ⟨?_, hj.plain, hj.null⟩, .union ht hform⟩
  cases hnull : Ty.same (.scalar .null) t with
  | true =>
      obtain rfl := eq_null_of_same hnull
      cases hform
      rw [hj.null rfl]
      rfl
  | false =>
      have hmem : c.shape t ∈ c.shapesNotNull ts := by
        rw [shapesNotNull_eq]
        exact List.mem_map_of_mem (List.mem_filter.2 ⟨ht, by simp [hnull]⟩)
      rw [shape, encode_congr (written_ofMembers _ _)]
      split
      · next s hs =>
          obtain rfl : c.shape t = s := by simpa [hs] using hmem
          exact hj.inShape
      · rw [encode_union]
        exact hj.plain

section Collections

variable {t : Ty} {vs : List Value}

/-- Values of a type are encoded as items. -/
theorem exists_each (h : ∀ v ∈ vs, c.Writes t v) :
    ∃ js, encodeItems c (fun _ => c.shape t) 0 vs = .ok js ∧
      encodeItems c (fun _ => .any) 0 vs = .ok js ∧ ∀ x ∈ js, Ty.Encodes c t x := by
  obtain ⟨js, hjs, hplain, -, hforms⟩ := exists_items (s := fun _ => c.shape t) (i := 0)
    (P := fun _ => Ty.Encodes c t) fun k v hv => h v (List.mem_of_getElem? hv)
  refine ⟨js, hjs, hplain, fun x hx => ?_⟩
  obtain ⟨i, hi⟩ := List.getElem?_of_mem hx
  exact hforms i x hi

/-- A list of values is a value of the collection. -/
theorem writes_list {k : Collector} (hk : k = .list ∨ k = .sequence) (h : ∀ v ∈ vs, c.Writes t v) :
    c.Writes (.each k t) (.list vs) := by
  obtain ⟨js, hjs, hplain, hforms⟩ := exists_each h
  have hitem : (c.shape (.each k t)).written.ofItem .list = fun _ => c.shape t := by
    rcases hk with rfl | rfl <;> rfl
  refine ⟨.arr js, ⟨?_, ?_, by simp⟩, .each hforms⟩
  · rw [encode, hitem, hjs]
    rfl
  · rw [encode, show Shape.any.written.ofItem .list = fun _ => Shape.any from rfl, hplain]
    rfl

/-- A tuple of any length is a value of the collection. -/
theorem writes_run (h : ∀ v ∈ vs, c.Writes t v) : c.Writes (.each .run t) (.tuple vs) := by
  obtain ⟨js, hjs, hplain, hforms⟩ := exists_each h
  refine ⟨.arr js, ⟨?_, ?_, by simp⟩, .each hforms⟩
  · rw [encode, show (c.shape (.each .run t)).written.ofItem .run = fun _ => c.shape t from rfl,
      hjs]
    rfl
  · rw [encode, show Shape.any.written.ofItem .run = fun _ => Shape.any from rfl, hplain]
    rfl

/-- A tuple of values for the places is a value of the tuple. -/
theorem writes_tuple {ts : List Ty} (hlen : vs.length = ts.length)
    (h : ∀ (k : ℕ) v t, vs[k]? = some v → ts[k]? = some t → c.Writes t v) :
    c.Writes (.tuple ts) (.tuple vs) := by
  obtain ⟨js, hjs, hplain, hlen', hforms⟩ := exists_items (i := 0)
    (s := fun k => (c.shapes ts)[k]?.getD .any)
    (P := fun k j => ∀ t, ts[k]? = some t → Ty.Encodes c t j) fun k v hv => by
    have hk : k < ts.length := hlen ▸ (List.getElem?_eq_some_iff.1 hv).1
    obtain ⟨t, ht⟩ : ∃ t, ts[k]? = some t := ⟨_, List.getElem?_eq_getElem hk⟩
    obtain ⟨j, hj, hform⟩ := h k v t hv ht
    refine ⟨j, ?_, fun t' ht' => ?_⟩
    · rw [Nat.zero_add, getElem?_shapes, ht]
      exact hj
    · obtain rfl : t = t' := Option.some.inj (ht.symm.trans ht')
      exact hform
  refine ⟨.arr js, ⟨?_, ?_, by simp⟩, .tuple (hlen'.trans hlen) fun k x t hx ht =>
    hforms k x hx t ht⟩
  · rw [encode, show (c.shape (.tuple ts)).written.ofItem .run =
      fun i => (c.shapes ts)[i]?.getD .any from rfl, hjs]
    rfl
  · rw [encode, show Shape.any.written.ofItem .run = fun _ => Shape.any from rfl, hplain]
    rfl

/-- A map to values is a value of the map. -/
theorem writes_keyed {k : Keyed} {key : Ty} {es : List (Value × Value)}
    (h : ∀ e ∈ es, c.Writes t e.2) : c.Writes (.keyed k key t) (.dict es) := by
  obtain ⟨ms, hms, hplain, hforms⟩ := exists_entries h
  refine ⟨.obj (Table.ofList ms), ⟨?_, ?_, by simp⟩, .keyed fun e he => ?_⟩
  · rw [encode, show (c.shape (.keyed k key t)).written.ofEntry = c.shape t from rfl, hms]
    rfl
  · rw [encode, show Shape.any.written.ofEntry = Shape.any from rfl, hplain]
    rfl
  · exact hforms e (Table.mem_of_mem_ofList he)

end Collections

theorem writes_null : c.Writes (.scalar .null) .null := ⟨.null, ⟨rfl, rfl, fun _ => rfl⟩, .null⟩

theorem writes_bool (b : Bool) : c.Writes (.scalar .bool) (.bool b) :=
  ⟨.bool b, ⟨rfl, rfl, by simp⟩, .bool b⟩

theorem writes_int (n : ℤ) : c.Writes (.scalar .int) (.int n) :=
  ⟨.int n, ⟨rfl, rfl, by simp⟩, .int n⟩

theorem writes_float (x : Double) : c.Writes (.scalar .float) (.float x) :=
  ⟨.float x, ⟨rfl, rfl, by simp⟩, .float x⟩

theorem writes_str (s : String) : c.Writes (.scalar .str) (.text s) :=
  ⟨.str s, ⟨rfl, rfl, by simp⟩, .str s⟩

/-- An integer in a range is a value of the range. -/
theorem writes_within {low high n : ℤ} (hlow : low ≤ n) (hhigh : n ≤ high) :
    c.Writes (.intBetween low high) (.int n) :=
  ⟨.int n, ⟨rfl, rfl, by simp⟩, .within hlow hhigh⟩

/-- A fixed value is a value of its type. -/
theorem writes_literal {vs : List Json} {v : Json} (h : v ∈ vs) (hv : v.isLiteral = true) :
    c.Writes (.literal vs) (.ofJson v) := by
  refine ⟨v, ?_, .literal h⟩
  cases v with
  | str s => exact ⟨rfl, rfl, by simp⟩
  | int n => exact ⟨rfl, rfl, by simp⟩
  | bool b => exact ⟨rfl, rfl, by simp⟩
  | _ => simp [Json.isLiteral] at hv

/-- A member of an enumeration is a value of it. -/
theorem writes_member {i : ℕ} {members : List (String × Json)} {base : Option EnumBase}
    {m : String × Json} (hform : c.form i = .enum members base) (hm : m ∈ members)
    (hlabel : m.2.isLabel = true) : c.Writes (.cls i) (.member i m.1 m.2) := by
  refine ⟨m.2, ⟨rfl, rfl, fun hnull => ?_⟩, .enum hform (List.mem_map_of_mem hm)⟩
  simp [hnull, Json.isLabel] at hlabel

/-! ## generators -/

section Generators

variable {σ : Type} [RandomSource σ]

/-- Types that each have a generator have generators together. -/
theorem exists_generators {P : Ty → Value → Prop} {whole : Option Ty} {ts : List Ty}
    (h : ∀ t ∈ ts, ∃ g : Draw σ Value, c.generatorWithin [] whole t = .ok g ∧ g.Yields (P t)) :
    ∃ gs : List (Draw σ Value), c.generatorsWithin [] whole ts = .ok gs ∧
      List.Forall₂ (fun g t => g.Yields (P t)) gs ts := by
  induction ts with
  | nil => exact ⟨[], rfl, .nil⟩
  | cons t ts ih =>
      obtain ⟨g, hg, hyields⟩ := h t List.mem_cons_self
      obtain ⟨gs, hgs, hall⟩ := ih fun t' ht' => h t' (List.mem_cons_of_mem _ ht')
      refine ⟨g :: gs, ?_, .cons hyields hall⟩
      rw [generatorsWithin, hg, hgs]
      rfl

/-- Each sample of an enumeration stands for a member. -/
theorem exists_declaredGenerator {i : ℕ} {members : List (String × Json)} {base : Option EnumBase}
    (hform : c.form i = .enum members base) (hne : members ≠ [])
    (hsamples : ∀ s, (c.decl i).samples = some s →
      s.values ≠ [] ∧ ∀ j ∈ s.values, ∃ m ∈ members, m.2.looseEq j = true) :
    ∃ g : Draw σ Value, c.declaredGenerator? i = some g ∧
      g.Yields fun v => ∃ m ∈ members, v = .member i m.1 m.2 := by
  rw [declaredGenerator?, hform]
  cases hs : (c.decl i).samples with
  | some s =>
      obtain ⟨hvalues, hstand⟩ := hsamples s hs
      refine ⟨_, rfl, Draw.yields_bind (Draw.yields_choice hvalues) fun j hj => ?_⟩
      obtain ⟨m, hm, hsame⟩ := hstand j hj
      have hinstance : c.instanceOf i s.raw j = c.memberOf i members j := by
        simp only [instanceOf, hform]
      rw [hinstance, memberOf]
      cases hfind : members.find? fun m => m.2.looseEq j with
      | none => exact absurd hsame (by simpa using List.find?_eq_none.1 hfind m hm)
      | some m => exact Draw.yields_lift rfl ⟨m, List.mem_of_find?_eq_some hfind, rfl⟩
  | none =>
      have hdistinct : Form.distinctMembers members ≠ [] := by
        obtain ⟨m, hm⟩ := List.exists_mem_of_ne_nil members hne
        obtain ⟨m', hm', -⟩ := Ty.exists_mem_distinct (f := fun a b => a.2.looseEq b.2) hm
        exact List.ne_nil_of_mem hm'
      exact ⟨_, rfl, Draw.yields_bind (Draw.yields_choice hdistinct) fun m hm =>
        Draw.yields_pure ⟨m, Ty.mem_of_mem_distinct hm, rfl⟩⟩

/-- Integers are drawn from their range. -/
theorem yields_int {low high : ℤ} (h : low ≤ high) :
    (Generator.int ⟨.int low, .int high⟩ : Draw σ Value).Yields fun v =>
      ∃ n : ℤ, v = .int n ∧ low ≤ n ∧ n ≤ high := by
  refine Draw.yields_bind (Draw.yields_bounded h) ?_
  rintro _ ⟨n, rfl, hn⟩
  exact Draw.yields_pure ⟨n, rfl, hn⟩

/-- A plain scalar has a generator of its values. -/
theorem yields_scalar {s : Scalar} (h : s ∈ [.null, .int, .bool, .float, .str]) :
    ∃ g : Draw σ Value, Generator.scalar? s = some g ∧ g.Yields (c.Writes (.scalar s)) := by
  simp only [List.mem_cons, List.not_mem_nil, or_false] at h
  obtain rfl | rfl | rfl | rfl | rfl := h
  · exact ⟨_, rfl, Draw.yields_pure writes_null⟩
  · refine ⟨_, rfl, (yields_int (by decide)).mono ?_⟩
    rintro _ ⟨n, rfl, -⟩
    exact writes_int n
  · exact ⟨_, rfl, Draw.yields_bind Draw.yields_thousandths fun _ _ =>
      Draw.yields_pure (writes_bool _)⟩
  · exact ⟨_, rfl, Draw.yields_bind (Draw.yields_uniform _ _) fun x _ =>
      Draw.yields_pure (writes_float x)⟩
  · exact ⟨_, rfl, Draw.yields_bind Draw.yields_text fun s _ => Draw.yields_pure (writes_str s)⟩

/-- A text is drawn. -/
theorem yields_textValue :
    (do return .text (← Draw.text) : Draw σ Value).Yields fun v => ∃ s, v = .text s :=
  Draw.yields_bind Draw.yields_text fun s _ => Draw.yields_pure ⟨s, rfl⟩

/-- A text can be a key, so entries that have texts for their keys are drawn without a fault. -/
theorem yields_entries {key value : Draw σ Value} {k : Keyed} {t u : Ty}
    (hkey : key.Yields fun v => ∃ s, v = .text s) (hvalue : value.Yields (c.Writes t)) :
    (entries c key value).Yields (c.Writes (.keyed k u t)) := by
  have hentry : (do
      let k ← key
      let v ← value
      k.checkKey c
      return (k, v) : Draw σ (Value × Value)).Yields fun e => c.Writes t e.2 := by
    refine Draw.yields_bind hkey ?_
    rintro _ ⟨s, rfl⟩
    refine Draw.yields_bind hvalue fun v hv => ?_
    exact Draw.yields_bind (P := fun _ => True) (Draw.yields_lift rfl trivial) fun _ _ =>
      Draw.yields_pure hv
  refine Draw.yields_bind (Draw.yields_upTo hentry mostItems) fun es hes => ?_
  obtain ⟨es', hdict, hes'⟩ := exists_dictOf hes
  rw [hdict]
  exact Draw.yields_pure (writes_keyed hes')

/-- A structural type has a generator, and what it draws can be encoded as a value of the
type. -/
theorem exists_generator {t : Ty} (ht : Ty.Structural c t) (whole : Option Ty) :
    ∃ g : Draw σ Value, c.generatorWithin [] whole t = .ok g ∧ g.Yields (c.Writes t) := by
  induction ht generalizing whole with
  | @scalar s h =>
      obtain ⟨g, hg, hyields⟩ := yields_scalar (σ := σ) (c := c) h
      refine ⟨g, ?_, hyields⟩
      simp only [generatorWithin, Table.find?_nil, hg, Option.elim]
  | @within low high h =>
      refine ⟨_, rfl, (yields_int h).mono ?_⟩
      rintro _ ⟨n, rfl, hlow, hhigh⟩
      exact writes_within hlow hhigh
  | literal hne h =>
      exact ⟨_, rfl, Draw.yields_bind (Draw.yields_choice hne) fun v hv =>
        Draw.yields_pure (writes_literal hv (h v hv))⟩
  | @enum i _ _ hform hne h hsamples =>
      obtain ⟨g, hg, hyields⟩ := exists_declaredGenerator (σ := σ) hform hne hsamples
      refine ⟨g, ?_, hyields.mono ?_⟩
      · simp only [generatorWithin, Table.find?_nil, hg, Option.elim]
      · rintro _ ⟨m, hm, rfl⟩
        exact writes_member hform hm (h m hm)
  | @each k t hk h ih =>
      obtain ⟨g, hg, hyields⟩ := ih (whole.or (some (.each k t)))
      refine ⟨Generator.each c k g, ?_, ?_⟩
      · simp only [generatorWithin, Table.find?_nil, hg]
        rfl
      · have hitems := Draw.yields_upTo hyields mostItems
        simp only [List.mem_cons, List.not_mem_nil, or_false] at hk
        obtain rfl | rfl | rfl := hk
        · exact Draw.yields_bind hitems fun vs hvs =>
            Draw.yields_pure (writes_list (.inl rfl) hvs)
        · exact Draw.yields_bind hitems fun vs hvs =>
            Draw.yields_pure (writes_list (.inr rfl) hvs)
        · exact Draw.yields_bind hitems fun vs hvs => Draw.yields_pure (writes_run hvs)
  | @tuple ts h ih =>
      obtain ⟨gs, hgs, hall⟩ := exists_generators fun t ht => ih t ht (whole.or (some (.tuple ts)))
      refine ⟨_, ?_, Draw.yields_bind (yields_row hall) fun vs hvs =>
        Draw.yields_pure (writes_tuple hvs.1 hvs.2)⟩
      simp only [generatorWithin, Table.find?_nil, hgs]
      rfl
  | @keyed k t h ih =>
      obtain ⟨g, hg, hyields⟩ := ih (whole.or (some (.keyed k (.scalar .str) t)))
      refine ⟨_, ?_, yields_entries yields_textValue hyields⟩
      simp only [generatorWithin, Table.find?_nil, hg]
      rfl
  | @union style ts hne h ih =>
      obtain ⟨gs, hgs, hall⟩ :=
        exists_generators fun t ht => ih t ht (whole.or (some (.union style ts)))
      refine ⟨Generator.oneOf gs, ?_, (yields_oneOf hne hall).mono ?_⟩
      · simp only [generatorWithin, Table.find?_nil, hgs]
        rfl
      · rintro v ⟨t, ht, hv⟩
        exact writes_union ht hv

end Generators

end Catalog
end ApiTree
