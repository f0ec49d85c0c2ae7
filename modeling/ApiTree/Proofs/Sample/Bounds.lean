import ApiTree.Proofs.Sample.Encoded
import ApiTree.Proofs.Shape.Bounds

/-!
# ApiTree.Proofs.Sample.Bounds

Whether the integers that are drawn for a type with bounds keep its schema.  Draws go by one low
and one high end, and of the bounds on a side the last counts; the schema has the last bound of
each kind.  So the two can differ, where a side has bounds of both kinds, or has none while the
other side is beyond the usual ends.

* `Catalog.bounded_draws` — draws keep the schema exactly if the two ends keep it, and they do
  where no side has bounds of both kinds and no bound is beyond the usual ends, if any integer
  keeps the schema.
-/

namespace ApiTree

/-- The ends of a span and the bounds after the same notes: each end is a bound of its side, or
the usual one where the side has no bound. -/
structure Span.Follows (r : Span) (b : Bounds) : Prop where
  low : (b.ge = none ∧ b.gt = none ∧ r.low = Span.widest.low) ∨
    ∃ k : ℤ, r.low = .int k ∧ (b.ge = some (.int k) ∨ b.gt = some (.int (k - 1)))
  high : (b.le = none ∧ b.lt = none ∧ r.high = Span.widest.high) ∨
    ∃ k : ℤ, r.high = .int k ∧ (b.le = some (.int k) ∨ b.lt = some (.int (k + 1)))

namespace Span

variable {r : Span} {b : Bounds}

/-- The widest span follows no bounds. -/
theorem follows_widest : widest.Follows {} := ⟨.inl ⟨rfl, rfl, rfl⟩, .inl ⟨rfl, rfl, rfl⟩⟩

/-- A constraint keeps the span following its bounds. -/
theorem Follows.limit (h : r.Follows b) {l : Limit} (hl : l.IsBound) :
    (r.limit l).Follows ((b.with? l).getD b) := by
  cases l with
  | gt n =>
      obtain ⟨k, rfl⟩ := hl
      exact ⟨.inr ⟨k + 1, rfl, .inr (by simp [Bounds.with?])⟩, h.high⟩
  | ge n =>
      obtain ⟨k, rfl⟩ := hl
      exact ⟨.inr ⟨k, rfl, .inl rfl⟩, h.high⟩
  | lt n =>
      obtain ⟨k, rfl⟩ := hl
      exact ⟨h.low, .inr ⟨k + -1, rfl, .inr (by simp [Bounds.with?])⟩⟩
  | le n =>
      obtain ⟨k, rfl⟩ := hl
      exact ⟨h.low, .inr ⟨k, rfl, .inl rfl⟩⟩
  | _ => exact hl.elim

/-- Constraints keep the span following their bounds. -/
theorem Follows.limitAll (h : r.Follows b) {ls : List Limit} (hls : ∀ l ∈ ls, l.IsBound) :
    (ls.foldl Span.limit r).Follows (b.withAll ls) := by
  induction ls generalizing r b with
  | nil => exact h
  | cons l ls ih =>
      exact ih (h.limit (hls l List.mem_cons_self)) fun m hm => hls m (List.mem_cons_of_mem _ hm)

/-- Bounds of different kinds may come in any order. -/
theorem withAll_interval (b : Bounds) (gt ge lt le : Option Number) :
    b.withAll (Note.interval gt ge lt le).limits =
      b.withAll ((ge.map Limit.ge).toList ++ (gt.map Limit.gt).toList ++
        (le.map Limit.le).toList ++ (lt.map Limit.lt).toList) := by
  cases gt <;> cases ge <;> cases lt <;> cases le <;> rfl

/-- A note keeps the span following its bounds. -/
theorem Follows.note (h : r.Follows b) {n : Note} (hn : n.GivesBounds) :
    (r.note n).Follows (b.withAll n.limits) := by
  cases n with
  | interval gt ge lt le =>
      rw [withAll_interval]
      refine h.limitAll fun l hl => hn.bounds l ?_
      simp only [Note.limits, List.mem_append] at hl ⊢
      tauto
  | text s => exact h.limitAll hn.bounds
  | limit l => exact h.limitAll hn.bounds
  | field spec => exact h.limitAll hn.bounds

/-- The span of notes follows the bounds of the notes. -/
theorem follows_ofNotes {notes : List Note} (hnotes : ∀ n ∈ notes, n.GivesBounds) :
    (ofNotes notes).Follows (.ofNotes notes) := by
  suffices hfold : ∀ (r : Span) (b : Bounds), r.Follows b →
      (notes.foldl Span.note r).Follows (b.withAll (notes.flatMap Note.limits)) from
    hfold _ _ follows_widest
  induction notes with
  | nil => exact fun r b h => h
  | cons n notes ih =>
      intro r b h
      rw [List.flatMap_cons, Bounds.withAll, List.foldl_append]
      exact ih (fun m hm => hnotes m (List.mem_cons_of_mem _ hm)) _ _
        (h.note (hnotes n List.mem_cons_self))

/-- The ends of a span that follows bounds are integers. -/
theorem Follows.exists_ends (h : r.Follows b) : ∃ low high : ℤ, r = ⟨.int low, .int high⟩ := by
  obtain ⟨low, hlow⟩ : ∃ k : ℤ, r.low = .int k := by
    rcases h.low with ⟨-, -, hlow⟩ | ⟨k, hlow, -⟩
    · exact ⟨_, hlow⟩
    · exact ⟨k, hlow⟩
  obtain ⟨high, hhigh⟩ : ∃ k : ℤ, r.high = .int k := by
    rcases h.high with ⟨-, -, hhigh⟩ | ⟨k, hhigh, -⟩
    · exact ⟨_, hhigh⟩
    · exact ⟨k, hhigh⟩
  exact ⟨low, high, by rw [← hlow, ← hhigh]⟩

variable {low high : ℤ}

/-- Ends that keep the bounds are in order. -/
theorem Follows.low_le_high (h : (Span.mk (.int low) (.int high)).Follows b)
    (hlow : b.Admits low) (hhigh : b.Admits high) : low ≤ high := by
  rcases h.high with ⟨-, -, htop⟩ | ⟨k, hk, hle | hlt⟩
  · obtain rfl : high = powerOf 2 64 := Number.int.inj htop
    rcases h.low with ⟨-, -, hbottom⟩ | ⟨k, hk, hge | hgt⟩
    · obtain rfl : low = -powerOf 2 64 := Number.int.inj hbottom
      decide
    · obtain rfl := Number.int.inj hk
      exact hhigh.ge _ hge
    · obtain rfl := Number.int.inj hk
      exact Int.sub_one_lt_iff.1 (hhigh.gt _ hgt)
  · obtain rfl := Number.int.inj hk
    exact hlow.le _ hle
  · obtain rfl := Number.int.inj hk
    exact Int.le_of_lt_add_one (hlow.lt _ hlt)


/-- The low end is below every integer that keeps the bounds, unless it is the usual one. -/
theorem Follows.low_le (h : (Span.mk (.int low) (.int high)).Follows b) {n : ℤ}
    (hn : b.Admits n) : low ≤ n ∨ low = -powerOf 2 64 := by
  rcases h.low with ⟨-, -, hbottom⟩ | ⟨k, hk, hge | hgt⟩
  · exact .inr (Number.int.inj hbottom)
  · exact .inl (Number.int.inj hk ▸ hn.ge _ hge)
  · exact .inl (Number.int.inj hk ▸ Int.sub_one_lt_iff.1 (hn.gt _ hgt))

/-- A number within the bounds is below the end of the span, unless that is as far as it goes. -/
theorem Follows.le_high (h : (Span.mk (.int low) (.int high)).Follows b) {n : ℤ}
    (hn : b.Admits n) : n ≤ high ∨ high = powerOf 2 64 := by
  rcases h.high with ⟨-, -, htop⟩ | ⟨k, hk, hle | hlt⟩
  · exact .inr (Number.int.inj htop)
  · exact .inl (Number.int.inj hk ▸ hn.le _ hle)
  · exact .inl (Number.int.inj hk ▸ Int.le_of_lt_add_one (hn.lt _ hlt))

/-- The low end keeps the bounds of its side, if they are of one kind. -/
theorem Follows.keeps_low (h : (Span.mk (.int low) (.int high)).Follows b)
    (hkind : b.ge = none ∨ b.gt = none) :
    (∀ k, b.ge = some (.int k) → k ≤ low) ∧ ∀ k, b.gt = some (.int k) → k < low := by
  rcases h.low with ⟨hge, hgt, -⟩ | ⟨k, hk, hge | hgt⟩
  · simp [hge, hgt]
  · obtain rfl := Number.int.inj hk
    have hgt := hkind.resolve_left (by simp [hge])
    simp [hge, hgt]
  · obtain rfl := Number.int.inj hk
    have hge := hkind.resolve_right (by simp [hgt])
    simp [hge, hgt]

/-- Where upper bounds are of one kind, the span keeps below them. -/
theorem Follows.keeps_high (h : (Span.mk (.int low) (.int high)).Follows b)
    (hkind : b.le = none ∨ b.lt = none) :
    (∀ k, b.le = some (.int k) → high ≤ k) ∧ ∀ k, b.lt = some (.int k) → high < k := by
  rcases h.high with ⟨hle, hlt, -⟩ | ⟨k, hk, hle | hlt⟩
  · simp [hle, hlt]
  · obtain rfl := Number.int.inj hk
    have hlt := hkind.resolve_left (by simp [hle])
    simp [hle, hlt]
  · obtain rfl := Number.int.inj hk
    have hle := hkind.resolve_right (by simp [hlt])
    simp [hle, hlt]

end Span

namespace Schema

/-- No side of a schema has bounds of both kinds, and no bound is beyond the usual ends of
draws. -/
structure PlainlyBounded (s : Schema) : Prop where
  below : Table.find? s "minimum" = none ∨ Table.find? s "exclusiveMinimum" = none
  above : Table.find? s "maximum" = none ∨ Table.find? s "exclusiveMaximum" = none
  near : ∀ k ∈ boundKeywords, ∀ n : ℤ, HasNumber s k (.int n) →
    -powerOf 2 64 < n ∧ n < powerOf 2 64

/-- The ends of draws keep a schema that is plainly bounded, if any integer keeps it. -/
theorem PlainlyBounded.admits_ends {s : Schema} {b : Bounds} {low high n : ℤ}
    (h : s.PlainlyBounded) (hs : s.Writes b) (hn : b.Admits n)
    (hr : (Span.mk (.int low) (.int high)).Follows b) : b.Admits low ∧ b.Admits high := by
  obtain ⟨hmin, hmin', hmax, hmax', -⟩ := hs.find?_eq
  have hbelow : b.ge = none ∨ b.gt = none := by simpa [hmin, hmin'] using h.below
  have habove : b.le = none ∨ b.lt = none := by simpa [hmax, hmax'] using h.above
  have hlow := hr.low_le hn
  have hhigh := hr.le_high hn
  refine ⟨⟨(hr.keeps_low hbelow).2, (hr.keeps_low hbelow).1, fun k hk => ?_, fun k hk => ?_⟩,
    ⟨fun k hk => ?_, fun k hk => ?_, (hr.keeps_high habove).2, (hr.keeps_high habove).1⟩⟩
  · have hnear := h.near "exclusiveMaximum" (by decide) k ((hs.hasNumber _).2.2.2.1.2 hk)
    have hkeeps := hn.lt k hk
    omega
  · have hnear := h.near "maximum" (by decide) k ((hs.hasNumber _).2.2.1.2 hk)
    have hkeeps := hn.le k hk
    omega
  · have hnear := h.near "exclusiveMinimum" (by decide) k ((hs.hasNumber _).2.1.2 hk)
    have hkeeps := hn.gt k hk
    omega
  · have hnear := h.near "minimum" (by decide) k ((hs.hasNumber _).1.2 hk)
    have hkeeps := hn.ge k hk
    omega

end Schema

namespace Draw

/-- Of a thousand first words a hundred give the low end, and as many the high end. -/
theorem run_bounded_ends {σ : Type} [RandomSource σ] {s s' : σ} {k : Nat} {low high : Number}
    (h : (thousandths : Draw σ Nat).run s = .ok (k, s')) :
    (k < 100 → (bounded low high).run s = .ok (low, s')) ∧
      (100 ≤ k → k < 200 → (bounded low high).run s = .ok (high, s')) := by
  rw [bounded, run_bind_of_ok h]
  constructor
  · intro hk
    rw [if_pos hk]
    rfl
  · intro hk hk'
    rw [if_neg (Nat.not_lt.2 hk), if_pos hk']
    rfl

end Draw

namespace Catalog

/-- What is drawn for a type are integers that a schema admits: the type has a generator, and
from every state of every source it comes to such an integer. -/
def DrawsWithin (c : Catalog) (t : Ty) (s : Schema) : Prop :=
  ∀ (σ : Type) [RandomSource σ], ∃ g : Draw σ Value, c.generator [] t = .ok g ∧
    g.Yields fun v => ∃ n : ℤ, v = .int n ∧ s.AdmitsNumber (.int n)

variable {c : Catalog} {notes : List Note} {s : Schema} {low high : ℤ}

/-- Integers with notes are drawn from the span of the notes. -/
theorem generator_of_bounds {σ : Type} [RandomSource σ]
    (hspan : Span.ofNotes notes = ⟨.int low, .int high⟩) :
    c.generator ([] : Generators σ) (.annotated (.scalar .int) notes) =
      .ok (Generator.int ⟨.int low, .int high⟩) := by
  rw [← hspan]
  rfl

/-- Both ends are drawn from some state of a source. -/
theorem DrawsWithin.admits_ends (h : c.DrawsWithin (.annotated (.scalar .int) notes) s)
    (hspan : Span.ofNotes notes = ⟨.int low, .int high⟩) :
    s.AdmitsNumber (.int low) ∧ s.AdmitsNumber (.int high) := by
  obtain ⟨g, hg, hyields⟩ := h Congruential
  obtain rfl := Except.ok.inj ((generator_of_bounds hspan).symm.trans hg)
  have hdrawn (start end' : Congruential) (k : ℤ)
      (hrun : (Draw.bounded (.int low) (.int high)).run start = .ok (.int k, end')) :
      s.AdmitsNumber (.int k) := by
    obtain ⟨v, s', hv, n, rfl, hn⟩ := hyields start
    have hint : (Generator.int ⟨.int low, .int high⟩ : Draw Congruential Value).run start =
        .ok (.int k, end') := by
      rw [Generator.int, Draw.run_bind_of_ok hrun]
      rfl
    obtain ⟨hvalue, -⟩ := Prod.mk.inj (Except.ok.inj (hint.symm.trans hv))
    obtain rfl : k = n := by simpa using hvalue
    exact hn
  have hlow : (Draw.thousandths : Draw Congruential Nat).run ⟨0, 0⟩ =
      .ok (64, (Congruential.next ⟨0, 0⟩).2) := rfl
  have hhigh : (Draw.thousandths : Draw Congruential Nat).run ⟨11, 0⟩ =
      .ok (199, (Congruential.next ⟨11, 0⟩).2) := rfl
  exact ⟨hdrawn _ _ low ((Draw.run_bounded_ends hlow).1 (by omega)),
    hdrawn _ _ high ((Draw.run_bounded_ends hhigh).2 (by omega) (by omega))⟩

/-- An integer type with bounds has a schema.  What is drawn for it are integers that keep the
schema exactly if the two ends of the span that is drawn from keep it.  They do where the schema
is plainly bounded and some integer keeps it. -/
theorem bounded_draws (c : Catalog) (notes : List Note) (hnotes : ∀ n ∈ notes, n.GivesBounds) :
    ∃ d low high, c.derive (.annotated (.scalar .int) notes) = .ok d ∧
      Span.ofNotes notes = ⟨.int low, .int high⟩ ∧
      (c.DrawsWithin (.annotated (.scalar .int) notes) d.schema ↔
        d.schema.AdmitsNumber (.int low) ∧ d.schema.AdmitsNumber (.int high)) ∧
      ((∃ n : ℤ, d.schema.AdmitsNumber (.int n)) → d.schema.PlainlyBounded →
        c.DrawsWithin (.annotated (.scalar .int) notes) d.schema) := by
  obtain ⟨d, hd, hwrites⟩ := c.exists_derived_bounds hnotes
  have hadmits (n : ℤ) := hwrites.admitsNumber_iff (Bounds.whole_ofNotes hnotes) n
  have hfollows := Span.follows_ofNotes hnotes
  obtain ⟨low, high, hspan⟩ := hfollows.exists_ends
  rw [hspan] at hfollows
  have hdraws : d.schema.AdmitsNumber (.int low) ∧ d.schema.AdmitsNumber (.int high) →
      c.DrawsWithin (.annotated (.scalar .int) notes) d.schema := by
    rintro ⟨hlow, hhigh⟩ σ _
    rw [hadmits] at hlow hhigh
    refine ⟨_, generator_of_bounds hspan, (yields_int (hfollows.low_le_high hlow hhigh)).mono ?_⟩
    rintro _ ⟨n, rfl, hn⟩
    exact ⟨n, rfl, (hadmits n).2 (hlow.between hhigh hn)⟩
  refine ⟨d, low, high, hd, hspan, ⟨fun h => h.admits_ends hspan, hdraws⟩, ?_⟩
  rintro ⟨n, hn⟩ hplain
  simp only [hadmits] at hn hdraws
  exact hdraws (hplain.admits_ends hwrites hn hfollows)

/-- From 5 on, and above 3. -/
def fromFive : List Note := [.limit (.ge (.int 5)), .limit (.gt (.int 3))]

/-- Of 64 bits, and then from 0 on. -/
def natural : List Note :=
  [.limit (.ge (.int (-powerOf 2 63))), .limit (.le (.int (powerOf 2 63 - 1))),
    .field { limits := [.ge (.int 0)] }]

/-- The notes of the examples give bounds. -/
theorem givesBounds_examples : ∀ n ∈ fromFive ++ natural, n.GivesBounds := by
  intro n hn
  simp only [fromFive, natural, List.cons_append, List.nil_append, List.mem_cons, List.not_mem_nil,
    or_false] at hn
  obtain rfl | rfl | rfl | rfl | rfl := hn <;>
    exact ⟨by simp [Note.limits, Limit.IsBound], by simp⟩

/-- Some integer keeps the schema of the integers from 5 on and above 3, but draws begin at 4.
Natural numbers of 64 bits are drawn within their schema. -/
theorem bounded_draws_stacked :
    (∃ d, derive [] (.annotated (.scalar .int) fromFive) = .ok d ∧
      (∃ n : ℤ, d.schema.AdmitsNumber (.int n)) ∧
        ¬ DrawsWithin [] (.annotated (.scalar .int) fromFive) d.schema) ∧
    ∃ d, derive [] (.annotated (.scalar .int) natural) = .ok d ∧
      DrawsWithin [] (.annotated (.scalar .int) natural) d.schema := by
  constructor
  · obtain ⟨d, low, high, hd, hspan, hiff, -⟩ := bounded_draws [] fromFive fun n hn =>
      givesBounds_examples n (List.mem_append_left _ hn)
    obtain rfl : (Derived.mk [("type", .str "integer"), ("minimum", .int 5),
      ("exclusiveMinimum", .int 3)] []) = d := Except.ok.inj hd
    obtain rfl : 4 = low := Number.int.inj (congrArg Span.low hspan)
    refine ⟨_, hd, ⟨5, ?_⟩, fun hdraws => ?_⟩
    · constructor <;> simp [Schema.HasNumber, Schema.Flags, Table.find?_cons, Json.number?,
        Number.int_lt_iff, Number.int_le_iff]
    · have hminimum := (hiff.1 hdraws).1.minimum (.int 5) rfl
        (by simp [Schema.Flags, Table.find?_cons])
      exact hminimum ((Number.int_lt_iff 4 5).2 (by decide))
  · obtain ⟨d, low, high, hd, -, -, hplain⟩ := bounded_draws [] natural fun n hn =>
      givesBounds_examples n (List.mem_append_right _ hn)
    obtain rfl : (Derived.mk [("type", .str "integer"), ("maximum", .int (powerOf 2 63 - 1)),
      ("minimum", .int 0)] []) = d := Except.ok.inj hd
    refine ⟨_, hd, hplain ⟨0, ?_⟩ ⟨.inr rfl, .inr rfl, ?_⟩⟩
    · constructor <;> simp [Schema.HasNumber, Schema.Flags, Table.find?_cons, Json.number?,
        Number.int_lt_iff, powerOf]
    · intro k hk n
      simp only [Schema.boundKeywords, List.mem_cons, List.not_mem_nil, or_false] at hk
      obtain rfl | rfl | rfl | rfl | rfl := hk <;>
        simp [Schema.HasNumber, Table.find?_cons, Json.number?, powerOf] <;> omega

end Catalog

end ApiTree
