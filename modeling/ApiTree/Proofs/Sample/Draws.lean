import ApiTree.Proofs.Number.Value
import ApiTree.Sample.Source

/-!
# ApiTree.Proofs.Sample.Draws

What a draw gives.  A draw yields a property when from every state of the source it comes
to a value, and to one that has the property (`Draw.Yields`); the words of the source count
for nothing.  There is one lemma for each way to draw; those for integers say that the range
that is asked for is kept.
-/

namespace ApiTree

namespace Number

/-- The lower of two integers as numbers. -/
theorem lower_of_ints (a b : ℤ) :
    (if (Number.int a).below (.int b) then Number.int a else .int b) = .int (min a b) := by
  by_cases h : a < b
  · rw [if_pos ((below_int a b).2 h), min_eq_left h.le]
  · rw [if_neg (mt (below_int a b).1 h), min_eq_right (by omega)]

/-- The higher of two integers as numbers. -/
theorem higher_of_ints (a b : ℤ) :
    (if (Number.int a).below (.int b) then Number.int b else .int a) = .int (max a b) := by
  by_cases h : a < b
  · rw [if_pos ((below_int a b).2 h), max_eq_right h.le]
  · rw [if_neg (mt (below_int a b).1 h), max_eq_left (by omega)]

end Number

namespace Draw

/-- From every state of the source a draw comes to a value, and the value has a property. -/
def Yields {σ α : Type} (d : Draw σ α) (P : α → Prop) : Prop :=
  ∀ s, ∃ a s', d.run s = .ok (a, s') ∧ P a

section Yields

variable {σ α β : Type} {d : Draw σ α} {P : α → Prop} {Q : β → Prop}

theorem run_bind_of_ok {s s' : σ} {a : α} (h : d.run s = .ok (a, s')) (f : α → Draw σ β) :
    (d >>= f).run s = (f a).run s' := by
  rw [StateT.run_bind, h]
  rfl

theorem run_bind_of_error {s : σ} {e : Fault} (h : d.run s = .error e) (f : α → Draw σ β) :
    (d >>= f).run s = .error e := by
  rw [StateT.run_bind, h]
  rfl

theorem run_bind_ok {f : α → Draw σ β} {s s' : σ} {b : β} :
    (d >>= f).run s = .ok (b, s') ↔ ∃ a t, d.run s = .ok (a, t) ∧ (f a).run t = .ok (b, s') := by
  rw [StateT.run_bind]
  rcases d.run s with e | ⟨a, t⟩ <;> simp [bind, Except.bind]

theorem run_pure_ok {a b : α} {s s' : σ} :
    (pure a : Draw σ α).run s = .ok (b, s') ↔ a = b ∧ s = s' := by
  rw [StateT.run_pure]
  simp [pure, Except.pure]

theorem yields_pure {a : α} (h : P a) : Yields (pure a : Draw σ α) P := fun s => ⟨a, s, rfl, h⟩

/-- What is computed is drawn. -/
theorem yields_lift {x : Except Fault α} {a : α} (hx : x = .ok a) (h : P a) :
    Yields (liftM x : Draw σ α) P := by
  subst hx
  exact fun s => ⟨a, s, rfl, h⟩

/-- Two draws yield what the second yields for whatever the first does. -/
theorem yields_bind {f : α → Draw σ β} (hd : Yields d P) (hf : ∀ a, P a → Yields (f a) Q) :
    Yields (d >>= f) Q := by
  intro s
  obtain ⟨a, s₁, hrun, ha⟩ := hd s
  obtain ⟨b, s₂, hrun', hb⟩ := hf a ha s₁
  exact ⟨b, s₂, (run_bind_of_ok hrun f).trans hrun', hb⟩

theorem Yields.mono {P' : α → Prop} (h : Yields d P) (hP : ∀ a, P a → P' a) : Yields d P' := by
  intro s
  obtain ⟨a, s', hrun, ha⟩ := h s
  exact ⟨a, s', hrun, hP a ha⟩

/-- Many draws yield what each yields. -/
theorem yields_times (h : Yields d P) (n : ℕ) : Yields (times d n) fun xs => ∀ x ∈ xs, P x := by
  induction n with
  | zero => exact yields_pure (by simp)
  | succ n ih =>
      refine yields_bind h fun x hx => yields_bind ih fun xs hxs => yields_pure ?_
      simpa using ⟨hx, hxs⟩

end Yields

/-! ## one draw after the other -/

section Times

variable {σ α : Type} {d : Draw σ α} {s s₁ s' : σ} {x : α} {xs : List α} {n : Nat}

/-- One more draw is made before the others. -/
theorem run_times_succ_ok :
    (times d (n + 1)).run s = .ok (xs, s') ↔
      ∃ y t ys, d.run s = .ok (y, t) ∧ (times d n).run t = .ok (ys, s') ∧ xs = y :: ys := by
  rw [times, run_bind_ok]
  constructor
  · rintro ⟨y, t, hy, h⟩
    obtain ⟨ys, u, hys, h⟩ := run_bind_ok.1 h
    obtain ⟨rfl, rfl⟩ := run_pure_ok.1 h
    exact ⟨y, t, ys, hy, hys, rfl⟩
  · rintro ⟨y, t, ys, hy, hys, rfl⟩
    exact ⟨y, t, hy, run_bind_ok.2 ⟨ys, s', hys, run_pure_ok.2 ⟨rfl, rfl⟩⟩⟩

theorem run_times_zero_ok : (times d 0).run s = .ok (xs, s') ↔ xs = [] ∧ s' = s := by
  rw [times, run_pure_ok, eq_comm, eq_comm (a := s)]

/-- One more draw, from where some draws have left the source. -/
theorem run_times_append_singleton (hxs : (times d n).run s = .ok (xs, s₁))
    (hx : d.run s₁ = .ok (x, s')) : (times d (n + 1)).run s = .ok (xs ++ [x], s') := by
  induction n generalizing s xs with
  | zero =>
      obtain ⟨rfl, rfl⟩ := run_times_zero_ok.1 hxs
      exact run_times_succ_ok.2 ⟨x, s', [], hx, run_times_zero_ok.2 ⟨rfl, rfl⟩, rfl⟩
  | succ n ih =>
      obtain ⟨y, t, ys, hy, hys, rfl⟩ := run_times_succ_ok.1 hxs
      exact run_times_succ_ok.2 ⟨y, t, ys ++ [x], hy, ih hys, rfl⟩

/-- Fewer draws give the first of what more draws give. -/
theorem run_times_take {k : Nat} (h : (times d n).run s = .ok (xs, s')) (hk : k ≤ n) :
    ∃ t, (times d k).run s = .ok (xs.take k, t) := by
  induction k generalizing s xs n with
  | zero => exact ⟨s, run_times_zero_ok.2 ⟨List.take_zero, rfl⟩⟩
  | succ k ih =>
      obtain ⟨n, rfl⟩ := Nat.exists_eq_add_of_le' (Nat.zero_lt_of_lt hk)
      obtain ⟨y, t, ys, hy, hys, rfl⟩ := run_times_succ_ok.1 h
      obtain ⟨u, hu⟩ := ih hys (Nat.le_of_succ_le_succ hk)
      exact ⟨u, run_times_succ_ok.2 ⟨y, t, ys.take k, hy, hu, rfl⟩⟩

end Times

section Source

variable {σ : Type} [RandomSource σ] {α : Type}

theorem yields_word : Yields (word : Draw σ Nat) fun _ => True := fun _ => ⟨_, _, rfl, trivial⟩

theorem yields_thousandths : Yields (thousandths : Draw σ Nat) fun _ => True :=
  yields_bind yields_word fun _ _ => yields_pure trivial

/-- An integer drawn from a range keeps it. -/
theorem yields_between {low high : ℤ} (h : low ≤ high) :
    Yields (between low high : Draw σ ℤ) fun n => low ≤ n ∧ n ≤ high := by
  have hnot : ¬ high < low := by omega
  have hpos : 0 < high - low + 1 := by omega
  rw [between, if_neg hnot]
  refine yields_bind yields_word fun upper _ => yields_bind yields_word fun lower _ =>
    yields_pure ?_
  have hnonneg := Int.emod_nonneg ((upper * powerOf 2 53 + lower : ℕ) : ℤ) hpos.ne'
  have hlt := Int.emod_lt_of_pos ((upper * powerOf 2 53 + lower : ℕ) : ℤ) hpos
  omega

/-- One of the given elements is drawn if there are any. -/
theorem yields_choice {xs : List α} (h : xs ≠ []) : Yields (choice xs : Draw σ α) (· ∈ xs) := by
  refine yields_bind yields_word fun k _ => ?_
  have hlt : k % xs.length < xs.length := Nat.mod_lt _ (List.length_pos_iff.2 h)
  rw [List.getElem?_eq_getElem hlt]
  exact yields_pure (List.getElem_mem hlt)

/-- A number drawn above an integer, up to another, is an integer between the two. -/
theorem yields_above {low high : ℤ} (h : low ≤ high) :
    Yields (above (.int low) (.int high) : Draw σ Number) fun x =>
      ∃ n : ℤ, x = .int n ∧ low ≤ n ∧ n ≤ high := by
  have hnot : ¬ (Number.int high).below (.int low) = true := by
    rw [Number.below_int]
    omega
  have hpos : 0 < high - low + 1 := by omega
  rw [above, if_neg hnot]
  refine yields_bind yields_word fun upper _ => yields_bind yields_word fun lower _ =>
    yields_pure ⟨low + ((upper * powerOf 2 53 + lower : ℕ) : ℤ).fmod (high - low + 1), rfl, ?_⟩
  have hnonneg := Int.fmod_nonneg_of_pos ((upper * powerOf 2 53 + lower : ℕ) : ℤ) hpos
  have hlt := Int.fmod_lt_of_pos ((upper * powerOf 2 53 + lower : ℕ) : ℤ) hpos
  omega

/-- A number drawn between two integers is an integer between them, often one of the two. -/
theorem yields_bounded {low high : ℤ} (h : low ≤ high) :
    Yields (bounded (.int low) (.int high) : Draw σ Number) fun x =>
      ∃ n : ℤ, x = .int n ∧ low ≤ n ∧ n ≤ high := by
  refine yields_bind yields_thousandths fun k _ => ?_
  split
  · exact yields_pure ⟨low, rfl, le_refl low, h⟩
  split
  · exact yields_pure ⟨high, rfl, h, le_refl high⟩
  split
  · refine yields_bind (yields_between (by omega)) fun n _ => yields_pure ?_
    -- the small number is brought into the range
    rw [Number.lower_of_ints, Number.higher_of_ints]
    exact ⟨max low (min n high), rfl, by omega⟩
  · exact yields_above h

/-- Whatever part of the way the source gives, a double comes of it. -/
theorem yields_uniform (low high : Double) :
    Yields (uniform low high : Draw σ Double) fun _ => True :=
  yields_bind (fun _ => ⟨_, _, rfl, trivial⟩ : Yields part fun _ => True) fun _ _ =>
    yields_pure trivial

/-- A number of draws yields what each yields. -/
theorem yields_upTo {d : Draw σ α} {P : α → Prop} (h : Yields d P) (most : ℕ) :
    Yields (upTo most d) fun xs => ∀ x ∈ xs, P x :=
  yields_bind (yields_between (by omega)) fun n _ => yields_times h n.toNat

theorem yields_text : Yields (text : Draw σ String) fun _ => True :=
  yields_bind (yields_upTo (yields_choice (by decide)) 12) fun _ _ => yields_pure trivial

end Source

end Draw
end ApiTree
