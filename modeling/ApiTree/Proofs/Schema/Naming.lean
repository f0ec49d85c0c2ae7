import ApiTree.Proofs.Json.Equality
import ApiTree.Proofs.Schema.Reference
import ApiTree.Proofs.Ty.Structural
import ApiTree.Schema.Derivation
import Mathlib.Data.List.TakeWhile

/-!
# ApiTree.Proofs.Schema.Naming

The names of definitions.  Schemas are computed under working names, and a working name tells
its use (`Use.ofName?_name`).  Then each use gets one of its candidates: the first that stands
for one schema only, else the last one, which no other use has
(`Catalog.eq_of_lastCandidate_eq`).  So uses with one name have schemas that are equal by value
(`Catalog.looseEq_of_naming_eq`).
-/

namespace ApiTree

/-! ## working names -/

namespace Numeral

/-- A decimal digit has its value. -/
theorem hexValue?_of_isDigit {c : Char} (h : c.isDigit = true) :
    hexValue? c = some (c.toNat - 48) := by
  rw [hexValue?, if_pos]
  simpa [Char.isDigit, UInt32.le_iff_toNat_le, Char.le_def] using h

/-- A number is the one that its digits write. -/
theorem ofDigits_toDigits (n : Nat) : ofDigits 10 (Nat.toDigits 10 n) = n := by
  have hdigit {c : Char} (hc : c ∈ Nat.toDigits 10 n) : c.isDigit = true :=
    Nat.isDigit_of_mem_toDigits (by decide) (by decide) hc
  refine Eq.trans ?_ (Nat.ofDigitChars_ten_toDigits (n := n))
  rw [Nat.ofDigitChars_eq_foldl, ofDigits]
  refine List.foldl_ext _ _ _ fun m c hc => ?_
  rw [hexValue?_of_isDigit (hdigit hc), Nat.mul_comm]
  rfl

end Numeral

/-- The use that a working name stands for, where its number ends with the mark. -/
theorem Use.ofName?_name_of {u : Use} (h : u.mark.toList.takeWhile Char.isDigit = []) :
    Use.ofName? u.name = some u := by
  have hchars : u.name.toList =
      Use.firstOfName :: (Nat.toDigits 10 u.index ++ u.mark.toList) := by
    simp [Use.name]
  have hdigits : (Nat.toDigits 10 u.index ++ u.mark.toList).takeWhile Char.isDigit =
      Nat.toDigits 10 u.index := by
    rw [List.takeWhile_append_of_pos fun c hc =>
      Nat.isDigit_of_mem_toDigits (by decide) (by decide) hc, h, List.append_nil]
  rw [Use.ofName?, hchars]
  simp [hdigits, Nat.toDigits_ne_nil, Numeral.ofDigits_toDigits]

/-- A working name is read back. -/
theorem Use.ofName?_name (i : Nat) : Use.ofName? (Use.name { index := i }) = some { index := i } :=
  Use.ofName?_name_of rfl

/-! ## renaming -/

namespace Reference

variable {name : String → Option String}

/-- What stands under a name with references renamed. -/
def renamedUnder (name : String → Option String) (p : Place) (k : String) : Json → Json
  | .str s => .str (if p.refers k then renamedText name s else s)
  | v => renamed name (p.under k) v

/-- Members are renamed one by one. -/
theorem renamedMembers_eq (p : Place) (ms : List (String × Json)) :
    renamedMembers name p ms = Table.mapValues (renamedUnder name p) ms := by
  induction ms with
  | nil => rfl
  | cons m ms ih =>
      obtain ⟨k, v⟩ := m
      cases v <;> simp only [renamedMembers, ih] <;> rfl

/-- Items are renamed one by one. -/
theorem renamedItems_eq (xs : List Json) :
    renamedItems name xs = xs.map (renamed name .schema) := by
  induction xs with
  | nil => rfl
  | cons x xs ih => rw [renamedItems, ih, List.map_cons]

/-- Fixed values are not renamed. -/
theorem renamedItems_of_literal {vs : List Json} (h : ∀ v ∈ vs, v.isLiteral = true) :
    renamedItems name vs = vs := by
  rw [renamedItems_eq]
  refine (List.map_congr_left fun v hv => ?_).trans (List.map_id vs)
  have hliteral := h v hv
  cases v with
  | str s => rfl
  | int n => rfl
  | bool b => rfl
  | _ => simp [Json.isLiteral] at hliteral

/-- A choice is renamed alternative by alternative. -/
theorem renamed_anyOf (xs : List Json) : renamed name .schema (.obj [("anyOf", .arr xs)]) =
    .obj [("anyOf", .arr (xs.map (renamed name .schema)))] := by
  rw [← renamedItems_eq]
  rfl

/-- Admitting null is not renamed. -/
theorem renamed_append_nullable (s : Schema) :
    renamed name .schema (.obj (s ++ [("nullable", .bool true)])) =
      .obj (renamedMembers name .schema s ++ [("nullable", .bool true)]) := by
  rw [renamed, renamedMembers_eq, renamedMembers_eq, Table.mapValues, List.map_append]
  rfl

end Reference

/-! ## candidates -/

namespace Catalog

variable {c : Catalog}

/-- The full name of a use. -/
def longName (c : Catalog) (u : Use) : String := fitting (String.join (c.nameParts u))

/-- The uses with the same full name that are named before. -/
def namedBefore (c : Catalog) (order : List Use) (u : Use) : List Use :=
  (order.takeWhile (· != u)).filter fun v => c.longName v == c.longName u

/-- The full name of a use with its number. -/
def lastCandidate (c : Catalog) (order : List Use) (u : Use) : String :=
  c.longName u ++ "__" ++ toString ((c.namedBefore order u).length + 1)

/-- The last candidate is the one that is always free. -/
theorem getLast?_candidates (order : List Use) (u : Use) :
    (c.candidates order u).getLast? = some (c.lastCandidate order u) := rfl

theorem candidates_ne_nil (order : List Use) (u : Use) : c.candidates order u ≠ [] :=
  List.cons_ne_nil _ _

/-- Of two items with one key, one is counted before the other. -/
theorem eq_of_count {α : Type} [DecidableEq α] {key : α → String} {xs : List α} {a b : α}
    (ha : a ∈ xs) (hb : b ∈ xs) (hkey : key a = key b)
    (h : ((xs.takeWhile (· != a)).filter fun x => key x == key a).length =
      ((xs.takeWhile (· != b)).filter fun x => key x == key b).length) : a = b := by
  induction xs with
  | nil => simp at ha
  | cons x xs ih =>
      by_cases hxa : x = a
      · subst hxa
        by_contra hne
        simp [hne, hkey] at h
      · by_cases hxb : x = b
        · subst hxb
          simp [hxa, hkey] at h
        · refine ih ?_ ?_ ?_
          · exact (List.mem_cons.1 ha).resolve_left fun heq => hxa heq.symm
          · exact (List.mem_cons.1 hb).resolve_left fun heq => hxb heq.symm
          · rw [hkey] at h ⊢
            by_cases hx : key x = key b <;>
              simpa [List.takeWhile_cons, List.filter_cons, hxa, hxb, hx] using h

/-- A number at the end of a name ends where the digits end. -/
theorem eq_of_append_number {a b : String} {m n : Nat}
    (h : a ++ "__" ++ toString m = b ++ "__" ++ toString n) : a = b ∧ m = n := by
  have hnumber (s : String) (k : Nat) :
      ((s ++ "__" ++ toString k).toList.reverse.takeWhile Char.isDigit) =
        (Nat.toDigits 10 k).reverse := by
    have hdigits : ∀ d ∈ (Nat.toDigits 10 k).reverse, Char.isDigit d = true := fun d hd =>
      Nat.isDigit_of_mem_toDigits (by decide) (by decide) (List.mem_reverse.1 hd)
    rw [Nat.toString_eq_ofList_toDigits, String.toList_append, String.toList_append,
      List.reverse_append, List.reverse_append, String.toList_ofList,
      List.takeWhile_append_of_pos hdigits]
    simp
  have hdigits : Nat.toDigits 10 m = Nat.toDigits 10 n := by
    rw [← List.reverse_inj, ← hnumber a m, ← hnumber b n, h]
  obtain rfl : m = n := by
    rw [← Numeral.ofDigits_toDigits m, ← Numeral.ofDigits_toDigits n, hdigits]
  refine ⟨?_, rfl⟩
  have hchars := congrArg String.toList h
  simp only [String.toList_append, List.append_cancel_right_eq] at hchars
  exact String.toList_injective hchars

/-- The last candidate of a use is that of no other use. -/
theorem eq_of_lastCandidate_eq {order : List Use} {u v : Use} (hu : u ∈ order) (hv : v ∈ order)
    (h : c.lastCandidate order u = c.lastCandidate order v) : u = v := by
  obtain ⟨hlong, hcount⟩ := eq_of_append_number h
  exact eq_of_count hu hv hlong (Nat.succ_injective hcount)

/-! ## chosen names -/

/-- Whether all other uses that may have a name have a schema that is equal by value. -/
def isClear (entries : List (Use × List String × Json)) (u : Use) (s : Json) (n : String) : Bool :=
  entries.all fun (v, names, s') => v == u || !names.contains n || s.looseEq s'

/-- The name that a use gets. -/
def chosen (entries : List (Use × List String × Json)) (u : Use) (e : List String × Json) :
    String :=
  (e.1.find? (isClear entries u e.2)).getD (e.1.getLastD u.name)

/-- Each use gets its name from its own candidates. -/
theorem naming_eq (entries : List (Use × List String × Json)) :
    naming entries = Table.mapValues (chosen entries) entries := rfl

/-- A name that is not clear is the last one. -/
theorem chosen_cases (entries : List (Use × List String × Json)) (u : Use) (s : Json)
    {names : List String} (hne : names ≠ []) : chosen entries u (names, s) ∈ names ∧
      (isClear entries u s (chosen entries u (names, s)) = true ∨
        names.getLast? = some (chosen entries u (names, s))) := by
  rw [chosen]
  cases hfound : names.find? (isClear entries u s) with
  | some n => exact ⟨List.mem_of_find?_eq_some hfound, .inl (List.find?_some hfound)⟩
  | none =>
      have hlast : names.getLast? = some (names.getLastD u.name) := by
        rw [List.getLastD_eq_getLast?, List.getLast?_eq_some_getLast hne]
        rfl
      exact ⟨List.mem_of_getLast? hlast, .inr hlast⟩

section Naming

variable {types order : List Use} {s : Use → Json} {u v : Use}

/-- Uses with their candidates and schemas. -/
def withCandidates (c : Catalog) (types order : List Use) (s : Use → Json) :
    List (Use × List String × Json) :=
  types.map fun u => (u, c.candidates order u, s u)

/-- A use among the types gets the name that is chosen for it. -/
theorem find?_naming (hu : u ∈ types) : Table.find? (naming (c.withCandidates types order s)) u =
    some (chosen (c.withCandidates types order s) u (c.candidates order u, s u)) := by
  rw [naming_eq, Table.find?_mapValues, withCandidates, Table.find?_map_key hu]
  rfl

/-- Uses with one name have schemas that are equal by value, or are the same. -/
theorem looseEq_of_naming_eq (hu : u ∈ types) (hv : v ∈ types) (horder : ∀ w ∈ types, w ∈ order)
    (h : Table.find? (naming (c.withCandidates types order s)) u =
      Table.find? (naming (c.withCandidates types order s)) v) :
    u = v ∨ (s u).looseEq (s v) = true := by
  rw [find?_naming hu, find?_naming hv, Option.some.injEq] at h
  have hclear {w x : Use} {n : String} (hx : x ∈ types) (hn : n ∈ c.candidates order x)
      (hw : isClear (c.withCandidates types order s) w (s w) n = true) :
      x = w ∨ (s w).looseEq (s x) = true := by
    have hall := List.all_eq_true.1 hw _ (List.mem_map_of_mem hx)
    simpa [hn] using hall
  obtain ⟨hmem, hcase⟩ := chosen_cases (c.withCandidates types order s) u (s u)
    (candidates_ne_nil (c := c) order u)
  obtain ⟨hmem', hcase'⟩ := chosen_cases (c.withCandidates types order s) v (s v)
    (candidates_ne_nil (c := c) order v)
  rw [← h] at hmem' hcase'
  rcases hcase with hu' | hlast
  · exact (hclear hv hmem' hu').imp Eq.symm id
  rcases hcase' with hv' | hlast'
  · exact (hclear hu hmem hv').imp id Json.looseEq_symm
  · -- neither name is clear, so both are counted
    rw [getLast?_candidates, Option.some.injEq] at hlast hlast'
    exact .inl (eq_of_lastCandidate_eq (horder u hu) (horder v hv) (hlast.trans hlast'.symm))

end Naming

end Catalog
end ApiTree
