/-!
# ApiTree.Table

Insertion-ordered tables: a list of entries in which a key keeps the position
at which it first came in.  Where a table is shown, it is shown in this order.
-/

namespace ApiTree

/-- An insertion-ordered table. -/
abbrev Table (κ α : Type) := List (κ × α)

namespace Table

variable {κ α : Type} [BEq κ]

/-- The value under a key. -/
def find? (t : Table κ α) (k : κ) : Option α := t.lookup k

/-- Whether a key has an entry. -/
def has (t : Table κ α) (k : κ) : Bool := t.any (·.1 == k)

/-- Sets the value under a key: in place if the key has an entry, else at the
end. -/
def put : Table κ α → κ → α → Table κ α
  | [], k, v => [(k, v)]
  | (k', v') :: rest, k, v =>
    if k' == k then (k', v) :: rest else (k', v') :: put rest k v

/-- Sets the value under a key that has no entry yet; else the table as is. -/
def putNew (t : Table κ α) (k : κ) (v : α) : Table κ α :=
  if t.has k then t else t ++ [(k, v)]

/-- Removes the entry of a key. -/
def erase (t : Table κ α) (k : κ) : Table κ α := t.filter fun e => !(e.1 == k)

/-- The keys, in order. -/
def keys (t : Table κ α) : List κ := t.map (·.1)

/-- The values, in order. -/
def values (t : Table κ α) : List α := t.map (·.2)

/-- The table of a list of entries; of two entries with one key the later
value counts, at the earlier position. -/
def ofList (entries : List (κ × α)) : Table κ α :=
  entries.foldl (fun t e => t.put e.1 e.2) []

/-- Puts an entry before the first one with a greater name. -/
def insertByName (e : String × α) : Table String α → Table String α
  | [] => [e]
  | x :: rest => if e.1 ≤ x.1 then e :: x :: rest else x :: insertByName e rest

/-- The entries in the order of their names. -/
def sorted (t : Table String α) : Table String α := t.foldr insertByName []

/-- Puts the entries of the second table into the first.  Where both have a key,
`combine` makes one value of the two. -/
def mergeM {ε : Type} (combine : κ → α → α → Except ε α) (t u : Table κ α) :
    Except ε (Table κ α) :=
  u.foldlM (fun t (k, v) =>
    match t.find? k with
    | none => .ok (t.put k v)
    | some w => do return t.put k (← combine k w v)) t

@[simp] theorem find?_nil (k : κ) : find? ([] : Table κ α) k = none := rfl

theorem find?_cons (e : κ × α) (t : Table κ α) (k : κ) :
    find? (e :: t) k = if k == e.1 then some e.2 else find? t k := by
  obtain ⟨k', v'⟩ := e
  simp only [find?, List.lookup_cons]
  cases k == k' <;> rfl

theorem put_cons (e : κ × α) (t : Table κ α) (k : κ) (v : α) :
    put (e :: t) k v = if e.1 == k then (e.1, v) :: t else e :: put t k v := rfl

theorem find?_put_self [LawfulBEq κ] (t : Table κ α) (k : κ) (v : α) :
    (t.put k v).find? k = some v := by
  induction t with
  | nil => simp [put, find?]
  | cons e rest ih =>
    by_cases h : e.1 = k
    · simp [put_cons, find?_cons, h]
    · have h' : ¬ k = e.1 := fun x => h x.symm
      simp [put_cons, find?_cons, h, h', ih]

theorem find?_put_of_ne [LawfulBEq κ] (t : Table κ α) {k k' : κ} (v : α) (h : k' ≠ k) :
    (t.put k v).find? k' = t.find? k' := by
  induction t with
  | nil => simp [put, find?, h]
  | cons e rest ih =>
    by_cases h₀ : e.1 = k
    · simp [put_cons, find?_cons, h₀, h]
    · simp [put_cons, find?_cons, h₀, ih]

end Table
end ApiTree
