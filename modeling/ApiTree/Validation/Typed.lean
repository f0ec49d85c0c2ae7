import ApiTree.Number.Fraction
import ApiTree.Shape.OfTy
import ApiTree.Shape.Word
import ApiTree.Text.Uuid
import ApiTree.Time.Reading
import ApiTree.Validation.Constraint

/-!
# ApiTree.Validation.Typed

Reading a JSON value as a value of a type.  What is close to the type is
converted: a whole number or its text to an integer, an array to a tuple or a
set, an object to a record.  The issues of a value that is not of the type are
reported together.
-/

namespace ApiTree

namespace Take

/-! ## Values without parts -/

/-- An integer. -/
def integer (b : Bounds) (j : Json) : Take Value :=
  let fit : Closeness := match j with
    | .int _ => .exact
    | _ => .converted
  ((ofChecked (Checked.integer j)).after fit).andThen (int b)

/-- A truth value. -/
def truth (j : Json) : Take Value :=
  (ofChecked (.bool <$> Checked.truth j)).after (if j.isBool then .exact else .converted)

/-- A double: a number, or a text that writes one. -/
def float (b : Bounds) : Json → Take Value
  | .float x => double b x
  | .int n => ((Double.ofInt? n).elim (wrong "float_type") good).after .near |>.andThen (double b)
  | .bool t => ((good (.ofInt (if t then 1 else 0))).after .converted).andThen (double b)
  | .str s =>
    (((ofChecked (Checked.whole s)).andThen fun s =>
      (Numeral.fractionInData? s.toList).elim (wrong "float_parsing") good).after .converted)
      |>.andThen (double b)
  | _ => wrong "float_type"

/-- A decimal number that a text writes. -/
def decimalOf (b : Bounds) (s : String) : Take Value :=
  match Decimal.read s with
  | .number d => (decimal b d).before .converted
  | .special => wrong "finite_number"
  | .other => wrong "decimal_parsing"

/-- A decimal number: a number with the digits that it is written with, or a text
that writes one. -/
def decimalNumber (b : Bounds) : Json → Take Value
  | .str s => decimalOf b s
  | .int n => decimalOf b (toString n)
  | .float x => decimalOf b x.text
  | _ => wrong "decimal_type"

/-- A point in time that a value stands for; the word for a value that stands for
none. -/
def momentOf (j : Json) : Moment ⊕ String :=
  let made (m : Option Moment) : Moment ⊕ String :=
    match m with
    | some m => .inl m
    | none => .inr "datetime_parsing"
  match j with
  | .str s => made (Moment.read? s)
  | .int n => made (Moment.ofNumber? n 0)
  | .float x => made (Moment.ofDouble? x)
  | _ => .inr "datetime_type"

/-- A date: written as one, or a point in time at midnight. -/
def date (j : Json) : Take Value :=
  let made (d : Date) : Take Value :=
    if d.year = 0 then wrong "date_parsing" else (good (.date d)).after .converted
  let written? : Option Date := match j with
    | .str s => Date.read? s
    | _ => none
  match written?, momentOf j with
  | some d, _ => made d
  | none, .inl m => if m.isMidnight then made m.date else wrong "date_from_datetime_inexact"
  | none, .inr "datetime_parsing" => wrong "date_from_datetime_parsing"
  | none, .inr _ => wrong "date_type"

/-- A point in time: written as one, or the start of a date. -/
def moment (b : Bounds) (j : Json) : Take Value :=
  let bound : Number → Option Moment
    | .int n => Moment.ofNumber? n 0
    | .float x => Moment.ofDouble? x
  let made (m : Moment) : Take Value :=
    if m.date.year = 0 then wrong "datetime_parsing"
    else (orWrong (b.brokenOrder? fun n => (bound n).map m.order) (.moment m)).after .converted
  match momentOf j, j with
  | .inl m, _ => made m
  | .inr _, .str s =>
    match Date.read? s with
    | some date => made { date, hour := 0, minute := 0, second := 0 }
    | none => wrong "datetime_from_date_parsing"
  | .inr kind, _ => wrong kind

/-- A universally unique identifier. -/
def uuid : Json → Take Value
  | .str s => ((Uuid.read? s).elim (wrong "uuid_parsing") fun u => good (.uuid u)).after .converted
  | _ => wrong "uuid_type"

/-- The bytes of a text. -/
def bytes (z : Size) : Json → Take Value
  | .str s => (orWrong (z.broken? "bytes_" s.utf8ByteSize) (.bytes s)).before .converted
  | _ => wrong "bytes_type"

/-! ## Fixed values -/

/-- Whether values of the same kind as a key are looked up by kind. -/
def hasOwnKind : Json → Bool
  | .int _ | .str _ => true
  | _ => false

/-- The key that a value stands for among some keys.  A value of the same kind comes
first; then equality counts, of equal keys the last one, keys that are integers or
texts coming after the others. -/
def keyOf? {α : Type} (keys : List (Json × α)) (j : Json) : Option (Json × α) :=
  let last (p : Json × α → Bool) : Option (Json × α) := (keys.filter p).getLast?
  let alike : Option (Json × α) := match j with
    | .bool _ | .int _ | .str _ => last fun k => k.1.kind == j.kind && k.1.looseEq j
    | _ => none
  let plain (k : Json) : Bool := hasOwnKind k || k.isBool
  alike
    |>.or (last fun k => !hasOwnKind k.1 && k.1.looseEq j)
    |>.or (last fun k => plain k.1 && k.1.looseEq j)

/-- A value among fixed ones. -/
def fixed (values : List Json) (j : Json) : Take Value :=
  (keyOf? (values.map fun v => (v, ())) j).elim (wrong "literal_error") fun (v, _) =>
    good (.ofJson v)

/-- A member of an enumeration. -/
def member (i : Nat) (members : List (String × Json)) (base : Option EnumBase) (j : Json) :
    Take Value :=
  let keys := (Form.distinctMembers members).map fun (name, v) => (v, name)
  let converted? : Option Json := match base, j with
    | some .int, j =>
      match Checked.integer j with
      | .good n => some (.int n)
      | .bad _ => none
    | some .text, .str s => some (.str s)
    | some .text, _ => none
    | none, j => some j
  let found := (converted?.bind (keyOf? keys)).or (keys.find? fun k => k.1.looseEq j)
  let kind := if members.isEmpty then "is_instance_of" else "enum"
  (found.elim (wrong kind) fun (v, name) => good (.member i name v)).after .converted

/-! ## Values with parts -/

/-- Readings of items beside each other, until there are more than are admitted. -/
def upTo (z : Size) (xs : List (Take Value)) : Take (List Value) :=
  match z.most with
  | none => all xs
  | some most =>
    -- the item after the last one that is admitted is still read
    let seen := (List.range xs.length).takeWhile fun (n : Nat) => (Number.int n).atMost most
    if (Number.int xs.length).atMost most then all xs
    else fun fit =>
      match all (xs.take seen.length) fit with
      | .stopped e => .stopped e
      | _ => .refused [⟨[], "too_long"⟩]

/-- Items at their places. -/
def placed (xs : List (Take Value)) : List (Take Value) :=
  xs.zipIdx.map fun (x, i) => x.under (toString i)

/-- The distinct items of a set; each must be fit for one. -/
def asSet (c : Catalog) (frozen : Bool) (z : Size) (vs : List Value) : Take Value :=
  let unfit := vs.zipIdx.filter fun (v, _) => (v.mutableKind? c).isSome
  let made := Value.setOf frozen vs
  if !unfit.isEmpty then bad (unfit.map fun (_, i) => ⟨[toString i], "set_item_not_hashable"⟩)
  else orWrong (z.broken? "" ((made.size? c).getD 0)) made

/-- A collection of items. -/
def collection (c : Catalog) (k : Collection) (z : Size) (xs : List (Take Value)) : Take Value :=
  let short (vs : List Value) : Option String :=
    if z.isShort vs.length then some "too_short" else none
  match k with
  | .list => (upTo z (placed xs)).andThen fun vs => orWrong (short vs) (.list vs)
  | .run =>
    ((upTo z (placed xs)).before .converted).andThen fun vs => orWrong (short vs) (.tuple vs)
  | .set => ((all (placed xs)).before .converted).andThen (asSet c false z)
  | .frozenset => ((all (placed xs)).before .converted).andThen (asSet c true z)

/-- Readings of entries one after the other: an entry whose key and value were taken
stops the reading if its key cannot be one. -/
def entry (c : Catalog) (name : String) (key value : Take Value) : Take (Value × Value) :=
  (both ((key.under "[key]").under name) (value.under name)).andThen fun (k, v) =>
    match k.mutableKind? c with
    | some kind => stop (.unhashable kind)
    | none => good (k, v)

/-- A value of entries. -/
def dictionary (c : Catalog) (z : Size) (entries : List (Take (Value × Value))) : Take Value :=
  (all entries).andThen fun es =>
    let made := Value.dictOf es
    let size := (made.size? c).getD 0
    orWrong ((if z.isShort size then some "too_short" else none).or (z.broken? "" size)) made

/-- The text of a value in the place of an issue. -/
def tagText : Json → String
  | .bool b => if b then "1" else "0"
  | j => j.inText

/-- A value as the member of a union that the property `name` tells: each member
comes with the values of the property. -/
def told (name : String) (j : Json) (members : List (List Json × Take Value)) : Take Value :=
  match j with
  | .obj ms =>
    match Table.find? ms name with
    | none => wrong "union_tag_not_found"
    | some tag =>
      match keyOf? (members.flatMap fun (tags, x) => tags.map (·, x)) tag with
      | some (_, x) => x.under (tagText tag)
      | none => wrong "union_tag_invalid"
  | _ => wrong "model_attributes_type"

end Take

/-- The word for what is expected where a collection is. -/
def Collection.typeWord : Collection → String
  | .list => "list_type"
  | .set => "set_type"
  | .frozenset => "frozen_set_type"
  | .run => "tuple_type"

namespace Shape

mutual

/-- Reads a value of a shape; `sub` reads one of a declared type. -/
def take (c : Catalog) (sub : Nat → Json → Take Value) : Shape → Json → Take Value
  | .any, j => (Take.good (.ofJson j)).after .near
  | .null, .null => Take.good .null
  | .null, _ => Take.wrong "none_required"
  | .bool, j => Take.truth j
  | .uuid, j => Take.uuid j
  | .number .int b, j => Take.integer b j
  | .number .float b, j => Take.float b j
  | .number .decimal b, j => Take.decimalNumber b j
  | .moment .date _, j => Take.date j
  | .moment .datetime b, j => Take.moment b j
  | .text z p, j => (Take.ofChecked (Checked.text j)).andThen (Take.text z p)
  | .bytes z, j => Take.bytes z j
  | .literal vs, j => Take.fixed vs j
  | .gathered .list z .any, .arr xs =>
    let word := (if z.isShort xs.length then some "too_short" else none).or (z.broken? "" xs.length)
    Take.orWrong word (.list (Value.ofItems xs))
  | .gathered k z s, j =>
    match j with
    | .arr xs => Take.collection c k z (xs.map fun x => take c sub s x)
    | _ => Take.wrong k.typeWord
  | .sequence s, j =>
    match j, s with
    | .arr xs, .any => Take.good (.list (Value.ofItems xs))
    | .str t, .any => Take.good (.text t)
    | .arr xs, s => Take.collection c .list {} (xs.map fun x => take c sub s x)
    | .str _, _ => Take.wrong "sequence_str"
    | _, _ => Take.wrong "is_instance_of"
  | .row z ss, j =>
    match j with
    | .arr xs =>
      let made := ((Take.all (takeRow c sub 0 ss xs)).before .converted).andThen fun vs =>
        Take.orWrong (z.broken? "" vs.length) (.tuple vs)
      if ss.length < xs.length then fun fit =>
        match made fit with
        | .stopped e => .stopped e
        | _ => .refused [⟨[], "too_long"⟩]
      else made
    | _ => Take.wrong "tuple_type"
  | .entries z k v, j =>
    match j with
    | .obj ms =>
      Take.dictionary c z <| ms.map fun (name, x) =>
        Take.entry c name (take c sub k (.str name)) (take c sub v x)
    | _ => Take.wrong "dict_type"
  | .declared u, j => sub u.index j
  | .nullable s, j =>
    match j with
    | .null => Take.good .null
    | j => take c sub s j
  | .union ss, j => Take.best (takeEach c sub ss j)
  | .tagged property members, j => Take.told property j (takeTagged c sub members j)
  | .limited l s, j => (take c sub s j).andThen (l.take c)
  | .patterned p s, j => (take c sub s j).andThen (Take.patterned c p (s.kindWord c))
  | .said _ _ s, j => take c sub s j

/-- Reads the items of a row, each with its shape. -/
def takeRow (c : Catalog) (sub : Nat → Json → Take Value) (i : Nat) :
    List Shape → List Json → List (Take Value)
  | [], _ => []
  | _ :: ss, [] => Take.bad [⟨[toString i], "missing"⟩] :: takeRow c sub (i + 1) ss []
  | s :: ss, x :: xs => (take c sub s x).under (toString i) :: takeRow c sub (i + 1) ss xs

/-- Reads a value as each of the shapes, with their words. -/
def takeEach (c : Catalog) (sub : Nat → Json → Take Value) :
    List Shape → Json → List (String × Take Value)
  | [], _ => []
  | s :: ss, j => (s.word c, take c sub s j) :: takeEach c sub ss j

/-- Reads a value as each of the shapes, with the values that tell them apart. -/
def takeTagged (c : Catalog) (sub : Nat → Json → Take Value) :
    List (List Json × Shape) → Json → List (List Json × Take Value)
  | [], _ => []
  | (tags, s) :: ss, j => (tags, take c sub s j) :: takeTagged c sub ss j

end

end Shape

namespace Catalog

/-! ## Declared types -/

/-- Reads a field of an object. -/
def takeField (c : Catalog) (sub : Nat → Json → Take Value) (ms : Json.Members)
    (f : FieldDecl) : Take (String × Value × Bool) :=
  match Table.find? ms f.wireName, f.default with
  | some j, _ => (((c.fieldShape f).take c sub j).under f.wireName).map fun v => (f.name, v, true)
  | none, some d => Take.good (f.name, .ofJson d, false)
  | none, none => Take.bad [⟨[f.wireName], "missing"⟩]

/-- Reads members that are not declared; `kind` is the word for those that are
forbidden. -/
def takeExtra (kind : String) (extra : Extra) (ms : Json.Members) : Take (List (String × Value)) :=
  match extra with
  | .ignored => Take.good []
  | .allowed => Take.good (ms.map fun (n, j) => (n, .ofJson j))
  | .forbidden => if ms.isEmpty then Take.good [] else Take.bad (ms.map fun (n, _) => ⟨[n], kind⟩)

/-- Reads the members of an object as fields; only those that are given are
counted. -/
def takeFields (c : Catalog) (sub : Nat → Json → Take Value) (i : Nat) (fields : List FieldDecl)
    (kind : String) (extra : Extra) (ms : Json.Members) : Take Value :=
  let others := ms.filter fun m => !fields.any (·.wireName == m.1)
  (Take.both (Take.all (fields.map (c.takeField sub ms))) (takeExtra kind extra others)).andThen
    fun (known, more) fit =>
      .taken (.record i (known.map (fun (n, v, _) => (n, v)) ++ more))
        (fit.withFields (known.filter fun (_, _, given) => given).length)

/-- Reads a value of a declared type in a place that treats undeclared members of
records as `place` says, at most `fuel` declarations deep. -/
def takeWithin (c : Catalog) : Nat → Extra → Nat → Json → Take Value
  | 0, _, _, _ => Take.wrong "recursion_loop"
  | fuel + 1, place, i, j =>
    match c.form i, j with
    | .model fs extra _ _, .obj ms =>
      (c.takeFields (takeWithin c fuel extra) i fs "extra_forbidden" extra ms).before .converted
    | .model .., _ => Take.wrong "model_type"
    | .record fs, .obj ms =>
      let kept : Extra := if place = .forbidden then .forbidden else .ignored
      (c.takeFields (takeWithin c fuel place) i fs "unexpected_keyword_argument" kept ms).after
        .near
    | .record _, _ => Take.wrong "dataclass_type"
    | .root t, j =>
      (((c.rootShape t).take c (takeWithin c fuel .ignored) j).before .converted).map (.wrapped i)
    | .enum members base, j => Take.member i members base j
    | .opaqueClass, _ => Take.wrong "is_instance_of"

/-- Reads a value of a declared type.  Between one level of the value and the next
no declaration is entered twice. -/
def takeDeclared (c : Catalog) (i : Nat) (j : Json) : Take Value :=
  c.takeWithin ((j.depth + 1) * (c.length + 1)) .ignored i j

/-- Reads a value of a declared type. -/
def acceptDeclared (c : Catalog) (i : Nat) (j : Json) : Except Fault Value :=
  (c.takeDeclared i j).toExcept

/-- Reads a value of a type. -/
def accept (c : Catalog) (t : Ty) (j : Json) : Except Fault Value :=
  ((c.shape t).take c c.takeDeclared j).toExcept

end Catalog
end ApiTree
