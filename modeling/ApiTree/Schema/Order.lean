import ApiTree.Shape.OfTy
import ApiTree.Ty.Reach

/-!
# ApiTree.Schema.Order

The order in which the definitions of declared types are completed when the
schema of a type is written, and the order in which the types are first named.

A declared type that is used once is written where it is used; one that is used
again, or inside itself, is kept, and what is kept is written first.  A model is
laid out once, for itself: what is written inside it stays there when the model
is used elsewhere.  A plain record is laid out anew in every place, and admits
undeclared members as the nearest model around it does.
-/

namespace ApiTree

/-- A use of a declared type: by its name alone, or with its definition in place,
which holds further uses. -/
inductive Site where
  | named (use : Use)
  | written (use : Use) (extra : Extra) (inner : List Site)
  /-- Uses that count more than once. -/
  | repeated (inner : List Site)
deriving Repr, Inhabited

/-- What is known of the definition of a declared type: how it treats undeclared
members, and the uses in it. -/
structure Outline where
  extra : Extra := .ignored
  sites : List Site := []
deriving Repr, Inhabited

/-- The definitions at hand, and the types that are being laid out. -/
structure Draft where
  known : Table Nat Outline := []
  entered : List Nat := []
deriving Repr, Inhabited

/-- Laying out, with a draft at hand. -/
abbrev Drafting := StateM Draft

namespace Shape

mutual

/-- The uses of declared types in a shape; `site` is that of one. -/
def sites (site : Use → Drafting (List Site)) : Shape → Drafting (List Site)
  | .declared u => site u
  | .gathered _ _ s | .nullable s | .limited _ s | .patterned _ s | .said _ _ s => sites site s
  | .sequence s => do return [.repeated (← sites site s)]
  | .entries _ k v => do
    let inKeys ← sites site k
    return inKeys ++ (← sites site v)
  | .row _ ss | .union ss => sitesOfAll site ss
  | .tagged _ members => sitesOfTagged site members
  | _ => return []

/-- The uses of declared types in shapes. -/
def sitesOfAll (site : Use → Drafting (List Site)) : List Shape → Drafting (List Site)
  | [] => return []
  | s :: ss => do
    let here ← sites site s
    return here ++ (← sitesOfAll site ss)

/-- The uses of declared types in the members of a union, once for each of their
values. -/
def sitesOfTagged (site : Use → Drafting (List Site)) :
    List (List Json × Shape) → Drafting (List Site)
  | [] => return []
  | (tags, s) :: ss => do
    let here ← sites site s
    return (tags.flatMap fun _ => here) ++ (← sitesOfTagged site ss)

end

end Shape

namespace Site

/-! ## Kept definitions -/

/-- The declared types met so far, and those met again. -/
structure Met where
  once : List Nat := []
  again : List Nat := []
deriving Repr, Inhabited

mutual

/-- Meets the uses in a site; `follow` meets those in a definition. -/
def meet (follow : Nat → StateM Met Unit) : Site → StateM Met Unit
  | .named u => do
    if (← get).once.contains u.index then
      modify fun m => { m with again := u.index :: m.again }
    else
      modify fun m => { m with once := m.once ++ [u.index] }
      follow u.index
  | .written _ _ inner => meetAll follow inner
  | .repeated inner => do
    meetAll follow inner
    meetAll follow inner

/-- Meets the uses in sites. -/
def meetAll (follow : Nat → StateM Met Unit) : List Site → StateM Met Unit
  | [] => return
  | s :: ss => do
    meet follow s
    meetAll follow ss

end

/-- Meets the uses in the definition of a declared type, and in those that it
leads to. -/
def meetDefinition (known : Table Nat Outline) : Nat → Nat → StateM Met Unit
  | 0, _ => return
  | depth + 1, i => meetAll (meetDefinition known depth) ((known.find? i).getD {}).sites

mutual

/-- The site with definitions in the place of names that are not kept; `outline`
gives them. -/
def resolve (kept : Nat → Bool) (outline : Nat → Outline) : Site → Site
  | .named u =>
    if kept u.index then .named u
    else .written u (outline u.index).extra (outline u.index).sites
  | .written u extra inner => .written u extra (resolveAll kept outline inner)
  | .repeated inner => .repeated (resolveAll kept outline inner)

/-- Sites with definitions in the place of names that are not kept. -/
def resolveAll (kept : Nat → Bool) (outline : Nat → Outline) : List Site → List Site
  | [] => []
  | s :: ss => resolve kept outline s :: resolveAll kept outline ss

end

/-- A definition with the definitions of what is not kept in it. -/
def resolvedOutline (kept : Nat → Bool) (known : Table Nat Outline) : Nat → Nat → Outline
  | 0, i => (known.find? i).getD {}
  | depth + 1, i =>
    let o := (known.find? i).getD {}
    { o with sites := resolveAll kept (resolvedOutline kept known depth) o.sites }

end Site

/-- Uses with their definitions in place, and the definitions that are kept. -/
structure Arrangement where
  sites : List Site := []
  kept : Table Nat Outline := []
deriving Repr, Inhabited

/-- Arranges uses: what is met once is written where it is met. -/
def Draft.arrange (d : Draft) (sites : List Site) : Arrangement :=
  let depth := d.known.length + 1
  let met := ((Site.meetAll (Site.meetDefinition d.known depth) sites).run {}).run.2
  let kept := met.once.filter met.again.contains
  let outline := Site.resolvedOutline kept.contains d.known depth
  { sites := Site.resolveAll kept.contains outline sites
    kept := kept.map fun i => (i, outline i) }

namespace Catalog

/-! ## Laying out declarations -/

/-- The site of a use, after `lay` laid out the declared type.  With a constraint
around it, a declared type is written where it is used. -/
def siteAfter (lay : Nat → Drafting Unit) (u : Use) : Drafting (List Site) := do
  lay u.index
  match u.mark.isEmpty, (← get).known.find? u.index with
  | false, some o => return [.written u o.extra o.sites]
  | _, _ => return [.named u]

/-- Lays out the definition of a declared type, if it is not at hand.  `models`
are the models that are laid out already, and `extra` tells how the place treats
undeclared members. -/
def layOut (c : Catalog) (models : Table Nat Arrangement) : Nat → Extra → Nat → Drafting Unit
  | 0, _, _ => return
  | depth + 1, extra, i => do
    let d ← get
    if Table.has d.known i || d.entered.contains i then return
    match models.find? i with
    | some a =>
      let own : Outline := match a.sites with
        | [.written _ extra inner] => ⟨extra, inner⟩
        | _ => {}
      modify fun d =>
        let known := a.kept.foldl (fun t (j, o) => Table.put t j o) d.known
        { d with known := if Table.has a.kept i then known else known.put i own }
    | none =>
      modify fun d => { d with entered := i :: d.entered }
      let extra := match c.form i with
        | .model _ own _ _ => own
        | .root _ => .ignored
        | _ => extra
      let sites ← Shape.sitesOfAll (siteAfter (layOut c models depth extra)) (c.partShapes i)
      modify fun d => { d with known := d.known.put i ⟨extra, sites⟩ }

/-- Arranges the uses in a shape. -/
def arranged (c : Catalog) (models : Table Nat Arrangement) (s : Shape) : Arrangement :=
  let (sites, d) := ((s.sites (siteAfter (c.layOut models (c.length + 1) .ignored))).run {}).run
  d.arrange sites

/-- The declared types in the order in which they are laid out, each after those
that stand in it. -/
def layoutOrder (next : Nat → List Nat) : Nat → List (Nat × Bool) → List Nat → List Nat → List Nat
  | 0, _, _, done => done
  | _, [], _, done => done
  | rounds + 1, (i, left) :: stack, entered, done =>
    if left then layoutOrder next rounds stack entered (done ++ [i])
    else if entered.contains i then layoutOrder next rounds stack entered done
    else layoutOrder next rounds ((next i).map (·, false) ++ (i, true) :: stack) (i :: entered) done

/-- The models among some declared types, laid out. -/
def arrangements (c : Catalog) (types : List Nat) : Table Nat Arrangement :=
  types.foldl (fun models i =>
    match c.form i with
    | .model .. | .root _ => models.put i (c.arranged models (.declared { index := i }))
    | _ => models) []

end Catalog

/-! ## Writing -/

/-- The uses of declared types in the order in which they are named first, and
those with a complete definition, each with how its place treats undeclared
members. -/
structure Progress where
  named : List Use := []
  complete : Table Use Extra := []
deriving Repr, Inhabited

namespace Progress

/-- Names a use. -/
def name (p : Progress) (u : Use) : Progress :=
  if p.named.contains u then p else { p with named := p.named ++ [u] }

mutual

/-- Writes a site: a definition in place is complete after what is in it, and a
second time only named. -/
def write (p : Progress) : Site → Progress
  | .named u => p.name u
  | .written u extra inner =>
    if Table.has p.complete u then p.name u
    else
      let p := (writeAll p inner).name u
      { p with complete := p.complete.put u extra }
  | .repeated inner => writeAll p inner

/-- Writes sites one after the other. -/
def writeAll (p : Progress) : List Site → Progress
  | [] => p
  | s :: ss => writeAll (write p s) ss

end

/-- Whether the definition of `u` is complete before that of `v`. -/
def isBefore (p : Progress) (u v : Use) : Bool :=
  (p.complete.keys.takeWhile (· != v)).contains u

end Progress

/-- Writes an arrangement: what is kept, and then the uses. -/
def Arrangement.progress (a : Arrangement) : Progress :=
  Progress.writeAll
    (Progress.writeAll {} (a.kept.map fun (i, o) => .written { index := i } o.extra o.sites))
    a.sites

/-- How the schema of a type is written. -/
def Catalog.progress (c : Catalog) (t : Ty) : Progress :=
  let rounds := c.rounds t.heads + c.length + 1
  let order := layoutOrder c.next rounds (t.heads.map (·, false)) [] []
  (c.arranged (c.arrangements order) (c.shape t)).progress

end ApiTree
