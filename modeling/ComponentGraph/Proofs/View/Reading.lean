/-
  ComponentGraph.Proofs.View.Reading
  ────────────────────────────────
  **READING A DOCUMENT.**

  A document is read as the list of its objects, in the order in which they
  stand.  An object is a component in full, with the references of the
  objects below it, or the mention of another one.  Reading looks at nothing
  but the document:

      Shown         — what a document shows of a component
      Item          — one object of a document
      Json.outline  — all objects, each before those below it, with the depth
                      at which it stands
      Json.objects  — the same without the depths
-/
import ComponentGraph.Proofs.Table
import ComponentGraph.View.Document

namespace ComponentGraph

/-! ## §1. What is read. -/

/-- What a document shows of a component. -/
structure Shown where
  type : Field
  name : Field
  group : Field
  version : Field
  purl : Field
  supplier : Field
  licenses : Field
  hashes : Field
  /-- The properties, by full name and value. -/
  properties : List (Field × Field)
  /-- The identifiers of the vulnerabilities. -/
  vulnerabilities : List Json
  deriving Repr, DecidableEq

/-- One object of a document. -/
inductive Item where
  /-- A component in full, with its reference and those of the objects below
  it. -/
  | full (ref : Field) (shown : Shown) (below : List Field)
  /-- The mention of an object. -/
  | mention (ref : Field)
  deriving Repr, DecidableEq

namespace Item

/-- Is this a component in full? -/
def isFull : Item → Bool
  | .full _ _ _ => true
  | .mention _ => false

/-- The reference of a component in full. -/
def own? : Item → Option Field
  | .full ref _ _ => some ref
  | .mention _ => none

end Item

/-! ## §2. Reading. -/

/-- The items of a list; nothing else has any. -/
def Json.listed : Field → List Json
  | some (.array items) => items
  | _ => []

/-- What an object shows of a component. -/
def Shown.ofJson (j : Json) : Shown where
  type := j.get? "type"
  name := j.get? "name"
  group := j.get? "group"
  version := j.get? "version"
  purl := j.get? "purl"
  supplier := j.get? "supplier"
  licenses := j.get? "licenses"
  hashes := j.get? "hashes"
  properties := (Json.listed (j.get? "properties")).map fun p => (p.get? "name", p.get? "value")
  vulnerabilities := Json.listed (j.get? "vulnerabilities")

/-- The reference of an object: the one that it mentions, or else its own. -/
def Json.reference (j : Json) : Field :=
  match j.get? "ref" with
  | some r => some r
  | none => j.get? "bom-ref"

/-- An object, without the objects below it. -/
def Item.ofJson (j : Json) : Item :=
  match j.get? "ref" with
  | some r => .mention (some r)
  | none =>
    .full (j.get? "bom-ref") (Shown.ofJson j)
      ((Json.listed (j.get? "components")).map Json.reference)

mutual

/-- The objects of a document that begins at this depth, each with its depth and
before those below it. -/
def Json.outline (depth : Nat) : Json → List (Nat × Item)
  | .object members =>
    (depth, Item.ofJson (.object members)) :: Json.outlineBelow (depth + 1) members
  | _ => []

/-- The objects below one with these members. -/
def Json.outlineBelow (depth : Nat) : List (String × Json) → List (Nat × Item)
  | [] => []
  | (name, j) :: rest =>
    if name = "components" then Json.outlineOf depth j else Json.outlineBelow depth rest

/-- The objects of a list. -/
def Json.outlineOf (depth : Nat) : Json → List (Nat × Item)
  | .array items => Json.outlineIn depth items
  | _ => []

/-- The objects of these values, one after the other. -/
def Json.outlineIn (depth : Nat) : List Json → List (Nat × Item)
  | [] => []
  | j :: rest => j.outline depth ++ Json.outlineIn depth rest

end

/-- The objects of a document, each before those below it. -/
def Json.objects (j : Json) : List Item := (j.outline 0).map (·.2)

theorem Json.outlineIn_eq (depth : Nat) (items : List Json) :
    Json.outlineIn depth items = items.flatMap (Json.outline depth) := by
  induction items with
  | nil => simp [Json.outlineIn]
  | cons j rest ih => rw [Json.outlineIn, ih, List.flatMap_cons]

/-- What is below an object is what its list of components holds. -/
theorem Json.outlineBelow_eq (depth : Nat) (members : List (String × Json)) :
    Json.outlineBelow depth members
      = (Json.listed (Table.find? "components" members)).flatMap (Json.outline depth) := by
  induction members with
  | nil => simp [Json.outlineBelow, Table.find?, Json.listed]
  | cons p rest ih =>
    obtain ⟨name, j⟩ := p
    rw [Json.outlineBelow, Table.find?]
    by_cases h : name = "components"
    · rw [if_pos h, if_pos h]
      -- only a list has items
      cases j <;> simp [Json.outlineOf, Json.listed, Json.outlineIn_eq]
    · rw [if_neg h, if_neg h, ih]

/-- What stands in a list below an object is smaller than the object. -/
theorem Json.sizeOf_lt_of_mem_listed {name : String} {members : List (String × Json)} {j : Json}
    (h : j ∈ listed (Table.find? name members)) : sizeOf j < sizeOf (Json.object members) := by
  cases hf : Table.find? name members with
  | none =>
    rw [hf] at h
    contradiction
  | some value =>
    rw [hf] at h
    cases value with
    | array items =>
      have hitems : j ∈ items := h
      have hmember := List.sizeOf_lt_of_mem (Table.mem_of_find? hf)
      have hitem := List.sizeOf_lt_of_mem hitems
      simp only [Prod.mk.sizeOf_spec, Json.array.sizeOf_spec] at hmember
      rw [Json.object.sizeOf_spec]
      omega
    | _ => contradiction

/-- **The depth at which reading begins does not change what is read.** -/
theorem Json.map_outline (depth : Nat) (j : Json) : (j.outline depth).map (·.2) = j.objects := by
  unfold objects
  cases j with
  | object members =>
    rw [outline, outline, outlineBelow_eq, outlineBelow_eq, List.map_cons, List.map_cons,
      List.map_flatMap, List.map_flatMap]
    have hbelow : ∀ j ∈ listed (Table.find? "components" members),
        (j.outline (depth + 1)).map (·.2) = (j.outline (0 + 1)).map (·.2) := by
      intro j hj
      rw [Json.map_outline (depth + 1) j, Json.map_outline (0 + 1) j]
    rw [List.flatMap_congr hbelow]
  | _ => simp [outline]
termination_by sizeOf j
decreasing_by all_goals exact Json.sizeOf_lt_of_mem_listed hj

/-! ## §3. Members that were written. -/

/-- A member reads as the field that it was written from. -/
theorem Json.get?_ofFields {fields : List (String × Field)} (h : (fields.map (·.1)).Nodup)
    (name : String) : (Json.ofFields fields).get? name = (Table.find? name fields).join := by
  show Table.find? name (fields.filterMap _) = _
  induction fields with
  | nil => rfl
  | cons p rest ih =>
    obtain ⟨k, f⟩ := p
    rw [List.map_cons, List.nodup_cons] at h
    have ih := ih h.2
    cases f with
    | none =>
      -- a field without a value is not written
      rw [List.filterMap_cons_none rfl, ih, Table.find?]
      by_cases hk : k = name
      · -- the name is not given a second time
        have hn : Table.find? name rest = none := by
          rw [Table.find?_eq_none_iff, ← hk]
          exact h.1
        rw [if_pos hk, hn]
        rfl
      · rw [if_neg hk]
    | some j =>
      rw [List.filterMap_cons]
      show (if k = name then some j else Table.find? name (rest.filterMap _)) = _
      rw [Table.find?, ih]
      by_cases hk : k = name
      · rw [if_pos hk, if_pos hk]
        rfl
      · rw [if_neg hk, if_neg hk]

/-- A list that is written only if there is something in it reads as it was. -/
@[simp] theorem Json.listed_nonempty (items : List Json) :
    Json.listed (Json.nonempty items) = items := by
  unfold Json.nonempty
  split
  · rename_i h
    rw [h]
    rfl
  · rfl

/-! ## §4. Entries, read. -/

/-- The written form of a component's package URL, if there is one. -/
def Component.purlText (c : Component) : Option String := c.purl.bind (·.text?.toOption)

/-- What a document shows of a component with this written package URL. -/
def Component.shownWith (c : Component) (purl : Option String) : Shown where
  type := c.type.map .text
  name := c.name
  group := c.group
  version := c.version
  purl := purl.map .text
  supplier := c.supplier
  licenses := c.licenses.map .array
  hashes := c.hashes.map .array
  properties := c.properties.map fun p => (some (.text p.fullName), p.value)
  vulnerabilities := c.vulnerabilityList.map Vulnerability.idJson

/-- What a document shows of a component. -/
def Component.shown (c : Component) : Shown := c.shownWith c.purlText

/-- What is shown of a component as it is written. -/
def Written.shown (w : Written) : Shown := w.component.shownWith w.purl

theorem Property.read_toJson (p : Property) :
    (p.toJson.get? "name", p.toJson.get? "value") = (some (.text p.fullName), p.value) := by
  have h : ([("name", some (.text p.fullName)), ("value", p.value)].map
      (fun f : String × Field => f.1)).Nodup := by simp
  rw [Property.toJson, Json.get?_ofFields h, Json.get?_ofFields h]
  rfl

namespace Entry

/-- The reference of an entry: the one that it mentions, or else its own. -/
def reference : Entry → Field
  | .full w _ => w.ref
  | .ref r => r

/-- The members of a component in full. -/
def members (w : Written) (below : List Entry) : List (String × Field) :=
  w.fields ++ [("components", Json.nonempty (below.map toJson))]

theorem listToJson_eq (entries : List Entry) : listToJson entries = entries.map toJson := by
  induction entries with
  | nil => rfl
  | cons e rest ih => rw [listToJson, ih, List.map_cons]

theorem toJson_full (w : Written) (below : List Entry) :
    (Entry.full w below).toJson = .ofFields (members w below) := by
  rw [toJson, listToJson_eq, members]

theorem get?_full (w : Written) (below : List Entry) (name : String) :
    (Entry.full w below).toJson.get? name = (Table.find? name (members w below)).join := by
  have h : ((members w below).map (·.1)).Nodup := by simp [members, Written.fields]
  rw [toJson_full, Json.get?_ofFields h]

/-- A component in full shows as it was written. -/
theorem shown_full (w : Written) (below : List Entry) :
    Shown.ofJson (Entry.full w below).toJson = w.shown := by
  have hp : Json.listed ((Entry.full w below).toJson.get? "properties")
      = w.component.properties.map Property.toJson := by
    rw [get?_full]
    exact Json.listed_nonempty _
  have hv : Json.listed ((Entry.full w below).toJson.get? "vulnerabilities")
      = w.component.vulnerabilityList.map Vulnerability.idJson := by
    rw [get?_full]
    exact Json.listed_nonempty _
  unfold Shown.ofJson
  rw [hp, hv, List.map_map]
  simp only [get?_full, Function.comp_def, Property.read_toJson]
  rfl

theorem reference_toJson {e : Entry} (h : e.reference.isSome) :
    e.toJson.reference = e.reference := by
  cases e with
  | full w below =>
    unfold Json.reference
    rw [get?_full, get?_full]
    rfl
  | ref r =>
    obtain ⟨j, rfl⟩ := Option.isSome_iff_exists.1 h
    rfl

/-- **An entry in full reads as its component, and then as the entries below
it**, one step deeper. -/
theorem outline_toJson_full (depth : Nat) (w : Written) (below : List Entry) :
    (Entry.full w below).toJson.outline depth
      = (depth, .full w.ref w.shown ((below.map toJson).map Json.reference))
        :: (below.map toJson).flatMap (Json.outline (depth + 1)) := by
  have hc : Json.listed ((Entry.full w below).toJson.get? "components") = below.map toJson := by
    rw [get?_full]
    exact Json.listed_nonempty _
  have hi : Item.ofJson (Entry.full w below).toJson
      = .full w.ref w.shown ((below.map toJson).map Json.reference) := by
    unfold Item.ofJson
    rw [hc, shown_full, get?_full, get?_full]
    rfl
  rw [← hi, ← hc, toJson_full]
  show (depth, Item.ofJson _) :: Json.outlineBelow (depth + 1) _ = _
  rw [Json.outlineBelow_eq]
  rfl

/-- If there are references below, they are read as they were written. -/
theorem outline_full (depth : Nat) (w : Written) {below : List Entry}
    (h : ∀ e ∈ below, e.reference.isSome) :
    (Entry.full w below).toJson.outline depth
      = (depth, .full w.ref w.shown (below.map reference))
        :: (below.map toJson).flatMap (Json.outline (depth + 1)) := by
  have hb : (below.map toJson).map Json.reference = below.map reference := by
    rw [List.map_map]
    exact List.map_congr_left fun e he => reference_toJson (h e he)
  rw [outline_toJson_full, hb]

/-- A mention reads as a mention. -/
theorem outline_ref (depth : Nat) {r : Field} (h : r.isSome) :
    (Entry.ref r).toJson.outline depth = [(depth, .mention r)] := by
  obtain ⟨j, rfl⟩ := Option.isSome_iff_exists.1 h
  rfl

end Entry

/-- Entries in one row are read at one depth. -/
theorem Entry.outline_row (depth : Nat) {row : List Field} {entries : List Entry}
    (h : row.length = entries.length) :
    ((row.map (depth, ·)).zip entries).flatMap (fun h => h.2.toJson.outline h.1.1)
      = (entries.map toJson).flatMap (Json.outline depth) := by
  induction row generalizing entries with
  | nil =>
    obtain rfl := List.length_eq_zero_iff.1 h.symm
    rfl
  | cons r row ih =>
    cases entries with
    | nil => contradiction
    | cons e entries =>
      rw [List.map_cons, List.zip_cons_cons, List.flatMap_cons, ih (Nat.succ.inj h), List.map_cons,
        List.flatMap_cons]

/-- Entries that stand at these depths for these references, and are read as
these objects. -/
structure Entry.Spells (entries : List Entry) (heads : List (Nat × Field))
    (items : List (Nat × Item)) : Prop where
  references : entries.map reference = heads.map (·.2)
  outline : (heads.zip entries).flatMap (fun h => h.2.toJson.outline h.1.1) = items

namespace Entry.Spells

variable {entries : List Entry} {heads : List (Nat × Field)} {items : List (Nat × Item)}

theorem nil : Spells [] [] [] := ⟨rfl, rfl⟩

/-- A mention goes before what follows. -/
theorem ref (h : Spells entries heads items) (depth : Nat) {r : Field} (hr : r.isSome) :
    Spells ((Mark.ref r).place entries) ((depth, r) :: heads) ((depth, .mention r) :: items) where
  references := congrArg (r :: ·) h.references
  outline := by
    show (Entry.ref r).toJson.outline depth
      ++ (heads.zip entries).flatMap (fun h => h.2.toJson.outline h.1.1) = _
    rw [outline_ref depth hr, h.outline]
    rfl

/-- A component in full takes the entries of its children below itself. -/
theorem full {depth : Nat} {below : List Field}
    (h : Spells entries (below.map (depth + 1, ·) ++ heads) items)
    (hb : ∀ r ∈ below, r.isSome) (w : Written) :
    Spells ((Mark.full w below.length).place entries) ((depth, w.ref) :: heads)
      ((depth, .full w.ref w.shown below) :: items) := by
  have hrefs : entries.map reference = below ++ heads.map (·.2) := by
    rw [h.references, List.map_append, List.map_map]
    exact congrArg (· ++ _) (List.map_id _)
  -- the first entries stand for the children, the others for what follows
  have hbelow : (entries.take below.length).map reference = below := by
    rw [List.map_take, hrefs, List.take_left]
  have hrest : (entries.drop below.length).map reference = heads.map (·.2) := by
    rw [List.map_drop, hrefs, List.drop_left]
  have hsome : ∀ e ∈ entries.take below.length, e.reference.isSome := by
    intro e he
    apply hb
    rw [← hbelow]
    exact List.mem_map_of_mem he
  have hlen : below.length = (entries.take below.length).length := by
    rw [← List.length_map reference, hbelow]
  constructor
  · exact congrArg (w.ref :: ·) hrest
  · show (Entry.full w (entries.take below.length)).toJson.outline depth
        ++ (heads.zip (entries.drop below.length)).flatMap (fun h => h.2.toJson.outline h.1.1) = _
    rw [outline_full depth w hsome, hbelow, List.cons_append, ← outline_row _ hlen,
      ← List.flatMap_append, ← List.zip_append (by rwa [List.length_map]), List.take_append_drop,
      h.outline]

end Entry.Spells

end ComponentGraph
