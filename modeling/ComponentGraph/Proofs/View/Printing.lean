/-
  ComponentGraph.Proofs.View.Printing
  ────────────────────────────────
  **PRETTY AND COMPACT ARE ONE DOCUMENT.**

  A graph whose fields are texts has a document without numbers, in which no
  object names a member twice; so both printed forms are read as the document
  itself.  What is typed stays so on its way:

      Component.IsTyped         — the fields of a component are texts
      Writes.isTyped            — so are those of what is written, and all
                                  references
      Mark.isTextual_nest       — entries of what is typed are textual
      printed_reads_back        — what is printed is read as the document
-/
import ComponentGraph.Command.Run
import ComponentGraph.Proofs.Json.RoundTrip
import ComponentGraph.Proofs.Json.Schema
import ComponentGraph.Proofs.View.Stability

namespace ComponentGraph

/-! ## §1. Typed components. -/

/-- Is the field a text, or absent? -/
def Field.isText (f : Field) : Bool := f.all Json.isText

namespace Component

/-- All fields of the component are texts, where they are there; so are the items
of its lists, the values of its properties and the identifiers of its
vulnerabilities. -/
structure IsTyped (c : Component) : Prop where
  name : c.name.isText
  group : c.group.isText
  version : c.version.isText
  supplier : c.supplier.isText
  licenses : ∀ j ∈ c.licenses.getD [], j.isText
  hashes : ∀ j ∈ c.hashes.getD [], j.isText
  properties : ∀ p ∈ c.properties, p.value.isText
  vulnerabilities : ∀ v ∈ c.vulnerabilityList, v.id.isText

/-- Settling a component changes no text. -/
theorem IsTyped.settled {c : Component} (h : c.IsTyped) : c.settled.IsTyped := { h with }

theorem IsTyped.isText_nameAtVersion {c : Component} (h : c.IsTyped) : c.nameAtVersion.isText := by
  unfold nameAtVersion
  split
  · rfl
  · exact h.name

end Component

/-- A reference is a text if the label is one. -/
theorem Refs.isText_choose {label : Field} (h : label.isText) (purl : Option String)
    (used : List Field) : (choose label purl used).isText := by
  have hlabel : (fromLabel label used).isText := by
    rcases fromLabel_cases label used with he | ⟨m, he⟩
    · rwa [he]
    · rw [he]
      rfl
  unfold choose
  split
  · split
    · rfl
    · exact hlabel
  · exact hlabel

/-! ## §2. What is written of them. -/

/-- A component as it is written, whose reference and fields are texts. -/
structure Written.IsTyped (w : Written) : Prop where
  ref : w.ref.isText
  component : w.component.IsTyped

def Mark.IsTyped : Mark → Prop
  | .full w _ => w.IsTyped
  | .ref r => r.isText

theorem Component.IsTyped.written {c : Component} (h : c.IsTyped) (used : List Field) :
    (c.written used).IsTyped where
  ref := Refs.isText_choose h.isText_nameAtVersion _ _
  component := h.settled

/-- **All that is written of typed components is typed**, references included. -/
theorem Writes.isTyped {n : Nat} {g : Graph n} {refs : Fin n → Field} {used : List Field}
    {waiting : List (Fin n)} {log : List (Fin n × Mark)} (h : Writes g refs used waiting log)
    (hrefs : ∀ i, (refs i).isText) (htyped : ∀ q ∈ log, (g.component q.1).IsTyped) :
    ∀ q ∈ log, q.2.IsTyped := by
  induction h with
  | done => simp
  | @mention refs _ i _ _ _ _ ih =>
    rw [List.forall_mem_cons] at htyped ⊢
    exact ⟨hrefs i, ih hrefs htyped.2⟩
  | @full refs used i _ w _ _ hw _ ih =>
    rw [List.forall_mem_cons] at htyped ⊢
    have hwritten : w.IsTyped := hw ▸ htyped.1.written used
    refine ⟨hwritten, ih (fun j => ?_) htyped.2⟩
    rw [Function.update_apply]
    split
    · exact hwritten.ref
    · exact hrefs j

/-! ## §3. Entries of what is typed. -/

namespace Json

theorem isTextual_of_isText {j : Json} (h : j.isText) : j.IsTextual := by
  obtain ⟨s, rfl⟩ := isText_iff.1 h
  exact .text s

theorem isTextual_of_mem {f : Field} (h : f.isText) : ∀ j ∈ f, j.IsTextual := by
  rintro j rfl
  exact isTextual_of_isText h

/-- A text that may be missing. -/
theorem isTextual_of_mem_map_text (o : Option String) : ∀ j ∈ o.map Json.text, j.IsTextual := by
  intro j hj
  obtain ⟨s, -, rfl⟩ := Option.map_eq_some_iff.1 hj
  exact .text s

/-- A list of texts that may be missing. -/
theorem isTextual_of_mem_map_array {o : Option (List Json)} (h : ∀ j ∈ o.getD [], j.isText) :
    ∀ j ∈ o.map Json.array, j.IsTextual := by
  intro j hj
  obtain ⟨items, rfl, rfl⟩ := Option.map_eq_some_iff.1 hj
  exact .array fun v hv => isTextual_of_isText (h v hv)

theorem isTextual_of_mem_nonempty {items : List Json} (h : ∀ j ∈ items, j.IsTextual) :
    ∀ j ∈ nonempty items, j.IsTextual := by
  intro j hj
  unfold nonempty at hj
  split at hj
  · contradiction
  · obtain rfl := Option.some.inj hj
    exact .array h

/-- Absent fields leave no name behind. -/
theorem map_fst_present_sublist (fields : List (String × Field)) :
    ((fields.filterMap fun f => f.2.map (f.1, ·)).map (·.1)).Sublist (fields.map (·.1)) := by
  induction fields with
  | nil => exact .slnil
  | cons p fields ih =>
    obtain ⟨name, f⟩ := p
    cases f with
    | none => exact ih.cons name
    | some j => exact ih.cons_cons name

/-- **An object is textual** if its fields are, and have different names. -/
theorem isTextual_ofFields {fields : List (String × Field)} (hnames : (fields.map (·.1)).Nodup)
    (h : ∀ f ∈ fields, ∀ j ∈ f.2, j.IsTextual) : (ofFields fields).IsTextual := by
  refine .object (hnames.sublist (map_fst_present_sublist fields)) fun m hm => ?_
  obtain ⟨f, hf, hm⟩ := List.mem_filterMap.1 hm
  obtain ⟨j, hj, rfl⟩ := Option.map_eq_some_iff.1 hm
  exact h f hf j hj

end Json

theorem Property.isTextual_toJson {p : Property} (h : p.value.isText) : p.toJson.IsTextual := by
  refine Json.isTextual_ofFields (by simp) ?_
  rw [List.forall_mem_cons, List.forall_mem_singleton]
  exact ⟨Json.isTextual_of_mem rfl, Json.isTextual_of_mem h⟩

theorem Vulnerability.isTextual_idJson {v : Vulnerability} (h : v.id.isText) :
    v.idJson.IsTextual := by
  unfold idJson
  cases hid : v.id with
  | none => exact .null
  | some j => exact Json.isTextual_of_mem h j hid

/-- The members of a typed component are textual. -/
theorem Written.IsTyped.isTextual_fields {w : Written} (h : w.IsTyped) :
    ∀ f ∈ w.fields, ∀ j ∈ f.2, j.IsTextual := by
  have hc := h.component
  have hproperties : ∀ j ∈ w.component.properties.map Property.toJson, j.IsTextual := by
    intro j hj
    obtain ⟨p, hp, rfl⟩ := List.mem_map.1 hj
    exact Property.isTextual_toJson (hc.properties p hp)
  have hvulnerabilities : ∀ j ∈ w.component.vulnerabilityList.map Vulnerability.idJson,
      j.IsTextual := by
    intro j hj
    obtain ⟨v, hv, rfl⟩ := List.mem_map.1 hj
    exact Vulnerability.isTextual_idJson (hc.vulnerabilities v hv)
  simp only [fields, List.forall_mem_cons]
  exact ⟨Json.isTextual_of_mem h.ref, Json.isTextual_of_mem_map_text _,
    Json.isTextual_of_mem hc.name, Json.isTextual_of_mem hc.group,
    Json.isTextual_of_mem hc.version, Json.isTextual_of_mem_map_text _,
    Json.isTextual_of_mem hc.supplier, Json.isTextual_of_mem_map_array hc.licenses,
    Json.isTextual_of_mem_map_array hc.hashes, Json.isTextual_of_mem_nonempty hproperties,
    Json.isTextual_of_mem_nonempty hvulnerabilities, by simp⟩

namespace Entry

theorem isTextual_ref {r : Field} (h : r.isText) : (Entry.ref r).toJson.IsTextual := by
  refine Json.isTextual_ofFields (by simp) ?_
  rw [List.forall_mem_singleton]
  exact Json.isTextual_of_mem h

/-- An entry in full is textual if its component is typed and the entries below it
are textual. -/
theorem isTextual_full {w : Written} (hw : w.IsTyped) {below : List Entry}
    (hbelow : ∀ e ∈ below, e.toJson.IsTextual) : (Entry.full w below).toJson.IsTextual := by
  rw [toJson_full]
  refine Json.isTextual_ofFields (by simp [members, Written.fields]) ?_
  rw [members, List.forall_mem_append, List.forall_mem_singleton]
  refine ⟨hw.isTextual_fields, Json.isTextual_of_mem_nonempty fun j hj => ?_⟩
  obtain ⟨e, he, rfl⟩ := List.mem_map.1 hj
  exact hbelow e he

end Entry

/-- **Typed marks spell textual entries.** -/
theorem Mark.isTextual_nest {marks : List Mark} (h : ∀ m ∈ marks, m.IsTyped) :
    ∀ e ∈ nest marks, e.toJson.IsTextual := by
  -- from the end: each mark takes some of the entries behind it below itself
  induction marks with
  | nil => exact fun e he => absurd he List.not_mem_nil
  | cons m marks ih =>
    rw [List.forall_mem_cons] at h
    have hrest := ih h.2
    show ∀ e ∈ m.place (nest marks), _
    cases m with
    | full w arity =>
      rw [place, List.forall_mem_cons]
      exact ⟨Entry.isTextual_full h.1 fun e he => hrest e (List.mem_of_mem_take he),
        fun e he => hrest e (List.mem_of_mem_drop he)⟩
    | ref r =>
      rw [place, List.forall_mem_cons]
      exact ⟨Entry.isTextual_ref h.1, hrest⟩

/-! ## §4. The document. -/

theorem isTextual_document (timestamp : String) {e : Entry} (h : e.toJson.IsTextual) :
    (document timestamp e).IsTextual := by
  have htool : (Json.object [("name", .text toolName), ("version", .text toolVersion)]).IsTextual :=
    .object (by simp) (by simp [Json.IsTextual.text])
  have hmetadata : (Json.object [("timestamp", .text timestamp), ("tool",
      .object [("name", .text toolName), ("version", .text toolVersion)])]).IsTextual :=
    .object (by simp) (by simp [Json.IsTextual.text, htool])
  exact .object (by simp) (by simp [h, hmetadata])

namespace Graph

variable {n : Nat} {g : Graph n} {root : Fin n} {timestamp : String} {doc : Json}

/-- **The document of typed components is textual.** -/
theorem isTextual_of_document (hdoc : g.document root timestamp = .ok doc)
    (htyped : ∀ i, g.Reaches [root] i → (g.component i).IsTyped) : doc.IsTextual := by
  obtain ⟨e, log, rfl, hnest, hwrites, -⟩ := exists_nest_of_document hdoc
  have hlog : ∀ q ∈ log, q.2.IsTyped := hwrites.isTyped (fun _ => rfl) fun q hq =>
    htyped q.1 (reaches_of_writes hwrites q hq)
  have hmarks : ∀ m ∈ log.map (·.2), m.IsTyped := by
    intro m hm
    obtain ⟨q, hq, rfl⟩ := List.mem_map.1 hm
    exact hlog q hq
  have he : e ∈ Mark.nest (log.map (·.2)) := hnest ▸ List.mem_singleton_self e
  exact isTextual_document timestamp (Mark.isTextual_nest hmarks e he)

/-- The indent of a document is white space, in both forms. -/
theorem isBlank_of_mem_indent (s : Command.Settings) : ∀ c ∈ s.indent.toList, Json.isBlank c := by
  rw [← List.all_eq_true]
  unfold Command.Settings.indent
  split <;> decide

/-- **Pretty and compact output are one document.**  If all components that can be
reached are typed and there is a document, then under all settings that ask for it
one text is printed, which is read as the document, also with the line break behind
it; and the compact text has none of the characters below the space, such as line
feeds and carriage returns. -/
theorem printed_reads_back (g : Graph n) (root : Fin n) (timestamp : String) {doc : Json}
    (hdoc : g.document root timestamp = .ok doc)
    (htyped : ∀ i, g.Reaches [root] i → (g.component i).IsTyped) (s : Command.Settings)
    (hs : s.asDocument) (colour : Bool) :
    ∃ text, Command.texts s colour timestamp ⟨n, g, root⟩ = .ok [text]
      ∧ Json.ofString? text = some doc
      ∧ Json.ofString? (Command.Display.printed { texts := [text] }) = some doc
      ∧ (s.pretty = false → ∀ c ∈ text.toList, 0x20 ≤ c.toNat) := by
  have htextual := isTextual_of_document hdoc htyped
  have hread : Json.ofString? (Json.pretty s.indent doc) = some doc :=
    Json.ofString?_pretty (isBlank_of_mem_indent s) htextual
  refine ⟨Json.pretty s.indent doc, ?_, hread, ?_, fun hcompact => ?_⟩
  · rw [Command.texts, if_pos hs, hdoc]
  · have hprinted : Command.Display.printed { texts := [Json.pretty s.indent doc] }
        = Json.pretty s.indent doc ++ "\n" := by
      simp [Command.Display.printed, String.join]
    rw [hprinted]
    exact Json.ofString?_append_blanks hread (List.all_eq_true.1 rfl)
  · rw [Command.Settings.indent, if_neg (by simp [hcompact])]
    exact htextual.isPrintable_pretty

/-- Two components, each above both, with quotes, backslashes, control characters and line
separators in names, values and identifiers; one vulnerability has no identifier, and
one list of licenses is empty. -/
def quoting : Graph 2 where
  nodes := #v[
    ⟨{ type := some "application"
       name := .ofText "a \"quoted\" name\\\x00\n\u2028"
       licenses := some []
       properties := [⟨toolScope, "\t", .ofText ""⟩] }, (List.finRange 2).reverse⟩,
    ⟨{ name := .ofText "\x1f"
       version := .ofText "\r\x7f"
       hashes := some [.text "\x08\x0c/"]
       vulnerabilities := some [⟨.object [("VulnerabilityID", .text "CVE-\"1\"")]⟩, ⟨.object []⟩] },
      List.finRange 2⟩]

/-- The two texts are read alike. -/
theorem quoting_reads_back :
    ∃ doc compact pretty, quoting.document 0 "2024-01-01T00:00:00.000Z" = .ok doc
      ∧ Command.texts ⟨"report.json", true, false, []⟩ false "2024-01-01T00:00:00.000Z"
        ⟨2, quoting, 0⟩ = .ok [compact]
      ∧ Command.texts ⟨"report.json", true, true, []⟩ false "2024-01-01T00:00:00.000Z"
        ⟨2, quoting, 0⟩ = .ok [pretty]
      ∧ Json.ofString? compact = some doc ∧ Json.ofString? pretty = some doc
      ∧ ∀ c ∈ compact.toList, 0x20 ≤ c.toNat := by
  have hpurl : ∀ i, (quoting.component i).purl = none := by decide
  have htyped : ∀ i, (quoting.component i).IsTyped := by
    intro i
    constructor <;> revert i <;> decide
  obtain ⟨doc, hdoc⟩ : ∃ doc, quoting.document 0 "2024-01-01T00:00:00.000Z" = .ok doc :=
    exists_document_iff.2 fun i _ => by rw [Component.isWritable, hpurl]; rfl
  obtain ⟨compact, hcompact, hread, -, hprintable⟩ := quoting.printed_reads_back 0 _ hdoc
    (fun i _ => htyped i) ⟨"report.json", true, false, []⟩ rfl false
  obtain ⟨pretty, hpretty, hread', -, -⟩ := quoting.printed_reads_back 0 _ hdoc
    (fun i _ => htyped i) ⟨"report.json", true, true, []⟩ rfl false
  exact ⟨doc, compact, pretty, hdoc, hcompact, hpretty, hread, hread', hprintable rfl⟩

end Graph

end ComponentGraph
