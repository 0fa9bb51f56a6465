/-
  ComponentGraph.Proofs.Purl.FilePath
  ────────────────────────────────
  **THE PATH OF AN ARCHIVE SURVIVES.**

  What was read has a type and a name, no empty subpath, and qualifiers in
  order (`isRead_of_parse`); a package URL like this can be made of its parts
  (`IsRead.checked`).  Taking up the path of a file keeps it so, and leaves
  everything else as it is.  Two emptinesses remain that the written form
  cannot tell: where scope and version are free of them, what is written reads
  back, with the path in it (`path_survives`).
-/
import ComponentGraph.Proofs.Purl.Qualifiers
import ComponentGraph.Proofs.Steps
import ComponentGraph.Purl.Reading

namespace ComponentGraph.Purl

open ComponentGraph.Text

variable {p : Purl}

/-! ## §1. What was read. -/

/-- What reading makes sure of. -/
structure IsRead (p : Purl) : Prop where
  type : p.type ≠ ""
  name : p.name ≠ ""
  qualifiers : ∀ qs, p.qualifiers = some qs → AreQualifiers qs
  subpath : ∀ s, p.subpath = some s → s ≠ ""

theorem decodePart_ne_empty {raw : List Char} {s : String} (h : decodePart raw = .ok s)
    (hraw : raw ≠ []) : s ≠ "" := by
  unfold decodePart at h
  split at h
  · rename_i cs hcs
    obtain rfl := Except.ok.inj h
    intro he
    obtain rfl : cs = [] := by simpa using he
    exact hraw (Percent.eq_nil_of_decode? hcs)
  · contradiction

theorem rawType?_ne_nil {rest raw : List Char} (h : rawType? rest = some raw) : raw ≠ [] := by
  unfold rawType? at h
  split at h
  · split at h
    · rename_i hne
      obtain rfl := Option.some.inj h
      exact hne.1
    · contradiction
  · contradiction

theorem subpathOf_ne_empty {fragment : Option (List Char)} {s : String}
    (h : subpathOf fragment = .ok (some s)) : s ≠ "" := by
  unfold subpathOf at h
  split at h
  · cases Except.ok.inj h
  · rename_i cs hcs
    cases hdecode : decodePart (fragment.getD []) with
    | error e =>
      rw [hdecode] at h
      contradiction
    | ok t =>
      rw [hdecode] at h
      obtain rfl := Option.some.inj (Except.ok.inj h)
      exact decodePart_ne_empty hdecode hcs

theorem nameOf_ne_empty {pieces : List (List Char)} {scope : Option String} {name : String}
    (h : nameOf pieces = .ok (scope, name)) : name ≠ "" := by
  unfold nameOf at h
  split at h
  · contradiction
  · obtain ⟨before, -, h⟩ := bind_eq_ok_iff.1 h
    obtain ⟨read, -, h⟩ := bind_eq_ok_iff.1 h
    split at h
    · contradiction
    · rename_i hne
      split at h
      all_goals
        obtain ⟨-, rfl⟩ := Prod.mk.inj (Except.ok.inj h)
        exact hne

/-- **Where the parts of a package URL were read from.** -/
theorem exists_url_of_parse {s : String} (h : parse s = .ok p) :
    ∃ raw url, rawType? (cutScheme s.toList).2 = some raw ∧ decodePart raw = .ok p.type
      ∧ Url.parse? s.toList = some url ∧ subpathOf url.fragment = .ok p.subpath
      ∧ nameOf ((split '/' (cut '@' ((trim url.path).dropWhile (· = '/'))).1).drop 1)
        = .ok (p.scope, p.name)
      ∧ versionOf (cut '@' ((trim url.path).dropWhile (· = '/'))).2 = .ok p.version
      ∧ badKey? url.query = none ∧ qualifiersOf url.query = p.qualifiers := by
  simp only [parse] at h
  obtain ⟨-, h⟩ := guard_eq_ok_iff.1 h
  obtain ⟨-, h⟩ := guard_eq_ok_iff.1 h
  split at h
  · rename_i raw hraw
    obtain ⟨type, htype, h⟩ := bind_eq_ok_iff.1 h
    split at h
    · rename_i url hurl
      obtain ⟨subpath, hsubpath, h⟩ := bind_eq_ok_iff.1 h
      obtain ⟨-, h⟩ := guard_eq_ok_iff.1 h
      obtain ⟨version, hversion, h⟩ := bind_eq_ok_iff.1 h
      obtain ⟨named, hnamed, h⟩ := bind_eq_ok_iff.1 h
      split at h
      · contradiction
      · rename_i hkey
        obtain rfl := Except.ok.inj h
        exact ⟨raw, url, hraw, htype, hurl, hsubpath, hnamed, hversion,
          Option.eq_none_iff_forall_ne_some.2 hkey, rfl⟩
    · contradiction
  · contradiction

theorem isRead_of_parse {s : String} (h : parse s = .ok p) : p.IsRead := by
  obtain ⟨raw, url, hraw, htype, -, hsubpath, hnamed, -, hkey, hqualifiers⟩ :=
    exists_url_of_parse h
  exact {
    type := decodePart_ne_empty htype (rawType?_ne_nil hraw)
    name := nameOf_ne_empty hnamed
    qualifiers := fun qs hqs => areQualifiers_qualifiersOf hkey (hqualifiers.trans hqs)
    subpath := fun s hs => subpathOf_ne_empty (hsubpath.trans (congrArg Except.ok hs)) }

theorem read_ofText (s : String) : Purl.read (.ofText s) = (parse s).mapError (.unreadable s) :=
  rfl

theorem isRead_of_read {f : Field} (h : Purl.read f = .ok p) : p.IsRead := by
  unfold Purl.read at h
  split at h
  · exact isRead_of_parse (mapError_eq_ok_iff.1 h)
  · contradiction

/-! ## §2. What was read can be made of parts. -/

namespace IsRead

theorem areQualifiers (h : p.IsRead) : AreQualifiers (p.qualifiers.getD []) := by
  cases hq : p.qualifiers with
  | none => exact AreQualifiers.nil
  | some qs => exact h.qualifiers qs hq

/-- **What was read passes the checks of one made of parts.** -/
theorem checked (h : p.IsRead) : p.checked = .ok p := by
  have hkeys : (p.qualifiers.getD []).find? (fun q => !Purl.isKey q.1) = none := by
    rw [List.find?_eq_none]
    intro q hq
    simp [h.areQualifiers.isKey q hq]
  rw [Purl.checked, if_neg h.type, if_neg h.name, hkeys]

/-- One more qualifier does not hurt. -/
theorem withQualifier (h : p.IsRead) {key : String} (hkey : Purl.isKey key)
    (hlost : key ≠ lostKey) (value : String) : (p.withQualifier key value).IsRead where
  type := h.type
  name := h.name
  qualifiers _ hqs := Option.some.inj hqs ▸ h.areQualifiers.setKey hkey hlost
  subpath := h.subpath

/-- **Only an empty text in a place of its own is lost by writing.** -/
theorem isLegible (h : p.IsRead)
    (hscope : ∀ s, p.scope = some s → s ≠ "" ∧ s.toList.head? ≠ some '/')
    (hversion : ∀ s, p.version = some s → s ≠ "") (hqualifiers : p.qualifiers ≠ some []) :
    p.IsLegible where
  type := h.type
  scope := hscope
  name := h.name
  version := hversion
  qualifiers qs hqs := ⟨fun he => hqualifiers (he ▸ hqs), h.qualifiers qs hqs⟩
  subpath := h.subpath

end IsRead

/-! ## §3. Paths. -/

/-- An archive's package URL is written as it is. -/
theorem settled_of_archive (h : p.type = archiveType) : p.settled = p := by
  have hspelled : spelledName p.type p.name = p.name := by
    rw [h, spelledName, if_neg (by decide), if_neg (by decide)]
  rw [settled, hspelled]

theorem text?_of_archive (h : p.type = archiveType) : p.text? = .ok (String.ofList p.chars) := by
  have hpub : archiveType ≠ "pub" := by decide
  have hallowed : p.isWritable := by simp [isWritable, allowsName, h, hpub]
  rw [text?_of_isWritable hallowed, settled_of_archive h]

theorem withPath_of_archive (h : p.type = archiveType) {path : String} (hpath : path ≠ "") :
    p.withPath (.ofText path) = p.withQualifier filePathKey path := by
  have htakes : p.takesPath (.ofText path) := by
    simp [takesPath, Field.ofText, Field.isFilled, Json.isFilled, h, hpath]
  rw [withPath, if_pos htakes]
  rfl

/-- **The path of an archive survives.**  The package URL that has taken it up passes
the checks of one made of parts.  The path has its place among the qualifiers, in
place of another path that was there, and nothing else changes; and what is
written then reads back, unless scope or version is one that no written form can
tell. -/
theorem path_survives {f : Field} {path : String} (h : Purl.read f = .ok p)
    (htype : p.type = archiveType) (hpath : path ≠ "") :
    (p.withPath (.ofText path)).checked = .ok (p.withPath (.ofText path))
      ∧ (∃ qs, p.withPath (.ofText path) = { p with qualifiers := some qs }
        ∧ (qs.map (·.1)).Nodup
        ∧ ∀ key, Table.find? key qs
          = if key = filePathKey then some path else Table.find? key (p.qualifiers.getD []))
      ∧ ((∀ s, p.scope = some s → s ≠ "" ∧ s.toList.head? ≠ some '/') →
        (∀ s, p.version = some s → s ≠ "") →
        ∃ text, (p.withPath (.ofText path)).text? = .ok text
          ∧ Purl.read (.ofText text) = .ok (p.withPath (.ofText path))) := by
  have hkey : isKey filePathKey := by decide
  have hread : (p.withQualifier filePathKey path).IsRead :=
    (isRead_of_read h).withQualifier hkey (by decide) path
  rw [withPath_of_archive htype hpath]
  refine ⟨hread.checked, ⟨setKey filePathKey path (p.qualifiers.getD []), rfl, ?_, ?_⟩, ?_⟩
  · exact hread.areQualifiers.nodup
  · exact find?_setKey filePathKey path (p.qualifiers.getD [])
  · intro hscope hversion
    have hlegible : (p.withQualifier filePathKey path).IsLegible :=
      hread.isLegible hscope hversion fun he => setKey_ne_nil _ _ _ (Option.some.inj he)
    refine ⟨_, text?_of_archive htype, ?_⟩
    rw [read_ofText, parse_chars hlegible, mapError_ok]

/-- An archive that was found in another place before. -/
def movedJar : Purl where
  type := "maven"
  scope := some "org.acme"
  name := "lib"
  version := some "1.0"
  qualifiers := some [("file_path", "old.jar"), ("type", "jar")]
  subpath := some "sub"

theorem movedJar_path_survives :
    Purl.read (.ofText "pkg:maven/org.acme/lib@1.0?type=jar&file_path=old.jar#sub") = .ok movedJar
      ∧ ∃ text, (movedJar.withPath (.ofText "/lib/a b&c=d?e#f@%2F+é.jar")).text? = .ok text
        ∧ Purl.read (.ofText text)
          = .ok (movedJar.withPath (.ofText "/lib/a b&c=d?e#f@%2F+é.jar")) := by
  have hread : Purl.read (.ofText "pkg:maven/org.acme/lib@1.0?type=jar&file_path=old.jar#sub")
      = .ok movedJar := by decide +kernel
  refine ⟨hread, (path_survives hread rfl (by decide)).2.2 ?_ ?_⟩
  · intro scope hscope
    obtain rfl : "org.acme" = scope := Option.some.inj hscope
    decide
  · intro version hversion
    obtain rfl : "1.0" = version := Option.some.inj hversion
    decide

end ComponentGraph.Purl
