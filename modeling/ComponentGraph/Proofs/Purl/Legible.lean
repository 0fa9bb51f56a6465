/-
  ComponentGraph.Proofs.Purl.Legible
  ────────────────────────────────
  **A LEGIBLE PACKAGE URL READS BACK.**

  Reading looks for the separators of the written form one after the other:
  the number sign, the question mark, the at sign and the slashes.

      pkg:type/scope/name@version?qualifiers#subpath

  No part in front of a separator holds it, so each cut meets the one that was
  written.  What the written form cannot tell apart is empty and missing.  A
  package URL where nothing is empty (`IsLegible`) is read back as it is
  (`parse_chars`).
-/
import ComponentGraph.Purl.Parse
import ComponentGraph.Proofs.Purl.Parts
import ComponentGraph.Proofs.Purl.Spelling

namespace ComponentGraph.Purl

open ComponentGraph.Text

/-! ## §1. Qualifiers. -/

/-- Does the first qualifier come before the second one, at another key? -/
def Precedes (a b : String × String) : Prop := a.1 ≠ b.1 ∧ atOrBefore b.1 a.1 = false

/-- May these be the qualifiers of a package URL that was read?  Their keys
are allowed and sorted, and none of them is lost. -/
structure AreQualifiers (qs : List (String × String)) : Prop where
  isKey : ∀ q ∈ qs, isKey q.1
  notLost : ∀ q ∈ qs, q.1 ≠ lostKey
  sorted : qs.Pairwise Precedes

def pairChars (q : String × String) : List Char :=
  encodeKeeping [':'] q.1 ++ '=' :: encodeKeeping ['/'] q.2

theorem isOver_pairChars (q : String × String) : IsOver ['%', ':', '/', '='] (pairChars q) :=
  (isOver_encode q.1 (by decide)).append (.cons (by decide) (isOver_encode q.2 (by decide)))

/-- **The pairs of a query are the qualifiers that it was made of.** -/
theorem formPairs_qualifierChars (qs : List (String × String)) :
    formPairs (qualifierChars qs) = qs := by
  cases qs with
  | nil => rfl
  | cons q qs =>
    have hsplit : split '&' (qualifierChars (q :: qs)) = (q :: qs).map pairChars := by
      apply split_join (by simp)
      intro piece hp
      obtain ⟨q', -, rfl⟩ := List.mem_map.1 hp
      exact (isOver_pairChars q').not_mem (by decide)
    have hne : ∀ piece ∈ (q :: qs).map pairChars, decide (piece ≠ []) = true := by
      intro piece hp
      obtain ⟨q', -, rfl⟩ := List.mem_map.1 hp
      simp [pairChars]
    rw [formPairs, hsplit, List.filter_eq_self.2 hne, List.map_map]
    refine (List.map_congr_left fun q' _ => ?_).trans (List.map_id _)
    have hkey : '=' ∉ encodeKeeping [':'] q'.1 :=
      (isOver_encodeKeeping [':'] q'.1).not_mem (by decide)
    have hcut : cut '=' (pairChars q')
        = (encodeKeeping [':'] q'.1, some (encodeKeeping ['/'] q'.2)) :=
      cut_append_behind hkey (some _)
    simp only [Function.comp_apply, hcut, Option.getD_some]
    rw [formText_encodeKeeping (by decide) (by decide),
      formText_encodeKeeping (by decide) (by decide)]
    rfl

/-- A key goes behind all that precede it. -/
theorem setKey_of_precedes {q : String × String} {before : List (String × String)}
    (h : ∀ a ∈ before, Precedes a q) : setKey q.1 q.2 before = before ++ [q] := by
  induction before with
  | nil => rfl
  | cons a before ih =>
    rw [List.forall_mem_cons] at h
    rw [setKey, if_neg h.1.1, if_neg (by simp [h.1.2]), ih h.2, List.cons_append]

/-- Putting in sorted qualifiers one after the other gives them back. -/
theorem foldl_setKey {before qs : List (String × String)} (h : (before ++ qs).Pairwise Precedes) :
    qs.foldl (fun acc (k, v) => setKey k v acc) before = before ++ qs := by
  induction qs generalizing before with
  | nil => simp
  | cons q qs ih =>
    have hq : ∀ a ∈ before, Precedes a q := fun a ha =>
      (List.pairwise_append.1 h).2.2 a ha q List.mem_cons_self
    rw [← List.singleton_append, ← List.append_assoc] at h
    rw [List.foldl_cons]
    show List.foldl _ (setKey q.1 q.2 before) qs = _
    rw [setKey_of_precedes hq, ih h, List.append_assoc, List.singleton_append]

theorem qualifiersOf_qualifierChars {qs : List (String × String)} (hne : qs ≠ [])
    (h : AreQualifiers qs) : qualifiersOf (some (qualifierChars qs)) = some qs := by
  have hkept : qs.filter (·.1 ≠ lostKey) = qs :=
    List.filter_eq_self.2 fun q hq => by simpa using h.notLost q hq
  unfold qualifiersOf
  rw [Option.getD_some, formPairs_qualifierChars]
  cases qs with
  | nil => contradiction
  | cons q qs =>
    have hsorted : ([] ++ q :: qs).Pairwise Precedes := h.sorted
    simp only [hkept]
    rw [foldl_setKey hsorted, List.nil_append]

theorem badKey?_qualifierChars {qs : List (String × String)} (h : AreQualifiers qs) :
    badKey? (some (qualifierChars qs)) = none := by
  rw [badKey?, Option.getD_some, formPairs_qualifierChars, Option.map_eq_none_iff,
    List.find?_eq_none]
  intro q hq
  simp [h.isKey q hq]

/-! ## §2. Legible package URLs. -/

/-- Can the written form tell what this is?  Nothing is empty, the scope does not
begin with a slash, and the qualifiers may be those of one that was read. -/
structure IsLegible (p : Purl) : Prop where
  type : p.type ≠ ""
  scope : ∀ s, p.scope = some s → s ≠ "" ∧ s.toList.head? ≠ some '/'
  name : p.name ≠ ""
  version : ∀ s, p.version = some s → s ≠ ""
  qualifiers : ∀ qs, p.qualifiers = some qs → qs ≠ [] ∧ AreQualifiers qs
  subpath : ∀ s, p.subpath = some s → s ≠ ""

/-- Scope and name as they are written. -/
def scopedName (p : Purl) : List Char :=
  optionalPart [] [':', '/'] ['/'] p.scope ++ encodeKeeping [':'] p.name

/-- All in front of the version. -/
def location (p : Purl) : List Char := encodeKeeping [] p.type ++ '/' :: p.scopedName

/-- All in front of the qualifiers. -/
def path (p : Purl) : List Char := p.location ++ behind '@' (p.version.map encodeVersion)

def query (p : Purl) : Option (List Char) := p.qualifiers.map qualifierChars

def fragment (p : Purl) : Option (List Char) := p.subpath.map (encodeKeeping [':', '/'])

/-- All behind the scheme. -/
def unschemed (p : Purl) : List Char := p.path ++ behind '?' p.query ++ behind '#' p.fragment

variable {p : Purl}

/-- A part that is not empty is written behind its separator. -/
theorem optionalPart_eq_behind {o : Option String} (h : ∀ s, o = some s → s ≠ "") (x : Char)
    (keep : List Char) : optionalPart [x] keep [] o = behind x (o.map (encodeKeeping keep)) := by
  cases o with
  | none => rfl
  | some s => simp [optionalPart, behind, h s rfl]

theorem chars_eq (h : p.IsLegible) : p.chars = ['p', 'k', 'g'] ++ ':' :: p.unschemed := by
  have hscheme : "pkg:".toList = ['p', 'k', 'g', ':'] := by decide
  have hversion : optionalPart ['@'] [':', '+'] [] p.version
      = behind '@' (p.version.map encodeVersion) := optionalPart_eq_behind h.version '@' [':', '+']
  unfold chars
  rw [hscheme, hversion, optionalPart_eq_behind h.subpath]
  simp only [unschemed, path, location, scopedName, query, fragment, List.append_assoc,
    List.cons_append, List.nil_append]
  cases p.qualifiers with
  | none => rfl
  | some qs => rfl

/-! ## §3. What each part is over. -/

theorem isOver_scopedName (p : Purl) : IsOver ['%', ':', '/'] p.scopedName := by
  refine .append ?_ (isOver_encode p.name (by decide))
  unfold optionalPart
  split
  · exact .nil
  · split
    · exact .nil
    · exact (isOver_encode _ (by decide)).append (.cons (by decide) .nil)

theorem isOver_location (p : Purl) : IsOver ['%', ':', '/'] p.location :=
  (isOver_encode p.type (by decide)).append (.cons (by decide) p.isOver_scopedName)

theorem isOver_path (p : Purl) : IsOver ['%', ':', '/', '+', '@'] p.path := by
  refine (p.isOver_location.mono (by decide)).append (.behind (by decide) fun cs hcs => ?_)
  obtain ⟨s, -, rfl⟩ := Option.map_eq_some_iff.1 hcs
  exact isOver_encode s (by decide)

theorem isOver_query {cs : List Char} (h : p.query = some cs) :
    IsOver ['%', ':', '/', '=', '&'] cs := by
  obtain ⟨qs, -, rfl⟩ := Option.map_eq_some_iff.1 h
  refine .join (by decide) fun piece hp => ?_
  obtain ⟨q, -, rfl⟩ := List.mem_map.1 hp
  exact (isOver_pairChars q).mono (by decide)

/-- All in front of the subpath. -/
theorem isOver_unfragmented (p : Purl) :
    IsOver ['%', ':', '/', '+', '@', '=', '&', '?'] (p.path ++ behind '?' p.query) :=
  (p.isOver_path.mono (by decide)).append
    (.behind (by decide) fun _ hcs => (isOver_query hcs).mono (by decide))

theorem isOver_unschemed (p : Purl) :
    IsOver ['%', ':', '/', '+', '@', '=', '&', '?', '#'] p.unschemed := by
  refine (p.isOver_unfragmented.mono (by decide)).append (.behind (by decide) fun cs hcs => ?_)
  obtain ⟨s, -, rfl⟩ := Option.map_eq_some_iff.1 hcs
  exact isOver_encode s (by decide)

theorem visible_unschemed (p : Purl) : ∀ c ∈ p.unschemed, isVisible c :=
  p.isOver_unschemed.visible (by decide)

/-- **All that is written is visible.** -/
theorem visible_chars (h : p.IsLegible) : ∀ c ∈ p.chars, isVisible c := by
  have hscheme : ['p', 'k', 'g', ':'].all isVisible := by decide
  rw [chars_eq h, List.append_cons, List.forall_mem_append]
  exact ⟨List.all_eq_true.1 hscheme, p.visible_unschemed⟩

/-! ## §4. The slashes. -/

/-- What is written begins with the type, not with a slash. -/
theorem exists_path_cons (h : p.IsLegible) : ∃ x more, p.path = x :: more ∧ x ≠ '/' := by
  obtain ⟨x, rest, hx, hslash⟩ : ∃ x rest, encodeKeeping [] p.type = x :: rest ∧ x ≠ '/' :=
    exists_encodeKeeping_cons h.type (by decide)
  refine ⟨x, rest ++ '/' :: p.scopedName ++ behind '@' (p.version.map encodeVersion), ?_, hslash⟩
  rw [path, location, hx, List.cons_append, List.cons_append]

/-- What stands behind the type does not begin with another slash. -/
theorem exists_scopedName_cons (h : p.IsLegible) :
    ∃ x more, p.scopedName = x :: more ∧ x ≠ '/' := by
  unfold scopedName
  cases hs : p.scope with
  | none => exact exists_encodeKeeping_cons h.name (by decide)
  | some s =>
    obtain ⟨hne, hhead⟩ := h.scope s hs
    have hlist : s.toList ≠ [] := by simpa using hne
    obtain ⟨c, rest, hc⟩ := List.exists_cons_of_ne_nil hlist
    obtain ⟨x, more, hx, hxc⟩ := Percent.exists_encode_cons (Percent.keeping [':', '/']) c rest
    rw [optionalPart, if_neg hne, encodeKeeping, hc, hx]
    refine ⟨x, _, rfl, ?_⟩
    rcases hxc with rfl | rfl
    · rintro rfl
      exact hhead (by rw [hc, List.head?_cons])
    · decide

/-- No leading slash is lost. -/
theorem dropWhile_slash {x : Char} (hx : x ≠ '/') (rest : List Char) :
    (x :: rest).dropWhile (· = '/') = x :: rest :=
  List.dropWhile_cons_of_neg (by simpa using hx)

/-- The slash behind the type is the first one. -/
theorem split_type (p : Purl) (rest : List Char) :
    split '/' (encodeKeeping [] p.type ++ '/' :: rest)
      = encodeKeeping [] p.type :: split '/' rest := by
  rw [split_append_cons, split_of_not_mem ((isOver_encodeKeeping [] p.type).not_mem (by decide)),
    List.singleton_append]

theorem rawType?_unschemed (h : p.IsLegible) :
    rawType? p.unschemed = some (encodeKeeping [] p.type) := by
  have htype : encodeKeeping [] p.type ≠ [] := encodeKeeping_ne_nil h.type
  obtain ⟨x, more, hx, hslash⟩ := exists_path_cons h
  have hdrop : p.unschemed.dropWhile (· = '/') = p.unschemed := by
    rw [unschemed, hx]
    exact dropWhile_slash hslash _
  -- the piece behind the type is not empty either
  obtain ⟨y, rest, hy, hyslash⟩ := exists_scopedName_cons h
  obtain ⟨piece, pieces, -, hpieces⟩ := exists_split_cons hyslash
    (rest ++ behind '@' (p.version.map encodeVersion) ++ behind '?' p.query
      ++ behind '#' p.fragment)
  have hsplit : split '/' p.unschemed = encodeKeeping [] p.type :: (y :: piece) :: pieces := by
    rw [← hpieces, ← split_type, unschemed, path, location, hy]
    simp only [List.append_assoc, List.cons_append]
  rw [rawType?, trim_of_visible p.visible_unschemed, hdrop, hsplit]
  simp only [ne_eq, htype, not_false_eq_true, reduceCtorEq, and_self, if_true]

/-- The pieces of an encoded scope are decoded to the pieces of the scope. -/
theorem mapM_decodePart_split (s : String) :
    (split '/' (encodeKeeping [':', '/'] s)).mapM decodePart
      = .ok ((split '/' s.toList).map String.ofList) := by
  have hpieces : split '/' (encodeKeeping [':', '/'] s)
      = (split '/' s.toList).map (Percent.encode (Percent.keeping [':', '/'])) :=
    Percent.split_encode (by decide) (by decide) s.toList
  have hdecode : decodePart ∘ Percent.encode (Percent.keeping [':', '/'])
      = fun piece => Except.ok (String.ofList piece) :=
    funext fun piece => decodePart_encode (by decide) piece
  rw [hpieces, List.mapM_map, hdecode]
  exact List.mapM_pure

theorem intercalate_ofList (pieces : List (List Char)) :
    String.intercalate "/" (pieces.map String.ofList) = String.ofList (join '/' pieces) := by
  induction pieces with
  | nil => rfl
  | cons piece more ih =>
    cases more with
    | nil => simp [join]
    | cons next more =>
      rw [List.map_cons, List.map_cons, String.intercalate_cons_cons, ← List.map_cons, ih,
        join_cons_cons, String.ofList_append, String.ofList_cons, String.append_assoc]
      rfl

/-- **Scope and name are the pieces behind the type.** -/
theorem nameOf_location (h : p.IsLegible) :
    nameOf ((split '/' p.location).drop 1) = .ok (p.scope, p.name) := by
  have hsplit : split '/' (encodeKeeping [':'] p.name) = [encodeKeeping [':'] p.name] :=
    split_of_not_mem ((isOver_encodeKeeping [':'] p.name).not_mem (by decide))
  have hdecode : decodePart (encodeKeeping [':'] p.name) = .ok p.name :=
    decodePart_encodeKeeping (by decide) p.name
  rw [location, split_type, List.drop_one, List.tail_cons, scopedName]
  cases hs : p.scope with
  | none =>
    rw [optionalPart, List.nil_append, hsplit]
    simp [nameOf, hdecode, h.name, bind, Except.bind, pure, Except.pure]
  | some s =>
    have hpieces : split '/' s.toList ≠ [] := split_ne_nil '/' s.toList
    have hback : String.intercalate "/" ((split '/' s.toList).map String.ofList) = s := by
      rw [intercalate_ofList, join_split, String.ofList_toList]
    rw [optionalPart, if_neg (h.scope s hs).1, List.nil_append, List.append_assoc,
      List.singleton_append, split_append_cons, hsplit, nameOf, List.getLast?_concat]
    simp only [List.dropLast_concat, mapM_decodePart_split, hdecode, bind, Except.bind]
    rw [if_neg h.name, if_neg (by simpa using hpieces), hback]

/-! ## §5. The whole. -/

/-- **What is written is a URL with these parts.** -/
theorem url_chars (h : p.IsLegible) :
    Url.parse? p.chars = some ⟨p.path, p.query, p.fragment, false⟩ := by
  obtain ⟨x, more, hx, hslash⟩ := exists_path_cons h
  have hfragment : cut '#' p.unschemed = (p.path ++ behind '?' p.query, p.fragment) :=
    cut_append_behind (p.isOver_unfragmented.not_mem (by decide)) p.fragment
  have hquery : cut '?' (p.path ++ behind '?' p.query) = (p.path, p.query) :=
    cut_append_behind (p.isOver_path.not_mem (by decide)) p.query
  have hflat : Percent.encode Url.staysFlat p.path = p.path :=
    encode_staysFlat (p.isOver_path.visible (by decide))
  rw [Url.parse?, clean_of_visible (visible_chars h), chars_eq h, cut?_append (by decide),
    Option.bind_some]
  simp only [Url.afterScheme?, hfragment, hquery]
  split
  · rename_i hpath
    rw [hx] at hpath
    exact absurd (List.cons.inj hpath).1 hslash
  · rename_i hpath
    rw [hx] at hpath
    exact absurd (List.cons.inj hpath).1 hslash
  · rw [hflat]

theorem subpathOf_fragment (h : p.IsLegible) : subpathOf p.fragment = .ok p.subpath := by
  unfold fragment
  cases hs : p.subpath with
  | none => rfl
  | some s =>
    have hne : encodeKeeping [':', '/'] s ≠ [] := encodeKeeping_ne_nil (h.subpath s hs)
    have hdecode : decodePart (encodeKeeping [':', '/'] s) = .ok s :=
      decodePart_encodeKeeping (by decide) s
    rw [subpathOf, Option.map_some, Option.getD_some]
    split
    · contradiction
    · rw [hdecode]
      rfl

theorem versionOf_encodeVersion (version : Option String) :
    versionOf (version.map encodeVersion) = .ok version := by
  cases version with
  | none => rfl
  | some s =>
    have hdecode : decodePart (encodeVersion s) = .ok s := decodePart_encodeKeeping (by decide) s
    simp [versionOf, hdecode, bind, Except.bind]

theorem badKey?_query (h : p.IsLegible) : badKey? p.query = none := by
  unfold query
  cases hq : p.qualifiers with
  | none => rfl
  | some qs => exact badKey?_qualifierChars (h.qualifiers qs hq).2

theorem qualifiersOf_query (h : p.IsLegible) : qualifiersOf p.query = p.qualifiers := by
  unfold query
  cases hq : p.qualifiers with
  | none => rfl
  | some qs => exact qualifiersOf_qualifierChars (h.qualifiers qs hq).1 (h.qualifiers qs hq).2

/-- **A legible package URL is read back as it is.** -/
theorem parse_chars (h : p.IsLegible) : parse (String.ofList p.chars) = .ok p := by
  obtain ⟨x, more, hx, hslash⟩ := exists_path_cons h
  have hpath : (trim p.path).dropWhile (· = '/') = p.path := by
    rw [trim_of_visible (p.isOver_path.visible (by decide)), hx]
    exact dropWhile_slash hslash more
  have hcut : cut '@' p.path = (p.location, p.version.map encodeVersion) :=
    cut_append_behind (p.isOver_location.not_mem (by decide)) _
  have hscheme : cutScheme p.chars = (['p', 'k', 'g'], p.unschemed) := by
    rw [cutScheme, chars_eq h, cut?_append (by decide)]
  have htype : decodePart (encodeKeeping [] p.type) = .ok p.type :=
    decodePart_encodeKeeping (by decide) p.type
  unfold parse
  simp only [String.toList_ofList, trim_of_visible (visible_chars h), chars_ne_nil, hscheme,
    rawType?_unschemed h, htype, url_chars h, subpathOf_fragment h, hpath, hcut,
    versionOf_encodeVersion, nameOf_location h, badKey?_query h, qualifiersOf_query h]
  rfl

end ComponentGraph.Purl
