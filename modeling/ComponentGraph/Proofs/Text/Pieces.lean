/-
  ComponentGraph.Proofs.Text.Pieces
  ────────────────────────────────
  **PIECES GIVE THE TEXT BACK.**

  A text is put together from pieces with a character between them.  When no
  piece holds this character, cutting at it takes off the first piece
  (`cut_append_behind`), and splitting at it gives all the pieces (`split_join`).
  For any text, the pieces of a splitting make the text again (`join_split`).
-/
import ComponentGraph.Text.Pieces
import ComponentGraph.Text.Blank

namespace ComponentGraph.Text

/-! ## §1. Cutting at the first occurrence. -/

theorem cut?_append {c : Char} {a : List Char} (h : c ∉ a) (b : List Char) :
    cut? c (a ++ c :: b) = some (a, b) := by
  induction a with
  | nil => simp [cut?]
  | cons x a ih =>
    rw [List.mem_cons, not_or] at h
    simp [cut?, Ne.symm h.1, ih h.2]

theorem cut?_of_not_mem {c : Char} {a : List Char} (h : c ∉ a) : cut? c a = none := by
  induction a with
  | nil => rfl
  | cons x a ih =>
    rw [List.mem_cons, not_or] at h
    simp [cut?, Ne.symm h.1, ih h.2]

/-- **A cut is where the first separator stands.** -/
theorem cut?_eq_some_iff {c : Char} {cs a b : List Char} :
    cut? c cs = some (a, b) ↔ cs = a ++ c :: b ∧ c ∉ a := by
  constructor
  · intro h
    induction cs generalizing a with
    | nil => contradiction
    | cons x cs ih =>
      rw [cut?] at h
      split at h
      · rename_i hx
        obtain ⟨rfl, rfl⟩ := Prod.mk.inj (Option.some.inj h)
        exact ⟨by rw [hx, List.nil_append], List.not_mem_nil⟩
      · rename_i hx
        obtain ⟨⟨a', b'⟩, hcut, he⟩ := Option.map_eq_some_iff.1 h
        obtain ⟨rfl, rfl⟩ := Prod.mk.inj he
        obtain ⟨rfl, hmem⟩ := ih hcut
        refine ⟨rfl, ?_⟩
        rw [List.mem_cons, not_or]
        exact ⟨Ne.symm hx, hmem⟩
  · rintro ⟨rfl, h⟩
    exact cut?_append h b

/-- A cut at the last separator is one from behind. -/
theorem cutLast?_eq_some_iff {c : Char} {cs a b : List Char} :
    cutLast? c cs = some (a, b) ↔ cs = a ++ c :: b ∧ c ∉ b := by
  have hreverse : cutLast? c cs = some (a, b) ↔ cut? c cs.reverse = some (b.reverse, a.reverse) := by
    rw [cutLast?, Option.map_eq_some_iff]
    constructor
    · rintro ⟨⟨x, y⟩, hcut, he⟩
      obtain ⟨rfl, rfl⟩ := Prod.mk.inj he
      rw [hcut, List.reverse_reverse, List.reverse_reverse]
    · intro hcut
      exact ⟨_, hcut, by simp⟩
  rw [hreverse, cut?_eq_some_iff, List.mem_reverse, List.reverse_eq_iff, List.reverse_append,
    List.reverse_cons, List.reverse_reverse, List.reverse_reverse, List.append_assoc,
    List.singleton_append]

/-- A separator and what stands behind it, if there is anything. -/
def behind (c : Char) : Option (List Char) → List Char
  | none => []
  | some cs => c :: cs

/-- **Cutting undoes putting something behind a separator**, where there is no
separator before it. -/
theorem cut_append_behind {c : Char} {a : List Char} (h : c ∉ a) (b : Option (List Char)) :
    cut c (a ++ behind c b) = (a, b) := by
  cases b with
  | none => rw [behind, List.append_nil, cut, cut?_of_not_mem h]
  | some b => rw [behind, cut, cut?_append h]

/-- **Putting back undoes cutting.** -/
theorem append_behind_of_cut {c : Char} {cs a : List Char} {b : Option (List Char)}
    (h : cut c cs = (a, b)) : cs = a ++ behind c b ∧ c ∉ a := by
  unfold cut at h
  cases hcut : cut? c cs with
  | none =>
    rw [hcut] at h
    obtain ⟨rfl, rfl⟩ := Prod.mk.inj h
    refine ⟨(List.append_nil _).symm, fun hmem => ?_⟩
    obtain ⟨before, after, rfl, hbefore⟩ := List.eq_append_cons_of_mem hmem
    rw [cut?_append hbefore] at hcut
    contradiction
  | some p =>
    rw [hcut] at h
    obtain ⟨rfl, rfl⟩ := Prod.mk.inj h
    exact cut?_eq_some_iff.1 hcut

/-! ## §2. Splitting at all occurrences. -/

/-- A text has a piece before and behind each cut. -/
theorem split_ne_nil (c : Char) (cs : List Char) : split c cs ≠ [] := by
  cases cs with
  | nil => simp [split]
  | cons x rest =>
    unfold split
    split
    · simp
    · split <;> simp

theorem split_cons_self (c : Char) (cs : List Char) : split c (c :: cs) = [] :: split c cs := by
  simp [split]

/-- Any other character belongs to the first piece. -/
theorem exists_split_cons {c x : Char} (h : x ≠ c) (cs : List Char) :
    ∃ piece more, split c cs = piece :: more ∧ split c (x :: cs) = (x :: piece) :: more := by
  cases hs : split c cs with
  | nil => exact absurd hs (split_ne_nil c cs)
  | cons piece more => exact ⟨piece, more, rfl, by simp [split, h, hs]⟩

theorem split_append_cons (c : Char) (a b : List Char) :
    split c (a ++ c :: b) = split c a ++ split c b := by
  induction a with
  | nil => simp [split]
  | cons x a ih =>
    by_cases hx : x = c
    · subst hx
      rw [List.cons_append, split_cons_self, split_cons_self, ih, List.cons_append]
    · obtain ⟨piece, more, hs, hxs⟩ := exists_split_cons hx a
      rw [List.cons_append, hxs]
      obtain ⟨piece', more', hs', hxs'⟩ := exists_split_cons hx (a ++ c :: b)
      rw [ih, hs, List.cons_append, List.cons.injEq] at hs'
      rw [hxs', ← hs'.1, ← hs'.2, List.cons_append]

theorem split_of_not_mem {c : Char} {a : List Char} (h : c ∉ a) : split c a = [a] := by
  induction a with
  | nil => rfl
  | cons x a ih =>
    rw [List.mem_cons, not_or] at h
    simp [split, Ne.symm h.1, ih h.2]

theorem join_cons_cons (c : Char) (piece next : List Char) (more : List (List Char)) :
    join c (piece :: next :: more) = piece ++ c :: join c (next :: more) := rfl

/-- The last piece stands behind the last separator. -/
theorem join_concat (c : Char) {pieces : List (List Char)} (hne : pieces ≠ []) (last : List Char) :
    join c (pieces ++ [last]) = join c pieces ++ c :: last := by
  induction pieces with
  | nil => contradiction
  | cons piece more ih =>
    cases more with
    | nil => rfl
    | cons next more =>
      rw [List.cons_append, List.cons_append, join_cons_cons, ← List.cons_append, ih (by simp),
        join_cons_cons, List.append_assoc, List.cons_append]

/-- **Splitting undoes joining**, when there is a piece and none holds the character. -/
theorem split_join {c : Char} {pieces : List (List Char)} (hne : pieces ≠ [])
    (h : ∀ piece ∈ pieces, c ∉ piece) : split c (join c pieces) = pieces := by
  induction pieces with
  | nil => contradiction
  | cons piece more ih =>
    rw [List.forall_mem_cons] at h
    cases more with
    | nil => exact split_of_not_mem h.1
    | cons next more =>
      rw [join_cons_cons, split_append_cons, split_of_not_mem h.1, ih (by simp) h.2,
        List.singleton_append]

/-- The pieces in front stand each before its separator. -/
theorem join_append (c : Char) (front : List (List Char)) {more : List (List Char)}
    (hne : more ≠ []) : join c (front ++ more) = front.flatMap (· ++ [c]) ++ join c more := by
  induction front with
  | nil => rfl
  | cons piece front ih =>
    obtain ⟨next, rest, hnext⟩ : ∃ next rest, front ++ more = next :: rest :=
      List.exists_cons_of_ne_nil (by simp [hne])
    rw [List.cons_append, hnext, join_cons_cons, ← hnext, ih, List.flatMap_cons,
      List.append_assoc, List.append_assoc, List.singleton_append]

/-- A text of pieces is not empty if the first one is not. -/
theorem join_cons_ne_nil (c : Char) {piece : List Char} (h : piece ≠ []) (more : List (List Char)) :
    join c (piece :: more) ≠ [] := by
  cases more with
  | nil => exact h
  | cons next more =>
    rw [join_cons_cons]
    simp

/-- **Joining undoes splitting.** -/
theorem join_split (c : Char) (cs : List Char) : join c (split c cs) = cs := by
  induction cs with
  | nil => rfl
  | cons x cs ih =>
    by_cases hx : x = c
    · subst hx
      rw [split_cons_self]
      cases hs : split x cs with
      | nil => exact absurd hs (split_ne_nil x cs)
      | cons piece more => rw [join_cons_cons, ← hs, ih, List.nil_append]
    · obtain ⟨piece, more, hs, hxs⟩ := exists_split_cons hx cs
      rw [hs] at ih
      rw [hxs]
      cases more with
      | nil => simpa [join] using ih
      | cons next more => simpa [join] using ih

theorem not_mem_of_mem_split {c : Char} {cs piece : List Char} (h : piece ∈ split c cs) :
    c ∉ piece := by
  induction cs generalizing piece with
  | nil => simp_all [split]
  | cons x cs ih =>
    by_cases hx : x = c
    · subst hx
      rw [split_cons_self, List.mem_cons] at h
      rcases h with rfl | h
      · simp
      · exact ih h
    · obtain ⟨first, more, hs, hxs⟩ := exists_split_cons hx cs
      rw [hxs, List.mem_cons] at h
      rcases h with rfl | h
      · rw [List.mem_cons, not_or]
        exact ⟨Ne.symm hx, ih (by simp [hs])⟩
      · exact ih (by simp [hs, h])

/-! ## §3. Texts that no trimming changes. -/

theorem dropWhile_eq_self {p : Char → Bool} {cs : List Char} (h : ∀ c ∈ cs, p c = false) :
    cs.dropWhile p = cs := by
  cases cs with
  | nil => rfl
  | cons c cs => simp [h c]

theorem trimBy_eq_self {p : Char → Bool} {cs : List Char} (h : ∀ c ∈ cs, p c = false) :
    trimBy p cs = cs := by
  rw [trimBy, dropWhile_eq_self h, dropWhile_eq_self (by simpa using h), List.reverse_reverse]

end ComponentGraph.Text
