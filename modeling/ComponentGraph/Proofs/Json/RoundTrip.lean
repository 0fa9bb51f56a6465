/-
  ComponentGraph.Proofs.Json.RoundTrip
  ────────────────────────────────
  **WHAT WAS WRITTEN IS READ BACK.**

  The reader is an automaton, so a value is read back if the state behind it is
  that of a reader who has just completed it.  A text closes itself; but a word
  is complete only with the character behind it, so states are compared by what
  they make of all that follows (`Reader.value?`), and what follows a value
  must end a word:

      ReadsBack            — what it is for a value to be read back, under an
                             indent and at any depth
      IsTextual            — values without numbers, whose objects name no
                             member twice
      IsTextual.readsBack  — these are read back
      ofString?_pretty     — so a document is read from its printed form
      IsTextual.isPrintable_pretty
                           — whose compact form has no control characters
-/
import ComponentGraph.Json.Reader
import ComponentGraph.Json.Writer
import ComponentGraph.Proofs.Table

namespace ComponentGraph.Json

/-! ## §1. Reading on. -/

namespace Reader

/-- What a reader in this state makes of a document that goes on like this. -/
def value? (r : Reader) (cs : List Char) : Option Json := (r.run cs).bind finish

variable {r r' : Reader} {c : Char} {cs rest : List Char}

theorem run_cons (r : Reader) (c : Char) (cs : List Char) :
    r.run (c :: cs) = (r.step c).bind (·.run cs) := by
  rw [run, List.foldlM_cons]
  rfl

theorem run_cons_of_step (h : r.step c = some r') : r.run (c :: cs) = r'.run cs := by
  rw [run_cons, h, Option.bind_some]

theorem value?_cons (h : r.step c = some r') : r.value? (c :: cs) = r'.value? cs := by
  rw [value?, run_cons_of_step h, value?]

theorem value?_append (h : r.run cs = some r') : r.value? (cs ++ rest) = r'.value? rest := by
  rw [value?, run_append, h, Option.bind_some, value?]

end Reader

/-! ## §2. Texts. -/

/-- **How a character stands in a quoted text**: in a short escape, in a numbered
one, or as itself. -/
theorem quotedChar_cases (c : Char) :
    (∃ d, quotedChar c = ['\\', d] ∧ 0x20 ≤ d.toNat ∧ d ≠ 'u' ∧ ofEscape? d = some c)
      ∨ (c.toNat < 0x20 ∧ quotedChar c = ['\\', 'u', '0', '0', Text.Hex.lower (c.toNat / 16),
        Text.Hex.lower (c.toNat % 16)])
      ∨ 0x20 ≤ c.toNat ∧ c ≠ '"' ∧ c ≠ '\\' ∧ quotedChar c = [c] := by
  by_cases hshort : c ∈ ['"', '\\', '\x08', '\x0c', '\n', '\r', '\t']
  · simp only [List.mem_cons, List.not_mem_nil, or_false] at hshort
    rcases hshort with rfl | rfl | rfl | rfl | rfl | rfl | rfl <;>
      exact .inl ⟨_, rfl, by decide, by decide, rfl⟩
  · simp only [List.mem_cons, List.not_mem_nil, or_false, not_or] at hshort
    obtain ⟨hquote, hslash, hb, hf, hn, hr, ht⟩ := hshort
    refine .inr ?_
    rw [quotedChar, if_neg hquote, if_neg hslash, if_neg hb, if_neg hf, if_neg hn, if_neg hr,
      if_neg ht]
    by_cases hc : c.toNat < 0x20
    · exact .inl ⟨hc, if_pos hc⟩
    · exact .inr ⟨Nat.le_of_not_lt hc, hquote, hslash, if_neg hc⟩

theorem digit?_lower : ∀ n < 16, Text.Hex.digit? (Text.Hex.lower n) = some n := by
  decide

theorem le_toNat_lower : ∀ n < 16, 0x20 ≤ (Text.Hex.lower n).toNat := by
  decide

/-- A control character is taken in by its number. -/
theorem takeUnit_of_lt {c : Char} {letters : List Char} (h : c.toNat < 0x20) :
    takeUnit letters none (16 * (c.toNat / 16) + c.toNat % 16) = .text (c :: letters) none := by
  rw [Nat.div_add_mod, takeUnit, if_neg (by omega), if_neg (by omega), Char.ofNat_toNat]
  rfl

namespace Reader

/-- **A character is read from its quoted form.** -/
theorem run_quotedChar (stack : List Frame) (expect : Expect) (letters : List Char) (c : Char) :
    (Reader.mk stack expect (.text letters none)).run (quotedChar c)
      = some ⟨stack, expect, .text (c :: letters) none⟩ := by
  rcases quotedChar_cases c with ⟨d, hq, -, hd, he⟩ | ⟨hc, hq⟩ | ⟨hc, hquote, hslash, hq⟩
  · simp [hq, run, step, hd, he, settle]
  · -- the first two digits are zeros, and no surrogate is open
    have hhigh := digit?_lower (c.toNat / 16) (by omega)
    have hlow := digit?_lower (c.toNat % 16) (by omega)
    have hzero : Text.Hex.digit? '0' = some 0 := rfl
    simp [hq, run, step, hzero, hhigh, hlow, takeUnit_of_lt hc]
  · simp [hq, run, step, hquote, hslash, Nat.not_lt.2 hc, settle]

theorem run_quotedChars (stack : List Frame) (expect : Expect) (letters cs : List Char) :
    (Reader.mk stack expect (.text letters none)).run (cs.flatMap quotedChar)
      = some ⟨stack, expect, .text (cs.reverse ++ letters) none⟩ := by
  induction cs generalizing letters with
  | nil => rfl
  | cons c cs ih =>
    rw [List.flatMap_cons, run_append, run_quotedChar, Option.bind_some, ih, List.reverse_cons,
      List.append_assoc]
    rfl

/-- **A text is read from its quoted form**, where a text may stand. -/
theorem run_quoted (stack : List Frame) (expect : Expect) (s : String) :
    (Reader.mk stack expect .none).run (quoted s)
      = (Reader.mk stack expect (.text s.toList.reverse none)).takeText s := by
  have hopen : (Reader.mk stack expect .none).step '"' = some ⟨stack, expect, .text [] none⟩ := rfl
  have hclose : (Reader.mk stack expect (.text s.toList.reverse none)).run ['"']
      = (Reader.mk stack expect (.text s.toList.reverse none)).takeText s := by
    simp [run, step, settle]
  rw [quoted, run_cons_of_step hopen, run_append, run_quotedChars, List.append_nil,
    Option.bind_some, hclose]

/-! ## §3. Between lexemes. -/

/-- White space changes nothing. -/
theorem run_blanks (stack : List Frame) (expect : Expect) {cs : List Char}
    (h : ∀ c ∈ cs, isBlank c) :
    (Reader.mk stack expect .none).run cs = some ⟨stack, expect, .none⟩ := by
  induction cs with
  | nil => rfl
  | cons c cs ih =>
    rw [List.forall_mem_cons] at h
    have hc : (Reader.mk stack expect .none).step c = some ⟨stack, expect, .none⟩ := if_pos h.1
    rw [run_cons_of_step hc, ih h.2]

end Reader

/-- Does the first character, if there is one, end a word? -/
def EndsWord (cs : List Char) : Prop := ∀ c ∈ cs.head?, Reader.endsWord c

theorem endsWord_cons {c : Char} {cs : List Char} (h : Reader.endsWord c) : EndsWord (c :: cs) := by
  rintro _ ⟨⟩
  exact h

theorem endsWord_blanks_append {blanks cs : List Char} (hb : ∀ c ∈ blanks, isBlank c)
    (h : EndsWord cs) : EndsWord (blanks ++ cs) := by
  cases blanks with
  | nil => exact h
  | cons c blanks =>
    apply endsWord_cons
    rw [Reader.endsWord, hb c List.mem_cons_self]
    rfl

namespace Reader

/-- A word that is complete leaves the reader between lexemes. -/
theorem lexeme_takeWord {r r' : Reader} {letters : List Char} (h : r.takeWord letters = some r') :
    r'.lexeme = .none := by
  unfold takeWord at h
  split at h
  · obtain ⟨v, -, rfl⟩ := Option.map_eq_some_iff.1 h
    rfl
  · obtain ⟨v, -, rfl⟩ := Option.map_eq_some_iff.1 h
    rfl
  · contradiction

/-- **A word is complete with what follows it.** -/
theorem value?_word {r r' : Reader} {letters rest : List Char} (hr : r.lexeme = .word letters)
    (hword : r.takeWord letters = some r') (hrest : EndsWord rest) :
    r.value? rest = r'.value? rest := by
  have hr' := lexeme_takeWord hword
  cases rest with
  | nil =>
    show r.finish = r'.finish
    simp [finish, hr, hword, hr']
  | cons c rest =>
    -- the character behind the word is a mark of its own
    have hc : endsWord c := hrest c rfl
    have hstep : r.step c = r'.step c := by
      rw [step, hr, step, hr']
      simp only [hc, hword, if_true, Option.bind_some]
    rw [value?, value?, run_cons, run_cons, hstep]

/-- May a value come next? -/
def TakesValue (expect : Expect) : Prop := expect = .value ∨ expect = .firstItem

theorem value?_letters {stack : List Frame} {expect : Expect} (letters : List Char)
    {rest : List Char} {j : Json} (hexpect : TakesValue expect)
    (hrun : (Reader.mk stack expect .none).run letters = some ⟨stack, expect, .word letters.reverse⟩)
    (hj : ofWord? letters = some j) (hrest : EndsWord rest) :
    (Reader.mk stack expect .none).value? (letters ++ rest)
      = (Reader.mk stack (.after j) .none).value? rest := by
  rw [value?_append hrun]
  refine value?_word rfl ?_ hrest
  rcases hexpect with rfl | rfl <;> simp [takeWord, hj]

theorem value?_quoted {stack : List Frame} {expect : Expect} (s : String) {rest : List Char}
    (hexpect : TakesValue expect) : (Reader.mk stack expect .none).value? (quoted s ++ rest)
      = (Reader.mk stack (.after (.text s)) .none).value? rest := by
  refine value?_append ?_
  rw [run_quoted]
  rcases hexpect with rfl | rfl <;> rfl

theorem value?_blanks {stack : List Frame} {expect : Expect} {blanks rest : List Char}
    (h : ∀ c ∈ blanks, isBlank c) : (Reader.mk stack expect .none).value? (blanks ++ rest)
      = (Reader.mk stack expect .none).value? rest :=
  value?_append (run_blanks stack expect h)

end Reader

/-! ## §4. Values. -/

/-- Is the value read wherever it was written, under this indent and at any depth? -/
def ReadsBack (indent : List Char) (j : Json) : Prop :=
  ∀ (depth : Nat) (stack : List Frame) (expect : Expect) (rest : List Char),
    Reader.TakesValue expect → EndsWord rest →
    (Reader.mk stack expect .none).value? (write indent depth j rest)
      = (Reader.mk stack (.after j) .none).value? rest

section Values

variable {indent : List Char}

theorem isBlank_of_mem_lineBreak (hindent : ∀ c ∈ indent, isBlank c) (depth : Nat) :
    ∀ c ∈ lineBreak indent depth, isBlank c := by
  intro c hc
  unfold lineBreak at hc
  split at hc
  · contradiction
  · rcases List.mem_cons.1 hc with rfl | hc
    · rfl
    · obtain ⟨_, hline, hc⟩ := List.mem_flatten.1 hc
      rw [(List.mem_replicate.1 hline).2] at hc
      exact hindent c hc

/-- Behind its last item or member, a container is closed. -/
theorem endsWord_close (hindent : ∀ c ∈ indent, isBlank c) (depth : Nat) {c : Char}
    (hc : Reader.endsWord c) (rest : List Char) : EndsWord (lineBreak indent depth ++ c :: rest) :=
  endsWord_blanks_append (isBlank_of_mem_lineBreak hindent depth) (endsWord_cons hc)

/-- After a member's name, the colon opens a place for its value. -/
theorem run_colon (indent : List Char) (stack : List Frame) (before : List (String × Json))
    (name : String) : (Reader.mk stack (.colon before name) .none).run (colon indent)
      = some ⟨.member before name :: stack, .value, .none⟩ := by
  unfold colon
  split <;> rfl

/-- **A member's name and colon are read up to its value.** -/
theorem value?_member (hindent : ∀ c ∈ indent, isBlank c) (depth : Nat) {stack : List Frame}
    {expect : Expect} {before : List (String × Json)} {name : String}
    (hname : (Reader.mk stack expect .none).run (quoted name)
      = some ⟨stack, .colon before name, .none⟩) (rest : List Char) :
    (Reader.mk stack expect .none).value?
        (lineBreak indent depth ++ quoted name ++ colon indent ++ rest)
      = (Reader.mk (.member before name :: stack) .value .none).value? rest := by
  rw [List.append_assoc, List.append_assoc,
    Reader.value?_blanks (isBlank_of_mem_lineBreak hindent depth), Reader.value?_append hname,
    Reader.value?_append (run_colon indent _ _ _)]

theorem endsWord_writeItems {depth : Nat} {items : List Json} {rest : List Char}
    (h : EndsWord rest) : EndsWord (writeItems indent depth items rest) := by
  cases items with
  | nil =>
    rw [writeItems]
    exact h
  | cons j items =>
    rw [writeItems]
    exact endsWord_cons rfl

theorem endsWord_writeMembers {depth : Nat} {members : List (String × Json)} {rest : List Char}
    (h : EndsWord rest) : EndsWord (writeMembers indent depth members rest) := by
  cases members with
  | nil =>
    rw [writeMembers]
    exact h
  | cons m members =>
    rw [writeMembers]
    exact endsWord_cons rfl

/-- **The items after the first one are read back**, up to the end of the array. -/
theorem ReadsBack.items (hindent : ∀ c ∈ indent, isBlank c) {items : List Json}
    (h : ∀ j ∈ items, ReadsBack indent j) (depth below : Nat) (stack : List Frame)
    (before : List Json) (v : Json) (rest : List Char) :
    (Reader.mk (.item before :: stack) (.after v) .none).value?
        (writeItems indent depth items (lineBreak indent below ++ ']' :: rest))
      = (Reader.mk stack (.after (.array ((v :: before).reverse ++ items))) .none).value? rest := by
  have hclose := endsWord_close hindent below (c := ']') rfl rest
  -- each item is read before the comma of the next one, and the last one before the end
  induction items generalizing before v with
  | nil =>
    rw [writeItems, Reader.value?_blanks (isBlank_of_mem_lineBreak hindent below), List.append_nil]
    exact Reader.value?_cons rfl
  | cons j items ih =>
    rw [List.forall_mem_cons] at h
    have hcomma : (Reader.mk (.item before :: stack) (.after v) .none).step ','
        = some ⟨.item (v :: before) :: stack, .value, .none⟩ := rfl
    rw [writeItems, Reader.value?_cons hcomma,
      Reader.value?_blanks (isBlank_of_mem_lineBreak hindent depth),
      h.1 depth _ _ _ (.inl rfl) (endsWord_writeItems hclose), ih h.2,
      List.reverse_cons (a := j), List.append_assoc]
    rfl

/-- **The members after the first one are read back**, up to the end of the object. -/
theorem ReadsBack.members (hindent : ∀ c ∈ indent, isBlank c) {members : List (String × Json)}
    (h : ∀ m ∈ members, ReadsBack indent m.2) (depth below : Nat) (stack : List Frame)
    (before : List (String × Json)) (name : String) (v : Json) (rest : List Char) :
    (Reader.mk (.member before name :: stack) (.after v) .none).value?
        (writeMembers indent depth members (lineBreak indent below ++ '}' :: rest))
      = (Reader.mk stack (.after (ofMembers (((name, v) :: before).reverse ++ members)))
          .none).value? rest := by
  have hclose := endsWord_close hindent below (c := '}') rfl rest
  induction members generalizing before name v with
  | nil =>
    rw [writeMembers, Reader.value?_blanks (isBlank_of_mem_lineBreak hindent below), List.append_nil]
    exact Reader.value?_cons rfl
  | cons m members ih =>
    obtain ⟨next, j⟩ := m
    rw [List.forall_mem_cons] at h
    have hcomma : (Reader.mk (.member before name :: stack) (.after v) .none).step ','
        = some ⟨stack, .name ((name, v) :: before), .none⟩ := rfl
    have hname : (Reader.mk stack (.name ((name, v) :: before)) .none).run (quoted next)
        = some ⟨stack, .colon ((name, v) :: before) next, .none⟩ := Reader.run_quoted _ _ _
    rw [writeMembers, Reader.value?_cons hcomma, value?_member hindent depth hname,
      h.1 depth _ _ _ (.inl rfl) (endsWord_writeMembers hclose), ih h.2,
      List.reverse_cons (a := (next, j)), List.append_assoc]
    rfl

/-- A value without numbers, in which no object names a member twice. -/
inductive IsTextual : Json → Prop where
  | null : IsTextual .null
  | bool (b : Bool) : IsTextual (.bool b)
  | text (s : String) : IsTextual (.text s)
  | array {items : List Json} (h : ∀ j ∈ items, IsTextual j) : IsTextual (.array items)
  | object {members : List (String × Json)} (hnames : (members.map (·.1)).Nodup)
    (h : ∀ m ∈ members, IsTextual m.2) : IsTextual (.object members)

/-- **A textual value is read back.** -/
theorem IsTextual.readsBack (hindent : ∀ c ∈ indent, isBlank c) {j : Json} (h : j.IsTextual) :
    ReadsBack indent j := by
  induction h with
  | null =>
    intro depth stack expect rest hexpect hrest
    rw [write]
    exact Reader.value?_letters ['n', 'u', 'l', 'l'] hexpect rfl rfl hrest
  | bool b =>
    intro depth stack expect rest hexpect hrest
    cases b with
    | false =>
      rw [write]
      exact Reader.value?_letters ['f', 'a', 'l', 's', 'e'] hexpect rfl rfl hrest
    | true =>
      rw [write]
      exact Reader.value?_letters ['t', 'r', 'u', 'e'] hexpect rfl rfl hrest
  | text s =>
    intro depth stack expect rest hexpect _
    rw [write]
    exact Reader.value?_quoted s hexpect
  | @array items _ ih =>
    intro depth stack expect rest hexpect _
    have hopen : (Reader.mk stack expect .none).step '['
        = some ⟨.item [] :: stack, .firstItem, .none⟩ := by
      rcases hexpect with rfl | rfl <;> rfl
    cases items with
    | nil =>
      rw [write, Reader.value?_cons hopen]
      exact Reader.value?_cons rfl
    | cons j items =>
      rw [List.forall_mem_cons] at ih
      have hclose := endsWord_close hindent depth (c := ']') rfl rest
      rw [write, Reader.value?_cons hopen,
        Reader.value?_blanks (isBlank_of_mem_lineBreak hindent (depth + 1)),
        ih.1 (depth + 1) _ _ _ (.inr rfl) (endsWord_writeItems hclose),
        ReadsBack.items hindent ih.2]
      rfl
  | @object members hnames _ ih =>
    intro depth stack expect rest hexpect _
    have hopen : (Reader.mk stack expect .none).step '{'
        = some ⟨stack, .firstName, .none⟩ := by
      rcases hexpect with rfl | rfl <;> rfl
    cases members with
    | nil =>
      rw [write, Reader.value?_cons hopen]
      exact Reader.value?_cons rfl
    | cons m members =>
      obtain ⟨name, j⟩ := m
      rw [List.forall_mem_cons] at ih
      have hclose := endsWord_close hindent depth (c := '}') rfl rest
      have hname : (Reader.mk stack .firstName .none).run (quoted name)
          = some ⟨stack, .colon [] name, .none⟩ := Reader.run_quoted _ _ _
      rw [write, Reader.value?_cons hopen, value?_member hindent (depth + 1) hname,
        ih.1 (depth + 1) _ _ _ (.inl rfl) (endsWord_writeMembers hclose),
        ReadsBack.members hindent ih.2, ofMembers, List.reverse_singleton, List.singleton_append,
        Table.ofList_of_nodup hnames]

end Values

/-! ## §5. Documents. -/

namespace Reader

/-- Where a document may end, white space may follow. -/
theorem exists_step_of_finish {r : Reader} {j : Json} (h : r.finish = some j) {c : Char}
    (hc : isBlank c) : ∃ r', r.step c = some r' ∧ r'.finish = some j := by
  have hmark : ∀ r' : Reader, r'.takeMark c = some r' := fun _ => if_pos hc
  obtain ⟨stack, expect, lexeme⟩ := r
  cases lexeme with
  | none => exact ⟨_, hmark _, h⟩
  | word letters =>
    cases hword : (Reader.mk stack expect (.word letters)).takeWord letters with
    | none => simp [finish, hword] at h
    | some r' =>
      have hends : endsWord c := by
        rw [endsWord, hc]
        rfl
      refine ⟨r', ?_, ?_⟩
      · simp [step, hends, hword, hmark]
      · simpa [finish, hword, lexeme_takeWord hword] using h
  | text => contradiction
  | escape => contradiction
  | unit => contradiction

theorem value?_of_finish {r : Reader} {j : Json} (h : r.finish = some j) {blanks : List Char}
    (hb : ∀ c ∈ blanks, isBlank c) : r.value? blanks = some j := by
  induction blanks generalizing r with
  | nil => exact h
  | cons c blanks ih =>
    rw [List.forall_mem_cons] at hb
    obtain ⟨r', hstep, hfinish⟩ := exists_step_of_finish h hb.1
    rw [value?_cons hstep, ih hfinish hb.2]

end Reader

/-- White space may follow a document. -/
theorem ofString?_append_blanks {s blanks : String} {j : Json} (h : ofString? s = some j)
    (hb : ∀ c ∈ blanks.toList, isBlank c) : ofString? (s ++ blanks) = some j := by
  obtain ⟨r, hr, hfinish⟩ := Option.bind_eq_some_iff.1 h
  rw [ofString?, String.toList_append]
  exact (Reader.value?_append hr).trans (Reader.value?_of_finish hfinish hb)

/-- **A textual document is read from its printed form**, under any indent that is
white space. -/
theorem ofString?_pretty {indent : String} (hindent : ∀ c ∈ indent.toList, isBlank c) {j : Json}
    (h : j.IsTextual) : ofString? (pretty indent j) = some j := by
  rw [ofString?, pretty, String.toList_ofList]
  exact h.readsBack hindent 0 [] .value [] (.inl rfl) (by simp [EndsWord])

/-! ## §6. The compact form. -/

/-- Are there no control characters, hence no line breaks? -/
def IsPrintable (cs : List Char) : Prop := ∀ c ∈ cs, 0x20 ≤ c.toNat

instance : DecidablePred IsPrintable := fun cs => List.decidableBAll (fun c : Char => 0x20 ≤ c.toNat) cs

namespace IsPrintable

theorem cons {c : Char} {cs : List Char} (hc : 0x20 ≤ c.toNat) (h : IsPrintable cs) :
    IsPrintable (c :: cs) :=
  List.forall_mem_cons.2 ⟨hc, h⟩

theorem append {a b : List Char} (ha : IsPrintable a) (hb : IsPrintable b) :
    IsPrintable (a ++ b) :=
  List.forall_mem_append.2 ⟨ha, hb⟩

theorem quotedChar (c : Char) : IsPrintable (Json.quotedChar c) := by
  rcases quotedChar_cases c with ⟨d, hq, hd, -, -⟩ | ⟨hc, hq⟩ | ⟨hc, -, -, hq⟩ <;> rw [hq]
  · exact cons (by decide) (cons hd (by decide))
  · have hhigh := le_toNat_lower (c.toNat / 16) (by omega)
    have hlow := le_toNat_lower (c.toNat % 16) (by omega)
    simp [IsPrintable, hhigh, hlow]
  · exact cons hc (by decide)

theorem quoted (s : String) : IsPrintable (Json.quoted s) := by
  refine cons (by decide) (append (fun c hc => ?_) (by decide))
  obtain ⟨d, -, hd⟩ := List.mem_flatMap.1 hc
  exact quotedChar d c hd

end IsPrintable

/-- Is the value written compactly without control characters, before a rest that has
none? -/
def IsWrittenPrintable (j : Json) : Prop :=
  ∀ (depth : Nat) (rest : List Char), IsPrintable rest → IsPrintable (write [] depth j rest)

theorem IsPrintable.writeItems {items : List Json} (h : ∀ j ∈ items, IsWrittenPrintable j)
    (depth : Nat) {rest : List Char} (hrest : IsPrintable rest) :
    IsPrintable (Json.writeItems [] depth items rest) := by
  induction items with
  | nil =>
    rw [Json.writeItems]
    exact hrest
  | cons j items ih =>
    rw [List.forall_mem_cons] at h
    rw [Json.writeItems]
    exact cons (by decide) (h.1 depth _ (ih h.2))

theorem IsPrintable.writeMembers {members : List (String × Json)}
    (h : ∀ m ∈ members, IsWrittenPrintable m.2) (depth : Nat) {rest : List Char}
    (hrest : IsPrintable rest) : IsPrintable (Json.writeMembers [] depth members rest) := by
  induction members with
  | nil =>
    rw [Json.writeMembers]
    exact hrest
  | cons m members ih =>
    rw [List.forall_mem_cons] at h
    rw [Json.writeMembers, List.append_assoc, List.append_assoc]
    exact cons (by decide) ((quoted m.1).append (cons (by decide) (h.1 depth _ (ih h.2))))

/-- **A textual value is written compactly without control characters.** -/
theorem IsTextual.isWrittenPrintable {j : Json} (h : j.IsTextual) : IsWrittenPrintable j := by
  induction h with
  | null =>
    intro depth rest hrest
    rw [write]
    exact IsPrintable.append (a := ['n', 'u', 'l', 'l']) (by decide) hrest
  | bool b =>
    intro depth rest hrest
    cases b with
    | false =>
      rw [write]
      exact IsPrintable.append (a := ['f', 'a', 'l', 's', 'e']) (by decide) hrest
    | true =>
      rw [write]
      exact IsPrintable.append (a := ['t', 'r', 'u', 'e']) (by decide) hrest
  | text s =>
    intro depth rest hrest
    rw [write]
    exact (IsPrintable.quoted s).append hrest
  | @array items _ ih =>
    intro depth rest hrest
    cases items with
    | nil =>
      rw [write]
      exact .cons (by decide) (.cons (by decide) hrest)
    | cons j items =>
      rw [List.forall_mem_cons] at ih
      have hclose : IsPrintable (']' :: rest) := .cons (by decide) hrest
      rw [write]
      exact .cons (by decide) (ih.1 _ _ (.writeItems ih.2 _ hclose))
  | @object members _ _ ih =>
    intro depth rest hrest
    cases members with
    | nil =>
      rw [write]
      exact .cons (by decide) (.cons (by decide) hrest)
    | cons m members =>
      rw [List.forall_mem_cons] at ih
      have hclose : IsPrintable ('}' :: rest) := .cons (by decide) hrest
      rw [write, List.append_assoc, List.append_assoc]
      exact .cons (by decide) ((IsPrintable.quoted m.1).append
        (.cons (by decide) (ih.1 _ _ (.writeMembers ih.2 _ hclose))))

/-- **The compact form of a textual document has no control characters.** -/
theorem IsTextual.isPrintable_pretty {j : Json} (h : j.IsTextual) :
    IsPrintable (pretty "" j).toList := by
  rw [pretty, String.toList_ofList]
  exact h.isWrittenPrintable 0 [] (by decide)

end ComponentGraph.Json
