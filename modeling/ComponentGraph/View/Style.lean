/-
  ComponentGraph.View.Style
  ────────────────────────────────
  **COLOURED TEXT.**

  A style is put around a text by an escape sequence before it and one after
  it.  Where the text holds the closing sequence itself, or breaks a line,
  the style is opened again behind it, so that it covers the whole text and
  no more.  Without colour a text stays as it is.

      sublist_paint   — whatever is put in, the text is still there
      paint_of_plain  — a text of one line, without escapes, has the sequences
                        around it and nothing else
-/

namespace ComponentGraph

/-! ## §1. Painting. -/

inductive Style where
  | dim
  | red
  | green
  | yellow
  | blue
  | magenta
  | cyan
  deriving Repr, DecidableEq

namespace Style

def sequence (code : String) : List Char := '\x1b' :: '[' :: (code.toList ++ ['m'])

def opening : Style → List Char
  | .dim => sequence "2"
  | .red => sequence "31"
  | .green => sequence "32"
  | .yellow => sequence "33"
  | .blue => sequence "34"
  | .magenta => sequence "35"
  | .cyan => sequence "36"

def closing : Style → List Char
  | .dim => sequence "22"
  | _ => sequence "39"

/-- Put `more` behind each occurrence of `mark`; `skip` characters belong to
the occurrence just found. -/
def insertBehind (mark more : List Char) : Nat → List Char → List Char
  | _, [] => []
  | 0, c :: rest =>
    if mark.isPrefixOf (c :: rest) then
      if mark.length ≤ 1 then c :: (more ++ insertBehind mark more 0 rest)
      else c :: insertBehind mark more (mark.length - 1) rest
    else c :: insertBehind mark more 0 rest
  | skip + 1, c :: rest =>
    if skip = 0 then c :: (more ++ insertBehind mark more 0 rest)
    else c :: insertBehind mark more skip rest

/-- Close the style before each line break and open it again behind it. -/
def aroundBreaks (opening closing : List Char) : List Char → List Char
  | [] => []
  | '\r' :: '\n' :: rest =>
    closing ++ '\r' :: '\n' :: (opening ++ aroundBreaks opening closing rest)
  | '\n' :: rest => closing ++ '\n' :: (opening ++ aroundBreaks opening closing rest)
  | c :: rest => c :: aroundBreaks opening closing rest

/-- The text in this style, if there is colour and any text. -/
def paint (colour : Bool) (style : Style) (s : String) : String :=
  if !colour || s = "" then s
  else
    let reopened := insertBehind style.closing style.opening 0 s.toList
    String.ofList (style.opening ++ aroundBreaks style.opening style.closing reopened
      ++ style.closing)

/-! ## §2. What a painted text holds. -/

section Insertions

variable {mark more opening closing : List Char}

/-- What is put behind marks leaves the text in its order. -/
theorem sublist_insertBehind (skip : Nat) (cs : List Char) :
    cs.Sublist (insertBehind mark more skip cs) := by
  fun_induction insertBehind mark more skip cs with
  | case1 skip => exact .slnil
  | case2 c rest hmark hlength ih => exact (ih.trans (List.sublist_append_right _ _)).cons_cons c
  | case3 c rest hmark hlength ih => exact ih.cons_cons c
  | case4 c rest hmark ih => exact ih.cons_cons c
  | case5 c rest ih => exact (ih.trans (List.sublist_append_right _ _)).cons_cons c
  | case6 skip c rest hskip ih => exact ih.cons_cons c

theorem sublist_aroundBreaks (cs : List Char) :
    cs.Sublist (aroundBreaks opening closing cs) := by
  fun_induction aroundBreaks opening closing cs with
  | case1 => exact .slnil
  | case2 rest ih =>
    have hrest := ih.trans (List.sublist_append_right opening _)
    exact ((hrest.cons_cons '\n').cons_cons '\r').trans (List.sublist_append_right _ _)
  | case3 rest ih =>
    have hrest := ih.trans (List.sublist_append_right opening _)
    exact (hrest.cons_cons '\n').trans (List.sublist_append_right _ _)
  | case4 c rest hbreak hline ih => exact ih.cons_cons c

/-- Behind a mark that cannot begin, nothing is put. -/
theorem insertBehind_of_forall_ne {first : Char} (hmark : mark.head? = some first)
    {cs : List Char} (h : ∀ c ∈ cs, c ≠ first) : insertBehind mark more 0 cs = cs := by
  obtain ⟨rest, rfl⟩ : ∃ rest, mark = first :: rest := List.head?_eq_some_iff.1 hmark
  induction cs with
  | nil => rfl
  | cons c cs ih =>
    obtain ⟨hc, hcs⟩ := List.forall_mem_cons.1 h
    simp [insertBehind, Ne.symm hc, ih hcs]

/-- In one line there is nothing to be put around. -/
theorem aroundBreaks_of_forall_ne {cs : List Char} (h : ∀ c ∈ cs, c ≠ '\n') :
    aroundBreaks opening closing cs = cs := by
  fun_induction aroundBreaks opening closing cs with
  | case1 => rfl
  | case2 rest ih => exact absurd rfl (h '\n' (by simp))
  | case3 rest ih => exact absurd rfl (h '\n' (by simp))
  | case4 c rest hbreak hline ih => rw [ih (List.forall_mem_cons.1 h).2]

end Insertions

@[simp] theorem paint_false (style : Style) (s : String) : style.paint false s = s := rfl

/-- **A painted text still holds the text.** -/
theorem sublist_paint (colour : Bool) (style : Style) (s : String) :
    s.toList.Sublist (style.paint colour s).toList := by
  unfold paint
  split
  · exact .refl _
  · rw [String.toList_ofList, List.append_assoc]
    have hbreaks : s.toList.Sublist (aroundBreaks style.opening style.closing
        (insertBehind style.closing style.opening 0 s.toList)) :=
      (sublist_insertBehind 0 s.toList).trans (sublist_aroundBreaks _)
    exact (hbreaks.trans (List.sublist_append_left _ _)).trans (List.sublist_append_right _ _)

/-- **A text of one line, without escapes, is painted by a sequence on each side.** -/
theorem paint_of_plain (style : Style) {s : String} (hne : s ≠ "")
    (hescape : ∀ c ∈ s.toList, c ≠ '\x1b') (hbreak : ∀ c ∈ s.toList, c ≠ '\n') :
    style.paint true s = String.ofList (style.opening ++ s.toList ++ style.closing) := by
  have hclosing : style.closing.head? = some '\x1b' := by cases style <;> rfl
  simp [paint, hne, insertBehind_of_forall_ne hclosing hescape,
    aroundBreaks_of_forall_ne hbreak]

example : Style.dim.paint true "(see above)" = "\x1b[2m(see above)\x1b[22m" := by decide

end Style

end ComponentGraph
