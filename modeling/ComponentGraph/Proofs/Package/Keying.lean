/-
  ComponentGraph.Proofs.Package.Keying
  ────────────────────────────────
  **KEYS MADE OF NAME AND VERSION.**

  A package without an identifier is keyed by name, epoch, version and
  release, with an at sign, a colon and a dash between them.  The name may be
  any text; if the other parts hold no separator that stands behind them, the
  key is read in one way only:

      Coordinates            — the parts of such a key
      IsSeparable.eq_of_key  — such a key has one set of coordinates
      index_separates        — so packages at different coordinates are
                               indexed one by one
-/
import Mathlib.Data.List.Forall2
import ComponentGraph.Proofs.Json.Number
import ComponentGraph.Proofs.Package.Surfacing
import ComponentGraph.Proofs.Text.Pieces

namespace ComponentGraph

/-! ## §1. Coordinates. -/

/-- The parts of which a package's key is made when it has no identifier. -/
structure Coordinates where
  name : String
  version : String
  /-- Empty if there is none. -/
  release : String
  /-- Zero if there is none. -/
  epoch : Nat
  deriving Repr, DecidableEq

namespace Coordinates

/-- Numbers below this one are exact. -/
def epochLimit : Nat := Number.twos 53

/-- No part but the name holds a separator that could be taken for another one. -/
structure IsSeparable (c : Coordinates) : Prop where
  version : '@' ∉ c.version.toList ∧ ':' ∉ c.version.toList ∧ '-' ∉ c.version.toList
  release : '@' ∉ c.release.toList
  epoch : c.epoch < epochLimit

instance (c : Coordinates) : Decidable c.IsSeparable :=
  decidable_of_iff
    (('@' ∉ c.version.toList ∧ ':' ∉ c.version.toList ∧ '-' ∉ c.version.toList)
      ∧ '@' ∉ c.release.toList ∧ c.epoch < epochLimit)
    ⟨fun h => ⟨h.1, h.2.1, h.2.2⟩, fun h => ⟨h.version, h.release, h.epoch⟩⟩

/-- The version, with the epoch before it if there is one. -/
def front (c : Coordinates) : List Char :=
  if c.epoch = 0 then c.version.toList
  else Nat.toDigits 10 c.epoch ++ ':' :: c.version.toList

/-- The release, if there is one. -/
def released (c : Coordinates) : Option (List Char) :=
  if c.release = "" then none else some c.release.toList

/-- What stands behind the name. -/
def edition (c : Coordinates) : List Char := c.front ++ Text.behind '-' c.released

def key (c : Coordinates) : String := String.ofList (c.name.toList ++ '@' :: c.edition)

/-! ## §2. Reading a key. -/

variable {c d : Coordinates}

theorem not_mem_toDigits {x : Char} (h : x.isDigit = false) (n : Nat) :
    x ∉ Nat.toDigits 10 n := by
  intro hx
  rw [Nat.isDigit_of_mem_toDigits (by decide) (by decide) hx] at h
  contradiction

theorem not_mem_front {x : Char} (hdigit : x.isDigit = false) (hcolon : x ≠ ':')
    (hversion : x ∉ c.version.toList) : x ∉ c.front := by
  unfold front
  split
  · exact hversion
  · rw [List.mem_append, List.mem_cons, not_or, not_or]
    exact ⟨not_mem_toDigits hdigit _, hcolon, hversion⟩

theorem IsSeparable.not_mem_edition (h : c.IsSeparable) : '@' ∉ c.edition := by
  have hfront : '@' ∉ c.front := not_mem_front (by decide) (by decide) h.version.1
  have hbehind : '@' ∉ Text.behind '-' c.released := by
    unfold released
    split
    · exact List.not_mem_nil
    · show '@' ∉ '-' :: c.release.toList
      rw [List.mem_cons, not_or]
      exact ⟨by decide, h.release⟩
  rw [edition, List.mem_append, not_or]
  exact ⟨hfront, hbehind⟩

/-- The last at sign of a key stands behind the name. -/
theorem IsSeparable.cutLast?_key (h : c.IsSeparable) :
    Text.cutLast? '@' c.key.toList = some (c.name.toList, c.edition) := by
  rw [key, String.toList_ofList]
  exact Text.cutLast?_eq_some_iff.2 ⟨rfl, h.not_mem_edition⟩

/-- The first dash behind the name stands before the release. -/
theorem IsSeparable.cut_edition (h : c.IsSeparable) :
    Text.cut '-' c.edition = (c.front, c.released) :=
  Text.cut_append_behind (not_mem_front (by decide) (by decide) h.version.2.2) c.released

/-- A colon before the version stands behind the epoch. -/
theorem IsSeparable.cut?_front (h : c.IsSeparable) : Text.cut? ':' c.front
    = if c.epoch = 0 then none else some (Nat.toDigits 10 c.epoch, c.version.toList) := by
  unfold front
  split
  · exact Text.cut?_of_not_mem h.version.2.1
  · exact Text.cut?_append (not_mem_toDigits (by decide) _) _

theorem eq_of_toDigits {m n : Nat} (h : Nat.toDigits 10 m = Nat.toDigits 10 n) : m = n := by
  have hvalue := congrArg (Nat.ofDigitChars 10 · 0) h
  simpa only [Nat.ofDigitChars_ten_toDigits] using hvalue

theorem eq_of_released (h : c.released = d.released) : c.release = d.release := by
  unfold released at h
  by_cases hc : c.release = ""
  · by_cases hd : d.release = ""
    · rw [hc, hd]
    · rw [if_pos hc, if_neg hd] at h
      contradiction
  · by_cases hd : d.release = ""
    · rw [if_neg hc, if_pos hd] at h
      contradiction
    · rw [if_neg hc, if_neg hd] at h
      exact String.toList_inj.1 (Option.some.inj h)

theorem IsSeparable.eq_of_front (hc : c.IsSeparable) (hd : d.IsSeparable) (h : c.front = d.front) :
    c.epoch = d.epoch ∧ c.version = d.version := by
  have hcut := hc.cut?_front
  rw [h, hd.cut?_front] at hcut
  unfold front at h
  by_cases hce : c.epoch = 0
  · by_cases hde : d.epoch = 0
    · rw [if_pos hce, if_pos hde] at h
      exact ⟨hce.trans hde.symm, String.toList_inj.1 h⟩
    · -- one has a colon and the other has none
      rw [if_pos hce, if_neg hde] at hcut
      contradiction
  · by_cases hde : d.epoch = 0
    · rw [if_neg hce, if_pos hde] at hcut
      contradiction
    · rw [if_neg hce, if_neg hde] at hcut
      obtain ⟨hepoch, hversion⟩ := Prod.mk.inj (Option.some.inj hcut)
      exact ⟨eq_of_toDigits hepoch.symm, String.toList_inj.1 hversion.symm⟩

/-- **A key has one set of coordinates.** -/
theorem IsSeparable.eq_of_key (hc : c.IsSeparable) (hd : d.IsSeparable) (h : c.key = d.key) : c = d := by
  -- the name is read from behind, all else from the front
  have hcutLast := hc.cutLast?_key
  rw [h, hd.cutLast?_key] at hcutLast
  obtain ⟨hname, hedition⟩ := Prod.mk.inj (Option.some.inj hcutLast)
  have hcut := hc.cut_edition
  rw [← hedition, hd.cut_edition] at hcut
  obtain ⟨hfront, hreleased⟩ := Prod.mk.inj hcut
  obtain ⟨hepoch, hversion⟩ := hc.eq_of_front hd hfront.symm
  have hname : c.name = d.name := String.toList_inj.1 hname.symm
  have hrelease : c.release = d.release := eq_of_released hreleased.symm
  cases c
  cases d
  simp_all

end Coordinates

/-! ## §3. Packages at coordinates. -/

/-- Nothing is in a field without a value. -/
theorem Field.isFilled_of_value? {f : Field} (h : f.value? = none) : f.isFilled = false := by
  unfold value? at h
  split at h
  · rfl
  · rw [h]
    rfl

namespace Package

variable {p q : Package} {c d : Coordinates}

/-- **The package has no identifier, and these coordinates**: an absent release
is empty, and an absent epoch zero. -/
structure LiesAt (p : Package) (c : Coordinates) : Prop where
  id : p.id.isFilled = false
  name : p.name = .ofText c.name
  version : p.version = .ofText c.version
  release : p.release = .ofText c.release ∨ p.release.value? = none ∧ c.release = ""
  epoch : p.epoch = some (.number (.ofNat c.epoch)) ∨ p.epoch.value? = none ∧ c.epoch = 0

namespace LiesAt

theorem isFilled_release (h : p.LiesAt c) : p.release.isFilled = decide (c.release ≠ "") := by
  rcases h.release with he | ⟨he, hc⟩
  · rw [he]
    rfl
  · rw [Field.isFilled_of_value? he, hc]
    rfl

theorem isFilled_epoch (h : p.LiesAt c) : p.epoch.isFilled = decide (c.epoch ≠ 0) := by
  rcases h.epoch with he | ⟨he, hc⟩
  · rw [he]
    show (!(Number.ofNat c.epoch).isZero) = _
    rw [Number.isZero_ofNat, decide_not]
  · rw [Field.isFilled_of_value? he, hc]
    rfl

theorem inText_epoch (h : p.LiesAt c) (hlimit : c.epoch < Coordinates.epochLimit)
    (hne : c.epoch ≠ 0) : p.epoch.inText = String.ofList (Nat.toDigits 10 c.epoch) := by
  rcases h.epoch with he | ⟨-, hc⟩
  · rw [he]
    exact Number.text_ofNat (Nat.lt_trans hlimit (by decide))
  · contradiction

/-- The version with its release, if there is one. -/
theorem inText_released (h : p.LiesAt c) :
    Field.inText (if p.release.isFilled then .ofText (p.version.inText ++ "-" ++ p.release.inText)
      else p.version) = String.ofList (c.version.toList ++ Text.behind '-' c.released) := by
  rw [h.isFilled_release, h.version, Coordinates.released]
  by_cases hr : c.release = ""
  · simp only [hr]
    show c.version = String.ofList (c.version.toList ++ [])
    rw [List.append_nil, String.ofList_toList]
  · rcases h.release with he | ⟨-, hc⟩
    · rw [he, if_pos (decide_eq_true hr), if_neg hr]
      show c.version ++ "-" ++ c.release = String.ofList (c.version.toList ++ '-' :: c.release.toList)
      apply String.toList_inj.1
      simp
    · contradiction

/-- The version is formatted as the coordinates say. -/
theorem inText_formattedVersion (h : p.LiesAt c) (hlimit : c.epoch < Coordinates.epochLimit) :
    p.formattedVersion.inText = String.ofList c.edition := by
  have hreleased := h.inText_released
  unfold formattedVersion Coordinates.edition Coordinates.front
  rw [h.isFilled_epoch]
  by_cases he : c.epoch = 0
  · rw [if_neg (by simp [he]), if_pos he]
    exact hreleased
  · rw [if_pos (decide_eq_true he), if_neg he, h.inText_epoch hlimit he]
    show String.ofList (Nat.toDigits 10 c.epoch) ++ ":" ++ Field.inText _ = _
    rw [hreleased]
    apply String.toList_inj.1
    simp

/-- **The key is made of the coordinates.** -/
theorem key_eq (h : p.LiesAt c) (hlimit : c.epoch < Coordinates.epochLimit) :
    p.key = .text c.key := by
  have hid : p.id.ifFilled = none := by simp [Field.ifFilled, h.id]
  rw [key, hid, h.name]
  show Json.text (c.name ++ "@" ++ p.formattedVersion.inText) = _
  rw [h.inText_formattedVersion hlimit, Coordinates.key]
  congr 1
  apply String.toList_inj.1
  simp

end LiesAt

end Package

/-! ## §4. The index. -/

namespace Result

theorem index_of_nodup {r : Result} (h : (r.packages.map Package.key).Nodup) :
    r.index = r.packages.map fun p => (p.key, p) := by
  apply Table.ofList_of_nodup
  rw [List.map_map]
  exact h

/-- The keys are those of the coordinates. -/
theorem map_key_of_liesAt {packages : List Package} {cs : List Coordinates}
    (hat : List.Forall₂ Package.LiesAt packages cs) (hseparable : ∀ c ∈ cs, c.IsSeparable) :
    packages.map Package.key = cs.map fun c => .text c.key := by
  induction hat with
  | nil => rfl
  | cons hp _ ih =>
    rw [List.forall_mem_cons] at hseparable
    rw [List.map_cons, List.map_cons, hp.key_eq hseparable.1.epoch, ih hseparable.2]

/-- **Packages without identifiers share a key just if they lie at the same
coordinates.**  So where all lie at different ones, each of them is indexed
under its own key. -/
theorem index_separates :
    (∀ (p q : Package) (c d : Coordinates), p.LiesAt c → q.LiesAt d → c.IsSeparable → d.IsSeparable →
      (p.key = q.key ↔ c = d))
    ∧ ∀ (r : Result) (cs : List Coordinates), List.Forall₂ Package.LiesAt r.packages cs →
      (∀ c ∈ cs, c.IsSeparable) → cs.Nodup → r.index = r.packages.map fun p => (p.key, p) := by
  constructor
  · intro p q c d hp hq hc hd
    rw [hp.key_eq hc.epoch, hq.key_eq hd.epoch, Json.text.injEq]
    constructor
    · intro h
      exact hc.eq_of_key hd h
    · intro h
      rw [h]
  · intro r cs hat hseparable hnodup
    apply index_of_nodup
    rw [map_key_of_liesAt hat hseparable]
    refine hnodup.map_on fun c hc d hd h => ?_
    exact (hseparable c hc).eq_of_key (hseparable d hd) (Json.text.inj h)

/-- Packages whose keys have the same separators in other places. -/
def lookalikes : Result where
  target := .ofText "lib/status.d"
  type := .ofText "debian"
  class_ := .ofText "os-pkgs"
  packages := [
    { Package.plain "lib" "1" with release := .ofText "2-r0", epoch := some (.number (.ofNat 30)) },
    { Package.plain "lib@30:1-2" "" with release := .ofText "r0", epoch := some .null },
    { Package.plain "lib" "" with release := .ofText "1:2" },
    { Package.plain "lib" "2" with id := .ofText "", epoch := some (.number (.ofNat 1)) },
    { Package.plain "lib" "2" with release := .ofText "", epoch := some (.number (.ofNat 0)) }]
  vulnerabilities := []

/-- Where these packages lie. -/
def lookalikesAt : List Coordinates := [
  ⟨"lib", "1", "2-r0", 30⟩, ⟨"lib@30:1-2", "", "r0", 0⟩, ⟨"lib", "", "1:2", 0⟩,
  ⟨"lib", "2", "", 1⟩, ⟨"lib", "2", "", 0⟩]

theorem lookalikes_separate :
    List.Forall₂ Package.LiesAt lookalikes.packages lookalikesAt
    ∧ (∀ c ∈ lookalikesAt, c.IsSeparable) ∧ lookalikesAt.Nodup
    ∧ lookalikes.index = lookalikes.packages.map (fun p => (p.key, p))
    ∧ lookalikes.packages.map Package.key = [.text "lib@30:1-2-r0", .text "lib@30:1-2@-r0",
      .text "lib@-1:2", .text "lib@1:2", .text "lib@2"] := by
  have hat : List.Forall₂ Package.LiesAt lookalikes.packages lookalikesAt :=
    .cons ⟨rfl, rfl, rfl, .inl rfl, .inl rfl⟩
      (.cons ⟨rfl, rfl, rfl, .inl rfl, .inr ⟨rfl, rfl⟩⟩
      (.cons ⟨rfl, rfl, rfl, .inl rfl, .inr ⟨rfl, rfl⟩⟩
      (.cons ⟨by decide, rfl, rfl, .inr ⟨rfl, rfl⟩, .inl rfl⟩
      (.cons ⟨rfl, rfl, rfl, .inl rfl, .inl rfl⟩ .nil))))
  have hseparable : ∀ c ∈ lookalikesAt, c.IsSeparable := by decide +kernel
  have hnodup : lookalikesAt.Nodup := by decide +kernel
  exact ⟨hat, hseparable, hnodup, index_separates.2 lookalikes lookalikesAt hat hseparable hnodup,
    by decide +kernel⟩

end Result

end ComponentGraph
