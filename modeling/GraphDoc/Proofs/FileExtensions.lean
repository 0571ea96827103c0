import GraphDoc.Command.Render
import GraphDoc.Proofs.RawTexts
import Mathlib.Data.List.DropRight

/-!
# Extensions of file names

Which files a list of extensions lets in, said of the path as a whole: its last component is a stem,
a point and the extension. A given extension counts without the points that it starts with. It is a
text, so that the extension of a path is compared with it as it is read as text.
-/
namespace GraphDoc.Command

/-- The last component of the path is a stem that is not empty, a point, and the extension, in which
there is no further point. -/
def HasExtension (path extension : RawText) : Prop :=
  ∃ before stem, path.bytes = before ++ stem ++ point :: extension.bytes ∧ stem ≠ [] ∧
    point ∉ extension.bytes ∧ slash ∉ stem ++ extension.bytes ∧
    (before = [] ∨ before.getLast? = some slash)

/-- One of the given extensions is this one, behind any number of points. -/
def Gives (extensions : List String) (bare : List Char) : Prop :=
  bare.head? ≠ some '.' ∧
    ∃ given ∈ extensions, ∃ points, given.toList = points ++ bare ∧ ∀ c ∈ points, c = '.'

/-- The extension of the path is read as one of the given extensions. -/
def Wanted (extensions : List String) (path : RawText) : Prop :=
  ∃ extension, HasExtension path extension ∧ Gives extensions extension.shown.toList

/-- The extension of the path is one of the given extensions, byte by byte. -/
def HasGiven (extensions : List String) (path : RawText) : Prop :=
  ∃ bare : String, HasExtension path bare ∧ Gives extensions bare.toList

/-! ## Names -/

theorem all_ne_of_not_mem {mark : UInt8} {word : List UInt8} (h : mark ∉ word) :
    ∀ byte ∈ word.reverse, decide (byte ≠ mark) = true := by
  intro byte hbyte
  rw [List.mem_reverse] at hbyte
  exact decide_eq_true fun e => h (e ▸ hbyte)

/-- What stands behind the last mark of a word. -/
theorem rtakeWhile_append {mark : UInt8} {before after : List UInt8} (h : mark ∉ after)
    (hb : before = [] ∨ before.getLast? = some mark) :
    (before ++ after).rtakeWhile (· ≠ mark) = after := by
  rw [List.rtakeWhile, List.reverse_append, List.takeWhile_append_of_pos (all_ne_of_not_mem h),
    List.reverse_append, List.reverse_reverse]
  rcases hb with rfl | hb
  · rfl
  · obtain ⟨rest, rfl⟩ := List.getLast?_eq_some_iff.mp hb
    simp

/-- What stands before it is nothing or ends in the mark. -/
theorem getLast?_rdropWhile (mark : UInt8) (word : List UInt8) :
    word.rdropWhile (· ≠ mark) = [] ∨ (word.rdropWhile (· ≠ mark)).getLast? = some mark := by
  by_cases h : word.rdropWhile (· ≠ mark) = []
  · exact .inl h
  · right
    rw [List.getLast?_eq_some_getLast h]
    simpa using List.rdropWhile_last_not (fun byte => decide (byte ≠ mark)) word h

namespace Entry

theorem extensionOf?_append {stem extension : List UInt8} (h : point ∉ extension) :
    extensionOf? (stem ++ point :: extension) =
      if stem = [] then none else some ⟨extension⟩ := by
  have hreverse : (stem ++ point :: extension).reverse =
      extension.reverse ++ point :: stem.reverse := by simp
  unfold extensionOf?
  rw [hreverse, List.takeWhile_append_of_pos (all_ne_of_not_mem h),
    List.dropWhile_append_of_pos (all_ne_of_not_mem h)]
  simp

theorem extensionOf?_of_not_mem {name : List UInt8} (h : point ∉ name) :
    extensionOf? name = none := by
  have hdrop : name.reverse.dropWhile (· ≠ point) = [] :=
    List.dropWhile_eq_nil_iff.mpr (all_ne_of_not_mem h)
  unfold extensionOf?
  rw [hdrop]
  rfl

/-- A name with an extension is a stem, a point and the extension. -/
theorem exists_of_extensionOf? {name : List UInt8} {extension : RawText}
    (h : extensionOf? name = some extension) :
    ∃ stem, name = stem ++ point :: extension.bytes ∧ stem ≠ [] ∧ point ∉ extension.bytes := by
  by_cases hpoint : point ∈ name.reverse
  · obtain ⟨after, stem, hname, hafter⟩ := List.eq_append_cons_of_mem hpoint
    have hcut : name = stem.reverse ++ point :: after.reverse := by
      simpa using congrArg List.reverse hname
    have hnot : point ∉ after.reverse := by simpa using hafter
    rw [hcut, extensionOf?_append hnot] at h
    split at h
    · cases h
    · rename_i hstem
      obtain rfl := Option.some.inj h
      exact ⟨stem.reverse, hcut, hstem, hnot⟩
  · rw [extensionOf?_of_not_mem (by simpa using hpoint)] at h
    cases h

/-- The extension of a path is what stands behind the last point of its last component. -/
theorem extension?_eq_some_iff {path extension : RawText} :
    extension? path = some extension ↔ HasExtension path extension := by
  have hpath : extension? path = extensionOf? (path.bytes.rtakeWhile (· ≠ slash)) := rfl
  rw [hpath]
  constructor
  · intro h
    obtain ⟨stem, hname, hstem, hnot⟩ := exists_of_extensionOf? h
    have hslash : ∀ byte ∈ path.bytes.rtakeWhile (· ≠ slash), byte ≠ slash := fun byte hbyte => by
      simpa using List.mem_rtakeWhile_imp hbyte
    refine ⟨path.bytes.rdropWhile (· ≠ slash), stem, ?_, hstem, hnot, ?_, getLast?_rdropWhile ..⟩
    · rw [List.append_assoc, ← hname, List.rdropWhile_append_rtakeWhile]
    · rw [hname] at hslash
      intro hmem
      exact hslash slash (by simp at hmem ⊢; tauto) rfl
  · rintro ⟨before, stem, hcut, hstem, hnot, hslash, hbefore⟩
    have hpoint : slash ≠ point := by decide
    have hname : slash ∉ stem ++ point :: extension.bytes := by
      simp only [List.mem_append, List.mem_cons, not_or] at hslash ⊢
      exact ⟨hslash.1, hpoint, hslash.2⟩
    rw [hcut, List.append_assoc, rtakeWhile_append hname hbefore, extensionOf?_append hnot,
      if_neg hstem]

end Entry

/-! ## Given extensions -/

/-- Taking the leading points away leaves what starts with no point. -/
theorem toList_bareExtension {given : String} {points bare : List Char}
    (h : given.toList = points ++ bare) (hp : ∀ c ∈ points, c = '.') (hb : bare.head? ≠ some '.') :
    (bareExtension given).toList = bare := by
  have hpoints : ∀ c ∈ points, decide (c = '.') = true := fun c hc => decide_eq_true (hp c hc)
  rw [bareExtension, String.toList_ofList, h, List.dropWhile_append_of_pos hpoints]
  cases bare with
  | nil => rfl
  | cons c rest => exact List.dropWhile_cons_of_neg (by simpa using hb)

theorem takeWhile_append_bareExtension (given : String) :
    given.toList.takeWhile (· = '.') ++ (bareExtension given).toList = given.toList := by
  rw [bareExtension, String.toList_ofList, List.takeWhile_append_dropWhile]

theorem head?_bareExtension (given : String) : (bareExtension given).toList.head? ≠ some '.' := by
  rw [bareExtension, String.toList_ofList]
  intro hhead
  have hnot := List.head?_dropWhile_not (fun c => decide (c = '.')) given.toList
  rw [hhead] at hnot
  exact absurd rfl (of_decide_eq_false hnot)

theorem gives_iff {extensions : List String} {bare : List Char} :
    Gives extensions bare ↔ String.ofList bare ∈ extensionSet extensions := by
  rw [extensionSet, List.mem_eraseDups, List.mem_map]
  constructor
  · rintro ⟨hbare, given, hgiven, points, hcut, hpoints⟩
    refine ⟨given, hgiven, ?_⟩
    rw [← toList_bareExtension hcut hpoints hbare, String.ofList_toList]
  · rintro ⟨given, hgiven, hgivenBare⟩
    have hbare : (bareExtension given).toList = bare := by rw [hgivenBare, String.toList_ofList]
    subst hbare
    refine ⟨head?_bareExtension given, given, hgiven, given.toList.takeWhile (· = '.'),
      (takeWhile_append_bareExtension given).symm, fun c hc => ?_⟩
    simpa using List.mem_takeWhile_imp hc

theorem wanted_iff {extensions : List String} {path : RawText} :
    Wanted extensions path ↔ Search.letsIn (extensionSet extensions) path = true := by
  unfold Wanted Search.letsIn
  simp only [← Entry.extension?_eq_some_iff, gives_iff, String.ofList_toList]
  cases Entry.extension? path <;> simp

instance (extensions : List String) (path : RawText) : Decidable (Wanted extensions path) :=
  decidable_of_iff _ wanted_iff.symm

theorem hasGiven_iff {extensions : List String} {path : RawText} :
    HasGiven extensions path ↔ ∃ bare ∈ extensionSet extensions,
      Entry.extension? path = some (RawText.ofString bare) := by
  unfold HasGiven
  simp only [Entry.extension?_eq_some_iff, gives_iff, String.ofList_toList]
  exact exists_congr fun bare => and_comm

instance (extensions : List String) (path : RawText) : Decidable (HasGiven extensions path) :=
  decidable_of_iff _ hasGiven_iff.symm

/-- A path with a given extension is wanted. -/
theorem HasGiven.wanted {extensions : List String} {path : RawText} (h : HasGiven extensions path) :
    Wanted extensions path := by
  obtain ⟨bare, hpath, hgives⟩ := h
  exact ⟨bare, hpath, by rwa [RawText.shown_ofString]⟩

/-- Only a given extension with a replacement character lets more paths in. -/
theorem wanted_iff_hasGiven {extensions : List String} {path : RawText}
    (h : ∀ given ∈ extensions, '\ufffd' ∉ given.toList) :
    Wanted extensions path ↔ HasGiven extensions path := by
  refine ⟨?_, HasGiven.wanted⟩
  rintro ⟨extension, hpath, hgives⟩
  have ⟨_, given, hgiven, points, hcut, _⟩ := hgives
  have hshown : '\ufffd' ∉ extension.shown.toList := by
    intro hmem
    refine h given hgiven ?_
    rw [hcut]
    exact List.mem_append_right points hmem
  rw [RawText.eq_ofString_shown hshown] at hpath
  exact ⟨extension.shown, hpath, hgives⟩

/-- A name that only starts with a point has no extension, and one that ends in a point has the
empty one, which points alone ask for. -/
example : ¬ Wanted ["json", ""] "d/.json" ∧ ¬ Wanted ["", "d"] "d/json" ∧ Wanted [".."] "d/json." ∧
    Wanted [".json"] "d/..json" := by decide

end GraphDoc.Command
