import GraphDoc.Proofs.FileExtensions
import GraphDoc.Proofs.Selection

/-!
# Files under an entry

The files and the failures of a walk by recursion on the tree alone: what lies at and under an
entry, as far as its directories can be listed.
-/
namespace GraphDoc.Command

/-! ## Files at and under an entry -/

namespace Entry

mutual

/-- The files at and under an entry, in the order of the directories. Nothing in a directory is
within reach where it cannot be listed. -/
def filesFrom (path : RawText) : Entry → List SourceFile
  | file contents => [⟨path, contents⟩]
  | directory entries closed =>
    match listingError? path closed with
    | some _ => []
    | none => filesFromAll path entries

def filesFromAll (path : RawText) : List (RawText × Entry) → List SourceFile
  | [] => []
  | (name, entry) :: entries => filesFrom (childPath path name) entry ++ filesFromAll path entries

end

mutual

/-- The directories at and under an entry that cannot be listed. -/
def unlisted (path : RawText) : Entry → List (RawText × LookupError)
  | file _ => []
  | directory entries closed =>
    match listingError? path closed with
    | some error => [(path, error)]
    | none => unlistedAll path entries

def unlistedAll (path : RawText) : List (RawText × Entry) → List (RawText × LookupError)
  | [] => []
  | (name, entry) :: entries => unlisted (childPath path name) entry ++ unlistedAll path entries

end

/-- What lies at or under an entry, and at which path. -/
inductive LiesUnder : (path : RawText) → Entry → (place : RawText) → Entry → Prop where
  | here {path : RawText} {entry : Entry} : LiesUnder path entry path entry
  | inside {path name place : RawText} {entries : List (RawText × Entry)}
      {closed : Option LookupError} {child found : Entry} (listed : listingError? path closed = none)
      (member : (name, child) ∈ entries) (under : LiesUnder (childPath path name) child place found) :
      LiesUnder path (.directory entries closed) place found

theorem mem_filesFromAll {path : RawText} {entries : List (RawText × Entry)} {file : SourceFile} :
    file ∈ filesFromAll path entries ↔
      ∃ name child, (name, child) ∈ entries ∧ file ∈ filesFrom (childPath path name) child := by
  induction entries with
  | nil => simp [filesFromAll]
  | cons entry entries ih =>
    obtain ⟨name, child⟩ := entry
    rw [filesFromAll, List.mem_append, ih]
    simp only [List.mem_cons, Prod.mk.injEq]
    constructor
    · rintro (h | ⟨n, c, hm, h⟩)
      · exact ⟨name, child, .inl ⟨rfl, rfl⟩, h⟩
      · exact ⟨n, c, .inr hm, h⟩
    · rintro ⟨n, c, ⟨rfl, rfl⟩ | hm, h⟩
      · exact .inl h
      · exact .inr ⟨n, c, hm, h⟩

mutual

theorem liesUnder_of_mem_filesFrom {file : SourceFile} : ∀ (path : RawText) (entry : Entry),
    file ∈ entry.filesFrom path → LiesUnder path entry file.path (.file file.contents)
  | path, .file contents, h => by
    obtain rfl := List.mem_singleton.mp h
    exact .here
  | path, .directory entries closed, h => by
    rw [filesFrom] at h
    split at h
    · cases h
    · rename_i hlisted
      obtain ⟨name, child, hmember, hunder⟩ := liesUnder_of_mem_filesFromAll path entries h
      exact .inside hlisted hmember hunder

theorem liesUnder_of_mem_filesFromAll {file : SourceFile} :
    ∀ (path : RawText) (entries : List (RawText × Entry)), file ∈ filesFromAll path entries →
      ∃ name child, (name, child) ∈ entries ∧
        LiesUnder (childPath path name) child file.path (.file file.contents)
  | path, [], h => by cases h
  | path, (name, child) :: entries, h => by
    rw [filesFromAll, List.mem_append] at h
    rcases h with h | h
    · exact ⟨name, child, List.mem_cons_self .., liesUnder_of_mem_filesFrom _ child h⟩
    · obtain ⟨n, c, hmember, hunder⟩ := liesUnder_of_mem_filesFromAll path entries h
      exact ⟨n, c, List.mem_cons_of_mem _ hmember, hunder⟩

end

theorem mem_filesFrom_iff {path : RawText} {entry : Entry} {file : SourceFile} :
    file ∈ entry.filesFrom path ↔ LiesUnder path entry file.path (.file file.contents) := by
  refine ⟨liesUnder_of_mem_filesFrom path entry, fun h => ?_⟩
  -- on the way down to the file, each directory holds what its entries hold
  generalize hfound : Entry.file file.contents = found at h
  generalize hplace : file.path = place at h
  induction h with
  | here =>
    subst hfound hplace
    exact List.mem_singleton.mpr rfl
  | inside listed member under ih =>
    rw [filesFrom, listed]
    exact mem_filesFromAll.mpr ⟨_, _, member, ih hfound hplace⟩

/-- No directory at or under the entry holds more than one entry. -/
inductive Narrow : Entry → Prop where
  | file {contents : Except LookupError ByteArray} : Narrow (.file contents)
  | empty {closed : Option LookupError} : Narrow (.directory [] closed)
  | one {name : RawText} {child : Entry} {closed : Option LookupError} (inside : Narrow child) :
      Narrow (.directory [(name, child)] closed)

/-- In a narrow entry there is one way down, and nothing behind a directory that cannot be
listed. -/
theorem Narrow.length_unlisted_le {entry : Entry} (h : entry.Narrow) (path : RawText) :
    (entry.unlisted path).length ≤ 1 := by
  induction h generalizing path with
  | file => exact Nat.zero_le 1
  | @empty closed =>
    rw [unlisted]
    cases listingError? path closed with
    | some error => exact Nat.le_refl 1
    | none => exact Nat.zero_le 1
  | @one name child closed inside ih =>
    rw [unlisted]
    cases listingError? path closed with
    | some error => exact Nat.le_refl 1
    | none =>
      simp only [unlistedAll, List.append_nil]
      exact ih (childPath path name)

/-! ## Walks -/

mutual

theorem selected_walk (extensions : List String) : ∀ (path : RawText) (entry : Entry),
    (entry.walk path).filterMap (Visit.selected? (extensionSet extensions)) =
      (entry.filesFrom path).filter fun file => Wanted extensions file.path
  | path, .file contents => by
    have hselected : Visit.selected? (extensionSet extensions) (.file path contents) =
        if Wanted extensions path then some ⟨path, contents⟩ else none := by
      simp only [Visit.selected?, wanted_iff]
    rw [walk, filesFrom]
    by_cases h : Wanted extensions path
    · rw [List.filterMap_cons_some (hselected.trans (if_pos h)),
        List.filter_cons_of_pos (by simpa using h)]
      rfl
    · rw [List.filterMap_cons_none (hselected.trans (if_neg h)),
        List.filter_cons_of_neg (by simpa using h)]
      rfl
  | path, .directory entries closed => by
    rw [walk, filesFrom]
    cases listingError? path closed with
    | some error => rfl
    | none => exact selected_walkAll extensions path entries

theorem selected_walkAll (extensions : List String) :
    ∀ (path : RawText) (entries : List (RawText × Entry)),
      (walkAll path entries).filterMap (Visit.selected? (extensionSet extensions)) =
        (filesFromAll path entries).filter fun file => Wanted extensions file.path
  | path, [] => rfl
  | path, (name, entry) :: entries => by
    rw [walkAll, filesFromAll, List.filterMap_append, List.filter_append,
      selected_walk extensions _ entry, selected_walkAll extensions path entries]

end

mutual

theorem failures_walk : ∀ (path : RawText) (entry : Entry),
    (entry.walk path).filterMap Visit.failure? = entry.unlisted path
  | path, .file contents => rfl
  | path, .directory entries closed => by
    rw [walk, unlisted]
    cases listingError? path closed with
    | some error => rfl
    | none => exact failures_walkAll path entries

theorem failures_walkAll : ∀ (path : RawText) (entries : List (RawText × Entry)),
    (walkAll path entries).filterMap Visit.failure? = unlistedAll path entries
  | path, [] => rfl
  | path, (name, entry) :: entries => by
    rw [walkAll, unlistedAll, List.filterMap_append, failures_walk _ entry,
      failures_walkAll path entries]

end

end Entry

end GraphDoc.Command
