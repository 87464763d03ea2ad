import Coupling.Discovery
import Coupling.Proofs.Path

/-! Test sources by the segments of their path. Searching a path for the text of a directory with separators
around it finds whole segments only, wherever in the path they stand. -/
namespace Coupling

theorem containsChars_iff {needle cs : List Char} : containsChars needle cs = true ↔ needle <:+: cs := by
  induction cs with
  | nil => simp [containsChars]
  | cons c rest ih => simp [containsChars,ih,List.infix_cons_iff]

/-- Whether a path goes through a directory `test`: one that stands in a directory `src` is one as well. -/
theorem entersTests_iff {path : String} :
    (testDirectories.any fun d =>
      containsChars ("/" ++ d).toList path.toList || Text.startsWith path d) = true ↔
      "test".toList ∈ (path.toList.splitOn '/').dropLast := by
  simp only [List.any_eq_true,Bool.or_eq_true,containsChars_iff,Text.startsWith,List.isPrefixOf_iff_prefix]
  constructor
  · rintro ⟨d,listed,entered⟩
    apply Text.mem_splitOn_of_bounded (by decide)
    simp only [testDirectories,List.mem_cons,List.not_mem_nil,or_false] at listed
    rcases listed with rfl | rfl
    · have nested : "/test/".toList <:+: "src/test/".toList := ⟨"src".toList,[],rfl⟩
      right
      rcases entered with inside | starts
      · exact nested.trans ((List.suffix_cons '/' "src/test/".toList).isInfix.trans inside)
      · exact nested.trans starts.isInfix
    · exact entered.symm
  · intro member
    exact ⟨"test/",by decide,(Text.bounded_of_mem_splitOn member).symm⟩

/-- Test sources are told by whole segments of their path: a directory is named `test`, or the file is named
as tests are. -/
theorem test_sources_by_segments (path : String) :
    isTestSource path = true ↔ ∃ directories file, path.toList.splitOn '/' = directories ++ [file] ∧
      ("test".toList ∈ directories ∨ "Test.java".toList <:+ file ∨ "Tests.java".toList <:+ file) := by
  obtain ⟨directories,file,split⟩ : ∃ directories file, path.toList.splitOn '/' = directories ++ [file] :=
    ⟨_,_,(List.dropLast_concat_getLast (List.splitOn_ne_nil '/' path.toList)).symm⟩
  have name : (Path.parts ⟨path⟩).getLast?.getD "" = String.ofList file := by
    simp [Path.parts,Path.splitChars_eq,split]
  have segments : isTestSource path = true ↔
      "test".toList ∈ directories ∨ "Test.java".toList <:+ file ∨ "Tests.java".toList <:+ file := by
    rw [isTestSource, Bool.or_eq_true, entersTests_iff, split, List.dropLast_concat, name]
    simp [Text.endsWith]
  rw [segments]
  constructor
  · intro found
    exact ⟨directories,file,split,found⟩
  · rintro ⟨directories',file',split',found⟩
    obtain ⟨rfl,same⟩ := List.append_inj' (split.symm.trans split') rfl
    obtain rfl := List.singleton_inj.mp same
    exact found

example : isTestSource "test" = false ∧ isTestSource "a//test/" = true ∧
    isTestSource "tests/Testimony.java" = false := by decide

end Coupling
