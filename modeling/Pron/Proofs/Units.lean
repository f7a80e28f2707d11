import Pron.FileTree
import Pron.Proofs.Reserved.Programs

/-!
# Which units are looked for

The only names under which a session looks for units are identifiers that are no keywords, whatever sources and units it
is given (`requests_names`). Such a name has no slash in it and with its extension is neither `.` nor `..`, so the file
of the unit lies directly in the directory of the units (`IsName.steps_join`, `IsName.follow_unit`).
-/

namespace Pron

/-! ## Parts of paths -/

namespace SourcePath

variable {path directory name : String}

theorem steps_eq_nil_of_empty : steps "" = [] := rfl

/-- What stands on either side of a slash is split apart. -/
theorem steps_append_slash (front back : String) : steps (front ++ "/" ++ back) = steps front ++ steps back := by
  have hsplit : (front ++ "/" ++ back).toList = front.toList ++ '/' :: back.toList := by simp
  rw [steps, hsplit, List.splitOn_append_cons_self, List.map_append, List.filter_append, steps, steps]

/-- A name without a slash is one part. -/
theorem steps_of_no_slash (hname : '/' ∉ name.toList) (hne : name ≠ "") : steps name = [name] := by
  rw [steps, List.splitOn_eq_singleton hname]
  simp [hne]

theorem isAbsolute_append (hne : directory ≠ "") : isAbsolute (directory ++ name) = isAbsolute directory := by
  have hlist : directory.toList ≠ [] := fun h => hne (String.toList_inj.1 h)
  obtain ⟨c, rest, h⟩ := List.exists_cons_of_ne_nil hlist
  simp [isAbsolute, h]

/-- A path with a slash at its end is another one with a slash behind it. -/
theorem exists_of_endsInSlash (h : endsInSlash path) : ∃ front, path = front ++ "/" := by
  have hlast : path.toList.getLast? = some '/' := by simpa [endsInSlash] using h
  obtain ⟨front, hfront⟩ := List.getLast?_eq_some_iff.1 hlast
  exact ⟨String.ofList front, String.toList_inj.1 (by simp [hfront])⟩

/-- The file of a name without a slash is one part further than the directory. -/
theorem steps_join (hname : '/' ∉ name.toList) (hne : name ≠ "") :
    steps (join directory name) = steps directory ++ [name] := by
  have habsolute : isAbsolute name = false := by
    rw [isAbsolute, beq_eq_false_iff_ne]
    exact fun h => hname (List.mem_of_mem_head? h)
  unfold join
  by_cases hempty : directory = ""
  · rw [if_pos (.inr hempty), steps_of_no_slash hname hne, hempty]
    rfl
  rw [if_neg (by simp [habsolute, hempty])]
  split
  · next hslash =>
    obtain ⟨front, rfl⟩ := exists_of_endsInSlash hslash
    have hfront : steps (front ++ "/") = steps front := by
      have := steps_append_slash front ""
      rwa [String.append_empty, steps_eq_nil_of_empty, List.append_nil] at this
    rw [steps_append_slash, steps_of_no_slash hname hne, hfront]
  · rw [steps_append_slash, steps_of_no_slash hname hne]

theorem isAbsolute_join (hname : '/' ∉ name.toList) : isAbsolute (join directory name) = isAbsolute directory := by
  have habsolute : isAbsolute name = false := by
    rw [isAbsolute, beq_eq_false_iff_ne]
    exact fun h => hname (List.mem_of_mem_head? h)
  unfold join
  by_cases hempty : directory = ""
  · rw [if_pos (.inr hempty), habsolute, hempty]
    rfl
  rw [if_neg (by simp [habsolute, hempty])]
  split
  · exact isAbsolute_append hempty
  · rw [String.append_assoc]
    exact isAbsolute_append hempty

end SourcePath

/-- What is opened as a file is found at the place that the path leads to. -/
theorem FileTree.openFile_cases {t : FileTree} {path : String} {bytes : List UInt8}
    (h : t.openFile path = .ok (.file bytes)) :
    ∃ place, t.follow path (SourcePath.steps path) = .ok place ∧ t.nodeAt? place = some (.file bytes) := by
  unfold FileTree.openFile at h
  cases hlength : checkLength path with
  | error e =>
    rw [hlength] at h
    cases h
  | ok =>
    rw [hlength] at h
    cases hplace : t.follow path (SourcePath.steps path) with
    | error e =>
      rw [hplace] at h
      cases h
    | ok place =>
      rw [hplace] at h
      refine ⟨place, rfl, ?_⟩
      dsimp only [bind, Except.bind] at h
      split at h
      · cases h
      · cases h
      · next hnode =>
        split at h
        · cases h
        · cases h
          exact hnode

/-! ## Names of units -/

namespace IsName

open SourcePath

variable {x : String} {directory source : String} {t : FileTree} {place : List String}

theorem not_keyword (hx : IsName x) : x ∉ TokenKind.keywords.map Prod.fst := by
  intro hmem
  have hall : ∀ word ∈ TokenKind.keywords.map Prod.fst, TokenKind.ofWord word ≠ .ident := by decide
  exact hall x hmem hx.1

/-- The name of the file is longer than that of the class, and has no slash either. -/
theorem unitName (hx : IsName x) : '/' ∉ (unitName x).toList ∧ 6 ≤ (SourcePath.unitName x).length := by
  obtain ⟨-, c, text, hlist, hc, htext⟩ := hx
  have hunit : (SourcePath.unitName x).toList = c :: text ++ ['.', 'p', 'r', 'o', 'n'] := by
    simp [SourcePath.unitName, SourcePath.extension, hlist]
  constructor
  · rw [hunit]
    intro hmem
    rcases List.mem_append.1 hmem with hmem | hmem
    · rcases List.mem_cons.1 hmem with rfl | hmem
      · exact absurd hc (by decide)
      · exact absurd (htext _ hmem) (by decide)
    · exact absurd hmem (by decide)
  · rw [← String.length_toList, hunit]
    simp

theorem unitName_ne (hx : IsName x) : SourcePath.unitName x ∉ ["", ".", ".."] := by
  intro hmem
  have hshort : ∀ name ∈ ["", ".", ".."], name.length < 6 := by decide
  have := hshort _ hmem
  have := hx.unitName.2
  omega

theorem steps_join (hx : IsName x) : steps (join directory (SourcePath.unitName x)) =
    steps directory ++ [SourcePath.unitName x] :=
  SourcePath.steps_join hx.unitName.1 fun h => hx.unitName_ne (by simp [h])

/-- The way to the file of a unit is the way to the directory and one part more, which stays below it. -/
theorem follow_unit (hx : IsName x)
    (h : t.follow (join directory (SourcePath.unitName x)) (steps (join directory (SourcePath.unitName x))) =
      .ok place) :
    ∃ root, t.follow directory (steps directory) = .ok root ∧ t.isDirectory root ∧
      place = root ++ [SourcePath.unitName x] := by
  have hne := hx.unitName_ne
  simp only [List.mem_cons, List.not_mem_nil, or_false, not_or] at hne
  obtain ⟨-, hdot, hdots⟩ := hne
  rw [FileTree.follow, hx.steps_join, isAbsolute_join hx.unitName.1, List.foldlM_append] at h
  change (t.follow directory (steps directory) >>= fun root => [SourcePath.unitName x].foldlM t.enter root) = _ at h
  cases hroot : t.follow directory (steps directory) with
  | error e =>
    rw [hroot] at h
    cases h
  | ok root =>
    rw [hroot] at h
    change (t.enter root (SourcePath.unitName x) >>= fun place => .ok place) = _ at h
    by_cases hdirectory : t.isDirectory root
    · refine ⟨root, rfl, hdirectory, ?_⟩
      unfold FileTree.enter at h
      rw [if_neg (by simp [hdirectory]), if_neg hdot, if_neg hdots] at h
      split at h
      · cases h
      · cases h
        rfl
    · unfold FileTree.enter at h
      rw [if_pos (by simpa using hdirectory)] at h
      cases h

/-- The source of a unit is the content of the file that lies under its name in the directory itself. -/
theorem source_of_unit (hx : IsName x) (h : t.toFiles.library directory x = .ok source) :
    ∃ root bytes, t.follow directory (steps directory) = .ok root ∧ t.isDirectory root ∧
      t.nodeAt? (root ++ [SourcePath.unitName x]) = some (.file bytes) ∧ Text.decodeUtf8 bytes = .ok source := by
  unfold Files.library at h
  split at h
  · next bytes hopen =>
    have hdecode : Text.decodeUtf8 bytes = .ok source := by
      cases hbytes : Text.decodeUtf8 bytes with
      | error e =>
        rw [hbytes] at h
        cases h
      | ok text =>
        rw [hbytes] at h
        cases h
        rfl
    obtain ⟨place, hplace, hnode⟩ := t.openFile_cases hopen
    obtain ⟨root, hroot, hdirectory, rfl⟩ := hx.follow_unit hplace
    exact ⟨root, bytes, hroot, hdirectory, hnode, hdecode⟩
  · cases h

end IsName

/-! ## Sessions -/

/-- **The names of units.** Whatever sources a session is given, with errors or without, and whatever texts it finds as
units, also for the units of units: each name that it looks for is an identifier and no keyword. In every directory the
file of such a unit is one part further than the directory, so it lies in the directory itself, and in a tree of files
its source is read there and nowhere else. -/
theorem requests_names {s : Store} (h : SourceReachable s) : ∀ x ∈ s.requests,
    IsName x ∧ x ∉ TokenKind.keywords.map Prod.fst ∧ ∀ directory,
      let path := SourcePath.join directory (SourcePath.unitName x)
      SourcePath.steps path = SourcePath.steps directory ++ [SourcePath.unitName x] ∧
      SourcePath.isAbsolute path = SourcePath.isAbsolute directory ∧
      '/' ∉ (SourcePath.unitName x).toList ∧ SourcePath.unitName x ∉ ["", ".", ".."] ∧
      ∀ (t : FileTree) source, t.toFiles.library directory x = .ok source →
        ∃ root bytes, t.follow directory (SourcePath.steps directory) = .ok root ∧ t.isDirectory root ∧
          t.nodeAt? (root ++ [SourcePath.unitName x]) = some (.file bytes) ∧ Text.decodeUtf8 bytes = .ok source := by
  intro x hrequest
  have hx := h.reserved.request x hrequest
  exact ⟨hx, hx.not_keyword, fun directory => ⟨hx.steps_join, SourcePath.isAbsolute_join hx.unitName.1, hx.unitName.1,
    hx.unitName_ne, fun _ _ => hx.source_of_unit⟩⟩

/-- A tree of files with a unit that needs another one, which is not there; both stand below `lib`. -/
def unitTree : FileTree := .ofFiles ["tmp"] [("lib/Outer.pron", "class Outer { var i = new Inner(); } )".toUTF8.toList)]

/-- The store after a source with an error that asks for the outer unit. -/
def asking : Store :=
  (Outcome.of (Eval.program (Eval.exprUntil (unitTree.toFiles.library "lib") (fun _ _ _ _ => false) 6 [])
    (parseSource "var o = new Outer(); ) = ").program Session.start.frame) Session.start.store).2

theorem asking_names : SourceReachable asking ∧ asking.requests = ["Outer", "Inner"] ∧
    IsName "Inner" ∧ "Inner" ∉ TokenKind.keywords.map Prod.fst ∧
    SourcePath.steps (SourcePath.join "lib" "Inner.pron") = ["lib", "Inner.pron"] := by
  have hreach : SourceReachable asking := .run _ _ _ _ .start
  have hrequests : asking.requests = ["Outer", "Inner"] := by decide +kernel
  obtain ⟨hname, hkeyword, hfile⟩ := requests_names hreach "Inner" (by rw [hrequests]; decide)
  exact ⟨hreach, hrequests, hname, hkeyword, (hfile "lib").1⟩

end Pron
