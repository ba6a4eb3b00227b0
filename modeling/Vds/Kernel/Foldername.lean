import Vds.Kernel.UrlParser

/-! `foldername`: the enumeration of the files below a folder. -/

namespace Vds

open Library.CallbackWalk UrlParser

/-- The name of a directory entry. -/
structure EntryName where
  text : StdString
  not_empty : text ≠ []
  no_slash : slash ∉ text
  deriving DecidableEq

/-- What `readdir` and `stat` see of a folder; a folder that cannot be opened has no entries. -/
inductive Folder
  | closed
  | file (name : EntryName) (next : Folder)
  | folder (name : EntryName) (contents next : Folder)
  /-- Neither a regular file nor a directory, or nothing that `stat` finds. -/
  | other (name : EntryName) (next : Folder)

namespace Foldername

def dot : UInt8 := ascii '.'

/-- `nullptr != strstr("..", name)`. -/
def isDots (name : EntryName) : Bool := name.text <:+: [dot, dot]

abbrev FileCallback := Callback StdString (Expected Bool)

abbrev FileCalls := StateM (List StdString)

def entryPath (base : StdString) (name : EntryName) : StdString := base ++ slash :: name.text

def filesLoop (callback : FileCallback) (base : StdString) : Folder → FileCalls Bool
  | .closed => pure true
  | .file name next =>
    if isDots name then filesLoop callback base next
    else do
      let r ← invoke callback (entryPath base name)
      if Expected.operatorNot r then
        return false
      else
        filesLoop callback base next
  | .folder _ _ next => filesLoop callback base next
  | .other _ next => filesLoop callback base next

def files (callback : FileCallback) (base : StdString) (folder : Folder) :
    FileCalls (Expected Bool) := do
  let result ← filesLoop callback base folder
  return .ok result

/-- An error and `false` are handed on, after `true` comes the rest. -/
def onTrue (r : Expected Bool) (rest : FileCalls (Expected Bool)) : FileCalls (Expected Bool) :=
  match r with
  | .error e => pure (.error e)
  | .ok value => if !value then pure (.ok false) else rest

def folders (callback : StdString → Folder → FileCalls (Expected Bool)) (base : StdString) :
    Folder → FileCalls (Expected Bool)
  | .closed => pure (.ok true)
  | .folder name contents next =>
    if isDots name then folders callback base next
    else do
      let r ← callback (entryPath base name) contents
      onTrue r (folders callback base next)
  | .file _ next => folders callback base next
  | .other _ next => folders callback base next

/-- `folders` with the callback that `files_recurcive` gives it. -/
def foldersRecurcive (callback : FileCallback) (base : StdString) :
    Folder → FileCalls (Expected Bool)
  | .closed => pure (.ok true)
  | .folder name contents next =>
    if isDots name then foldersRecurcive callback base next
    else do
      let result ← files callback (entryPath base name) contents
      let r ← onTrue result (foldersRecurcive callback (entryPath base name) contents)
      onTrue r (foldersRecurcive callback base next)
  | .file _ next => foldersRecurcive callback base next
  | .other _ next => foldersRecurcive callback base next

def filesRecurcive (callback : FileCallback) (base : StdString) (folder : Folder) :
    FileCalls (Expected Bool) := do
  let result ← files callback base folder
  onTrue result (foldersRecurcive callback base folder)

theorem foldersRecurcive_eq (callback : FileCallback) (base : StdString) (folder : Folder) :
    foldersRecurcive callback base folder = folders (filesRecurcive callback) base folder := by
  induction folder generalizing base with
  | closed => rfl
  | file name next ih => exact ih base
  | other name next ih => exact ih base
  | folder name contents next _ ihNext =>
    rw [foldersRecurcive, folders, ihNext]
    simp [filesRecurcive]

/-! ### The regular files below a folder -/

/-- The paths of the regular files of one folder. -/
def here : Folder → List (List EntryName)
  | .closed => []
  | .file name next => if isDots name then here next else [name] :: here next
  | .folder _ _ next => here next
  | .other _ next => here next

/-- The paths of the regular files in the folders of a folder. -/
def below : Folder → List (List EntryName)
  | .closed => []
  | .folder name contents next =>
    if isDots name then below next
    else (here contents ++ below contents).map (name :: ·) ++ below next
  | .file _ next => below next
  | .other _ next => below next

def paths (folder : Folder) : List (List EntryName) := here folder ++ below folder

def pathText (base : StdString) (path : List EntryName) : StdString :=
  base ++ path.flatMap (slash :: ·.text)

def regularFiles (base : StdString) (folder : Folder) : List StdString :=
  (paths folder).map (pathText base)

theorem pathText_cons (base : StdString) (name : EntryName) (path : List EntryName) :
    pathText base (name :: path) = pathText (entryPath base name) path := by
  simp [pathText, entryPath]

theorem filesLoop_run (callback : FileCallback) (base : StdString) (folder : Folder)
    (calls : List StdString) :
    filesLoop callback base folder calls = (true, calls ++ (here folder).map (pathText base)) := by
  induction folder generalizing calls with
  | closed => simp [filesLoop, here]; rfl
  | folder name contents next _ ih => exact ih calls
  | other name next ih => exact ih calls
  | file name next ih =>
    rw [filesLoop, here]
    by_cases hdots : isDots name
    · rw [if_pos hdots, if_pos hdots]
      exact ih calls
    · rw [if_neg hdots, if_neg hdots]
      have hcall : (do
          let r ← invoke callback (entryPath base name)
          if Expected.operatorNot r then return false else filesLoop callback base next :
            FileCalls Bool) calls
          = filesLoop callback base next (calls ++ [entryPath base name]) := by
        simp only [Expected.operatorNot_eq_false, Bool.false_eq_true, if_false]
        rfl
      rw [hcall, ih]
      simp [pathText, entryPath]

theorem files_run (callback : FileCallback) (base : StdString) (folder : Folder)
    (calls : List StdString) :
    files callback base folder calls
      = (.ok true, calls ++ (here folder).map (pathText base)) := by
  have hbind : files callback base folder calls
      = (.ok (filesLoop callback base folder calls).1,
          (filesLoop callback base folder calls).2) := rfl
  rw [hbind, filesLoop_run]

theorem foldersRecurcive_run (callback : FileCallback) (base : StdString) (folder : Folder)
    (calls : List StdString) :
    foldersRecurcive callback base folder calls
      = (.ok true, calls ++ (below folder).map (pathText base)) := by
  induction folder generalizing base calls with
  | closed => simp [foldersRecurcive, below]; rfl
  | file name next ih => exact ih base calls
  | other name next ih => exact ih base calls
  | folder name contents next ihContents ihNext =>
    rw [foldersRecurcive, below]
    by_cases hdots : isDots name
    · rw [if_pos hdots, if_pos hdots]
      exact ihNext base calls
    · rw [if_neg hdots, if_neg hdots]
      have hbind : (do
          let result ← files callback (entryPath base name) contents
          let r ← onTrue result (foldersRecurcive callback (entryPath base name) contents)
          onTrue r (foldersRecurcive callback base next) : FileCalls (Expected Bool)) calls
          = (do
              let r ← onTrue (files callback (entryPath base name) contents calls).1
                (foldersRecurcive callback (entryPath base name) contents)
              onTrue r (foldersRecurcive callback base next) : FileCalls (Expected Bool))
            (files callback (entryPath base name) contents calls).2 := rfl
      have hinner : ∀ before, (do
          let r ← onTrue (.ok true) (foldersRecurcive callback (entryPath base name) contents)
          onTrue r (foldersRecurcive callback base next) : FileCalls (Expected Bool)) before
          = onTrue (foldersRecurcive callback (entryPath base name) contents before).1
              (foldersRecurcive callback base next)
              (foldersRecurcive callback (entryPath base name) contents before).2 :=
        fun before => rfl
      rw [hbind, files_run, hinner, ihContents]
      have htrue : ∀ before, onTrue (.ok true) (foldersRecurcive callback base next) before
          = foldersRecurcive callback base next before := fun before => rfl
      rw [htrue, ihNext]
      simp [pathText_cons, Function.comp_def]

/-- Every regular file is handed to the callback, whatever it answers. -/
theorem filesRecurcive_run (callback : FileCallback) (base : StdString) (folder : Folder)
    (calls : List StdString) :
    filesRecurcive callback base folder calls
      = (.ok true, calls ++ regularFiles base folder) := by
  have hbind : filesRecurcive callback base folder calls
      = onTrue (files callback base folder calls).1 (foldersRecurcive callback base folder)
          (files callback base folder calls).2 := rfl
  have htrue : ∀ before, onTrue (.ok true) (foldersRecurcive callback base folder) before
      = foldersRecurcive callback base folder before := fun before => rfl
  rw [hbind, files_run, htrue, foldersRecurcive_run]
  simp [regularFiles, paths]

/-- The folder has a regular file at the path; `.` and `..` lead nowhere. -/
inductive HasFile : Folder → List EntryName → Prop
  | file (name next) (h : isDots name = false) : HasFile (.file name next) [name]
  | inside (name next) {contents path} (h : isDots name = false) :
      HasFile contents path → HasFile (.folder name contents next) (name :: path)
  | afterFile (name) {next path} : HasFile next path → HasFile (.file name next) path
  | afterFolder (name contents) {next path} :
      HasFile next path → HasFile (.folder name contents next) path
  | afterOther (name) {next path} : HasFile next path → HasFile (.other name next) path

/-- The names of the entries of one folder. -/
def names : Folder → List EntryName
  | .closed => []
  | .file name next => name :: names next
  | .folder name _ next => name :: names next
  | .other name next => name :: names next

/-- No folder has two entries of one name. -/
def Distinct : Folder → Prop
  | .closed => True
  | .file name next => name ∉ names next ∧ Distinct next
  | .folder name contents next => name ∉ names next ∧ Distinct contents ∧ Distinct next
  | .other name next => name ∉ names next ∧ Distinct next

theorem hasFile_of_mem {folder : Folder} {path : List EntryName} (h : path ∈ paths folder) :
    HasFile folder path := by
  induction folder generalizing path with
  | closed => simp [paths, here, below] at h
  | other name next ih => exact .afterOther name (ih h)
  | file name next ih =>
    by_cases hdots : isDots name
    · exact .afterFile name (ih (by simpa [paths, here, below, hdots] using h))
    · have hcases : path = [name] ∨ path ∈ paths next := by
        simpa [paths, here, below, hdots, or_assoc] using h
      rcases hcases with rfl | hnext
      · exact .file name next (by simpa using hdots)
      · exact .afterFile name (ih hnext)
  | folder name contents next ihContents ihNext =>
    by_cases hdots : isDots name
    · exact .afterFolder name contents (ihNext (by simpa [paths, here, below, hdots] using h))
    · have hcases : (∃ rest ∈ paths contents, name :: rest = path) ∨ path ∈ paths next := by
        simp only [paths, here, below, hdots, Bool.false_eq_true, if_false, List.mem_append,
          List.mem_map] at h ⊢
        rcases h with hhere | hinside | hbelow
        · exact Or.inr (Or.inl hhere)
        · exact Or.inl hinside
        · exact Or.inr (Or.inr hbelow)
      rcases hcases with ⟨rest, hrest, rfl⟩ | hnext
      · exact .inside name next (by simpa using hdots) (ihContents hrest)
      · exact .afterFolder name contents (ihNext hnext)

theorem mem_of_hasFile {folder : Folder} {path : List EntryName} (h : HasFile folder path) :
    path ∈ paths folder := by
  induction h with
  | file name next h => simp [paths, here, h]
  | inside name next h _ ih =>
    simp only [paths, here, below, h, Bool.false_eq_true, if_false, List.mem_append,
      List.mem_map] at ih ⊢
    exact Or.inr (Or.inl ⟨_, ih, rfl⟩)
  | afterFile name _ ih =>
    by_cases hdots : isDots name
    · simpa [paths, here, below, hdots] using ih
    · simp only [paths, here, below, hdots, List.mem_append] at ih ⊢
      simp only [Bool.false_eq_true, if_false, List.mem_cons]
      tauto
  | afterFolder name contents _ ih =>
    by_cases hdots : isDots name
    · simpa [paths, here, below, hdots] using ih
    · simp only [paths, here, below, hdots, List.mem_append] at ih ⊢
      simp only [Bool.false_eq_true, if_false, List.mem_append]
      tauto
  | afterOther name _ ih => exact ih

theorem mem_paths_iff {folder : Folder} {path : List EntryName} :
    path ∈ paths folder ↔ HasFile folder path :=
  ⟨hasFile_of_mem, mem_of_hasFile⟩

theorem mem_here {folder : Folder} {path : List EntryName} (h : path ∈ here folder) :
    ∃ name ∈ names folder, path = [name] := by
  induction folder with
  | closed => simp [here] at h
  | other name next ih =>
    obtain ⟨found, hfound, rfl⟩ := ih h
    exact ⟨found, List.mem_cons_of_mem _ hfound, rfl⟩
  | folder name contents next _ ih =>
    obtain ⟨found, hfound, rfl⟩ := ih h
    exact ⟨found, List.mem_cons_of_mem _ hfound, rfl⟩
  | file name next ih =>
    have hcases : path = [name] ∨ path ∈ here next := by
      rw [here] at h
      split at h
      · exact Or.inr h
      · exact List.mem_cons.mp h
    rcases hcases with rfl | hnext
    · exact ⟨name, List.mem_cons_self .., rfl⟩
    · obtain ⟨found, hfound, rfl⟩ := ih hnext
      exact ⟨found, List.mem_cons_of_mem _ hfound, rfl⟩

theorem here_ne_nil {folder : Folder} {path : List EntryName} (h : path ∈ here folder) :
    path ≠ [] := by
  obtain ⟨name, -, rfl⟩ := mem_here h
  simp

/-- A file of an inner folder has a path of at least two names. -/
theorem mem_below {folder : Folder} {path : List EntryName} (h : path ∈ below folder) :
    ∃ name ∈ names folder, ∃ rest, rest ≠ [] ∧ path = name :: rest := by
  induction folder generalizing path with
  | closed => simp [below] at h
  | other name next ih =>
    obtain ⟨found, hfound, rest, hrest, rfl⟩ := ih h
    exact ⟨found, List.mem_cons_of_mem _ hfound, rest, hrest, rfl⟩
  | file name next ih =>
    obtain ⟨found, hfound, rest, hrest, rfl⟩ := ih h
    exact ⟨found, List.mem_cons_of_mem _ hfound, rest, hrest, rfl⟩
  | folder name contents next ihContents ihNext =>
    have hcases : (∃ rest, (rest ∈ here contents ∨ rest ∈ below contents) ∧ name :: rest = path)
        ∨ path ∈ below next := by
      rw [below] at h
      split at h
      · exact Or.inr h
      · simpa only [List.mem_append, List.mem_map] using h
    rcases hcases with ⟨rest, hrest, rfl⟩ | hnext
    · refine ⟨name, List.mem_cons_self .., rest, ?_, rfl⟩
      rcases hrest with hhere | hbelow
      · exact here_ne_nil hhere
      · obtain ⟨inner, -, more, -, rfl⟩ := ihContents hbelow
        simp
    · obtain ⟨found, hfound, rest, hrest, rfl⟩ := ihNext hnext
      exact ⟨found, List.mem_cons_of_mem _ hfound, rest, hrest, rfl⟩

theorem here_disjoint_below (folder other : Folder) :
    List.Disjoint (here folder) (below other) := by
  intro path hhere hbelow
  obtain ⟨name, -, rfl⟩ := mem_here hhere
  obtain ⟨name', -, rest, hrest, heq⟩ := mem_below hbelow
  exact hrest (List.cons.inj heq).2.symm

theorem here_nodup {folder : Folder} (h : Distinct folder) : (here folder).Nodup := by
  induction folder with
  | closed => simp [here]
  | other name next ih => exact ih h.2
  | folder name contents next _ ih => exact ih h.2.2
  | file name next ih =>
    rw [here]
    split
    · exact ih h.2
    · rw [List.nodup_cons]
      refine ⟨?_, ih h.2⟩
      intro hmem
      obtain ⟨found, hfound, heq⟩ := mem_here hmem
      have hsame : name = found := by simpa using heq
      exact h.1 (hsame ▸ hfound)

theorem below_nodup {folder : Folder} (h : Distinct folder) : (below folder).Nodup := by
  induction folder with
  | closed => simp [below]
  | other name next ih => exact ih h.2
  | file name next ih => exact ih h.2
  | folder name contents next ihContents ihNext =>
    rw [below]
    split
    · exact ihNext h.2.2
    · have hcontents : (here contents ++ below contents).Nodup :=
        (here_nodup h.2.1).append (ihContents h.2.1) (here_disjoint_below contents contents)
      refine (hcontents.map (List.cons_injective)).append (ihNext h.2.2) ?_
      intro path hinside hnext
      obtain ⟨rest, -, rfl⟩ := List.mem_map.mp hinside
      obtain ⟨found, hfound, rest', -, heq⟩ := mem_below hnext
      exact h.1 ((List.cons.inj heq).1 ▸ hfound)

theorem paths_nodup {folder : Folder} (h : Distinct folder) : (paths folder).Nodup :=
  (here_nodup h).append (below_nodup h) (here_disjoint_below folder folder)

theorem takeWhile_name (name : EntryName) (path : List EntryName) :
    (name.text ++ path.flatMap (slash :: ·.text)).takeWhile (· != slash) = name.text := by
  have hname : ∀ b ∈ name.text, (b != slash) = true := by
    intro b hb
    rw [bne_iff_ne]
    rintro rfl
    exact name.no_slash hb
  rw [List.takeWhile_append_of_pos hname]
  cases path with
  | nil => simp
  | cons next path => simp

/-- Names have no slash, so a path can be read off its text. -/
theorem pathText_injective (base : StdString) : Function.Injective (pathText base) := by
  intro path
  induction path generalizing base with
  | nil =>
    intro other h
    cases other with
    | nil => rfl
    | cons name other => simp [pathText] at h
  | cons name path ih =>
    intro other h
    cases other with
    | nil => simp [pathText] at h
    | cons name' other =>
      have htext : name.text ++ path.flatMap (slash :: ·.text)
          = name'.text ++ other.flatMap (slash :: ·.text) := by
        simpa [pathText] using h
      have hname : name = name' := by
        have hsame := congrArg (List.takeWhile (· != slash)) htext
        rw [takeWhile_name, takeWhile_name] at hsame
        cases name
        cases name'
        simpa using hsame
      subst hname
      rw [pathText_cons, pathText_cons] at h
      rw [ih _ h]

theorem regularFiles_nodup {folder : Folder} (h : Distinct folder) (base : StdString) :
    (regularFiles base folder).Nodup :=
  (paths_nodup h).map (pathText_injective base)

theorem mem_regularFiles {folder : Folder} {base text : StdString} :
    text ∈ regularFiles base folder ↔ ∃ path, HasFile folder path ∧ pathText base path = text := by
  simp only [regularFiles, List.mem_map, mem_paths_iff]

/-- A directory tree. -/
structure Tree where
  base : StdString
  root : Folder
  distinct : Distinct root

/-- The callback sees each regular file once, in the order of the walk, until it stops it. -/
structure FilesObey (tree : Tree) (callback : FileCallback) : Prop where
  once : (regularFiles tree.base tree.root).Nodup
  all : ∀ text, text ∈ regularFiles tree.base tree.root ↔
    ∃ path, HasFile tree.root path ∧ pathText tree.base path = text
  stops : Obeys GoesOn callback (regularFiles tree.base tree.root)
    (filesRecurcive callback tree.base tree.root []).2
    (filesRecurcive callback tree.base tree.root []).1

theorem filesObey_iff (tree : Tree) (callback : FileCallback) :
    FilesObey tree callback ↔ AllGoOn GoesOn callback (regularFiles tree.base tree.root) := by
  have hstops : Obeys GoesOn callback (regularFiles tree.base tree.root)
      (filesRecurcive callback tree.base tree.root []).2
      (filesRecurcive callback tree.base tree.root []).1
        ↔ AllGoOn GoesOn callback (regularFiles tree.base tree.root) := by
    rw [filesRecurcive_run, List.nil_append]
    exact obeys_all_iff rfl
  constructor
  · intro h
    exact hstops.mp h.stops
  · intro h
    exact ⟨regularFiles_nodup tree.distinct tree.base, fun text => mem_regularFiles,
      hstops.mpr h⟩

/-- The two walks stop when told to exactly when the list of addresses is told so by its last
item and the files never. -/
theorem walks_obey_iff (addresses : StdString) (handler : Handler) (tree : Tree)
    (callback : FileCallback) :
    (Obeys GoesOn handler (items (pieces addresses)) (parseAddresses addresses handler []).2
        (parseAddresses addresses handler []).1 ∧ FilesObey tree callback) ↔
      StopsInTime handler (pieces addresses) ∧
        AllGoOn GoesOn callback (regularFiles tree.base tree.root) := by
  rw [parseAddresses_obeys, filesObey_iff]

/-- `a:;b:` -/
def twoAddresses : StdString := [ascii 'a', colon, semicolon, ascii 'b', colon]

def fileName (c : Char) (h : slash ∉ [ascii c]) : EntryName := ⟨[ascii c], by simp, h⟩

/-- A folder with the files `a` and `b`. -/
def twoFiles : Tree where
  base := []
  root := .file (fileName 'a' (by decide +kernel)) (.file (fileName 'b' (by decide +kernel)) .closed)
  distinct := by
    simp only [Distinct, names, and_true]
    decide +kernel

/-- A callback that says `false` to the first item is called on the second one as well. -/
theorem not_walks_obey_two :
    ¬Obeys GoesOn (fun _ _ => .ok false) (items (pieces twoAddresses))
        (parseAddresses twoAddresses (fun _ _ => .ok false) []).2
        (parseAddresses twoAddresses (fun _ _ => .ok false) []).1 ∧
      ¬FilesObey twoFiles (fun _ _ => .ok false) := by
  constructor
  · intro h
    have hstop := (parseAddresses_obeys _ _).mp h
    have hpieces : pieces twoAddresses
        = [] ++ [ascii 'a', colon] :: [[ascii 'b', colon]] := by decide +kernel
    have hfirst := hstop _ _ _ hpieces (by simp) allGoOn_nil
    rcases hfirst.2 with hgo | ⟨hnone, -⟩
    · cases hgo
    · exact hnone _ (List.mem_singleton_self _) (by simp)
  · intro h
    have hgo := (filesObey_iff _ _).mp h
    have hfiles : regularFiles twoFiles.base twoFiles.root
        = [] ++ [slash, ascii 'a'] :: [[slash, ascii 'b']] := by decide +kernel
    have hfirst := hgo _ _ _ hfiles
    cases hfirst

end Foldername

end Vds
