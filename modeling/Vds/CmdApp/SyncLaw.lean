import Vds.CmdApp.SyncTasks

/-! When `sync_files` loses nothing: which names of the feed may be downloaded over what is on the disk. -/

namespace Vds.CmdApp

open StateError Foldername UrlParser

theorem mem_foldl_scanFile {outputFolder fn : StdString} {filters calls : List StdString}
    {files : Std.TreeSet StdString} : fn ∈ calls.foldl (scanFile outputFolder filters) files ↔
      fn ∈ files ∨ fn ∈ calls ∧ fn ≠ configFile outputFolder ∧ filtered filters fn = false := by
  induction calls generalizing files with
  | nil => simp
  | cons call calls ih =>
    have hcall : fn ∈ scanFile outputFolder filters files call ↔
        fn ∈ files ∨ fn = call ∧ fn ≠ configFile outputFolder ∧ filtered filters fn = false := by
      unfold scanFile
      split_ifs with hconfig hfilter
      · exact ⟨.inl, fun h => h.resolve_right fun h => h.2.1 (h.1.trans hconfig)⟩
      · refine ⟨.inl, fun h => h.resolve_right fun h => ?_⟩
        rw [h.1, hfilter] at h
        exact absurd h.2.2 (by decide)
      · rw [Std.TreeSet.mem_insert, Std.LawfulEqCmp.compare_eq_iff_eq]
        refine ⟨fun h => h.symm.imp_right fun h => ?_, fun h => h.symm.imp_left fun h => h.1.symm⟩
        subst h
        exact ⟨rfl, hconfig, eq_false_of_ne_true hfilter⟩
    rw [List.foldl_cons, ih, hcall, List.mem_cons, or_assoc, or_and_right]

theorem hasFile_ne_nil {folder : Folder} {path : List EntryName} (h : HasFile folder path) : path ≠ [] := by
  induction h with
  | file => exact List.cons_ne_nil _ _
  | inside => exact List.cons_ne_nil _ _
  | afterFile _ _ ih => exact ih
  | afterFolder _ _ _ ih => exact ih
  | afterOther _ _ ih => exact ih

namespace SyncInput

variable {sys : System} (input : SyncInput sys) (cfg : SyncConfig) (name2file : NameFiles)

/-! ### Places and versions -/

def Inside (place : Place) : Prop := input.root <+: place ∧ place ≠ input.root

/-- The exclude list filtered the file at the place out of the scan. -/
def Excluded (place : Place) : Prop :=
  ∃ fn ∈ regularFiles input.outputFolder input.folder, fn ≠ configFile input.outputFolder ∧
    filtered input.filters fn = true ∧ sys.locate fn = some place

/-- The path of a name in the channel. -/
def localFile (name : StdString) : StdString := input.outputFolder ++ slash :: localName cfg name

/-- The name in the channel of a path. -/
def remoteFile (fn : StdString) : StdString := remoteName cfg (fn.drop (input.outputFolder.length + 1))

/-- The file of this name in the channel is the one at the place, in the one direction or in the other. -/
def KeptAt (name : StdString) (place : Place) : Prop :=
  sys.locate (input.localFile cfg name) = some place ∨
    ∃ fn ∈ input.scanned, sys.locate fn = some place ∧ input.remoteFile cfg fn = name

/-- The feed has a version with the id of the file at the place. -/
def Version (place : Place) (id : ConstDataBuffer) : Prop :=
  ∃ name history, name2file[name]? = some history ∧ input.KeptAt cfg name place ∧
    ∃ info ∈ history, info.objectId = id

/-! ### The tasks -/

def uploadTask (fn : StdString) : Task :=
  match name2file[input.remoteFile cfg fn]? with
  | none => .upload fn (input.remoteFile cfg fn)
  | some history => .sync fn (input.remoteFile cfg fn) history true

def downloadTask (name : StdString × List SyncFileInfo) : Task :=
  if input.localFile cfg name.1 ∈ input.scanned then .sync (input.localFile cfg name.1) name.1 name.2 false
  else .download (input.localFile cfg name.1) name.1 name.2

def uploadTasks : List Task :=
  if input.styleIs ["default", "upload"] then input.scanned.toList.map (input.uploadTask cfg name2file) else []

def downloadTasks : List Task :=
  if input.styleIs ["default", "download"] then name2file.toList.map (input.downloadTask cfg) else []

/-- The files of the folder and the names in the feed, in the order in which the run comes to them. -/
def tasks : List Task := input.uploadTasks cfg name2file ++ input.downloadTasks cfg name2file

/-- A name that is not the name of a scanned file leads into the folder and not to a file that is excluded, nor to
one whose bytes are no version of it and are not uploaded before, if the run comes to the name and the newest
version can be had. -/
def Harmless : Prop :=
  ∀ before fn name newest rest after,
    input.tasks cfg name2file = before ++ .download fn name (newest :: rest) :: after →
    AllPass sys input.files before → (∃ data, sys.sha256 data = newest.objectId) →
    ∀ place, sys.locate fn = some place → input.Inside place ∧
      ∀ data, input.files place = some data → ¬ input.Excluded place ∧
        (input.Version cfg name2file place (sys.sha256 data) ∨
          ∃ t ∈ before, t.Uploads sys input.files data)

variable {input cfg name2file}

theorem mem_scanned {fn : StdString} : fn ∈ input.scanned ↔
    fn ∈ regularFiles input.outputFolder input.folder ∧ fn ≠ configFile input.outputFolder ∧
      filtered input.filters fn = false := by
  unfold scanned scan
  rw [filesRecurcive_run, List.nil_append, mem_foldl_scanFile]
  exact ⟨fun h => h.resolve_left Std.TreeSet.not_mem_emptyc, .inr⟩

theorem locate_regular {fn : StdString} (h : fn ∈ regularFiles input.outputFolder input.folder) :
    ∃ path, HasFile input.folder path ∧ fn = pathText input.outputFolder path ∧
      sys.locate fn = some (input.root ++ path.map EntryName.text) := by
  obtain ⟨path, hpath, rfl⟩ := mem_regularFiles.1 h
  exact ⟨path, hpath, rfl, input.located path (mem_paths_iff.2 hpath)⟩

theorem locate_inj {fn fn' : StdString} (h : fn ∈ regularFiles input.outputFolder input.folder)
    (h' : fn' ∈ regularFiles input.outputFolder input.folder) (heq : sys.locate fn = sys.locate fn') :
    fn = fn' := by
  obtain ⟨path, -, rfl, hplace⟩ := locate_regular h
  obtain ⟨path', -, rfl, hplace'⟩ := locate_regular h'
  rw [hplace, hplace'] at heq
  have hnames : path.map EntryName.text = path'.map EntryName.text :=
    List.append_cancel_left (Option.some.inj heq)
  have htext : Function.Injective EntryName.text := by
    rintro ⟨a, _, _⟩ ⟨b, _, _⟩ hab
    cases hab
    rfl
  rw [htext.list_map hnames]

/-- A scanned file is in the folder, is not excluded, and is there at the start. -/
theorem place_of_scanned {fn : StdString} (h : fn ∈ input.scanned) : ∃ place, sys.locate fn = some place ∧
    input.Inside place ∧ ¬ input.Excluded place ∧ (input.files place).isSome := by
  obtain ⟨hregular, -, hfiltered⟩ := mem_scanned.1 h
  obtain ⟨path, hpath, -, hplace⟩ := locate_regular hregular
  refine ⟨_, hplace, ⟨List.prefix_append _ _, fun heq => ?_⟩, ?_, input.stored path (mem_paths_iff.2 hpath)⟩
  · exact hasFile_ne_nil hpath (List.map_eq_nil_iff.1 (List.append_right_eq_self.1 heq))
  · rintro ⟨fn', hregular', -, hfiltered', hplace'⟩
    rw [← locate_inj hregular hregular' (hplace.trans hplace'.symm), hfiltered] at hfiltered'
    cases hfiltered'

theorem stored_of_excluded {place : Place} (h : input.Excluded place) : (input.files place).isSome := by
  obtain ⟨fn, hregular, -, -, hplace⟩ := h
  obtain ⟨path, hpath, -, hplace'⟩ := locate_regular hregular
  rw [← Option.some.inj (hplace'.symm.trans hplace)]
  exact input.stored path (mem_paths_iff.2 hpath)

theorem relativePath_of_scanned {fn : StdString} (h : fn ∈ input.scanned) :
    relativePath input.outputFolder fn = .ok (fn.drop (input.outputFolder.length + 1)) := by
  obtain ⟨path, hpath, rfl, -⟩ := locate_regular (mem_scanned.1 h).1
  cases path with
  | nil => exact absurd rfl (hasFile_ne_nil hpath)
  | cons name path =>
    refine if_pos ⟨?_, ?_⟩
    · rw [pathText, List.length_append, List.flatMap_cons, List.cons_append, List.length_cons]
      omega
    · refine ⟨name.text ++ path.flatMap (slash :: ·.text), ?_⟩
      rw [pathText, List.flatMap_cons, List.append_assoc, List.cons_append, List.nil_append, List.cons_append]

/-! ### The run is a run of the tasks -/

theorem uploadStep_eq {fn : StdString} (h : fn ∈ input.scanned) :
    input.uploadStep cfg name2file fn = (input.uploadTask cfg name2file fn).run sys := by
  unfold uploadStep uploadTask
  rw [relativePath_of_scanned h]
  change (match name2file[input.remoteFile cfg fn]? with
    | none => uploadFile sys fn (input.remoteFile cfg fn) []
    | some history => syncFile sys fn (input.remoteFile cfg fn) history true) = _
  cases name2file[input.remoteFile cfg fn]? with
  | none => rfl
  | some history => rfl

theorem downloadStep_eq (name : StdString × List SyncFileInfo) :
    input.downloadStep cfg name = (input.downloadTask cfg name).run sys := by
  unfold downloadStep downloadTask
  simp only
  change (if input.localFile cfg name.1 ∈ input.scanned then _ else _) = _
  split_ifs
  · rfl
  · obtain ⟨name, history⟩ := name
    cases history with
    | nil => rfl
    | cons newest rest => rfl

theorem forM_eq_map {α β : Type} {f : α → SyncM Unit} {g : β → SyncM Unit} {h : α → β} {xs : List α}
    (heq : ∀ x ∈ xs, f x = g (h x)) : xs.forM f = (xs.map h).forM g := by
  induction xs with
  | nil => rfl
  | cons x xs ih =>
    change (f x >>= fun _ => xs.forM f) = (g (h x) >>= fun _ => (xs.map h).forM g)
    rw [heq x List.mem_cons_self, ih fun y hy => heq y (List.mem_cons_of_mem x hy)]

theorem forM_append {α : Type} {f : α → SyncM Unit} (xs ys : List α) :
    (xs ++ ys).forM f = (xs.forM f >>= fun _ => ys.forM f) := by
  rw [List.forM_eq_forM, List.forM_append]

theorem syncWith_eq : input.syncWith cfg name2file =
    ((input.tasks cfg name2file).forM (Task.run sys) >>= fun _ => input.removePass) := by
  have hupload : input.uploadPass cfg name2file = (input.uploadTasks cfg name2file).forM (Task.run sys) := by
    unfold uploadPass uploadTasks
    split_ifs
    · exact forM_eq_map fun fn hfn => uploadStep_eq (Std.TreeSet.mem_toList.1 hfn)
    · rfl
  have hdownload : input.downloadPass cfg name2file =
      (input.downloadTasks cfg name2file).forM (Task.run sys) := by
    unfold downloadPass downloadTasks
    split_ifs
    · exact forM_eq_map fun name _ => downloadStep_eq name
    · rfl
  unfold syncWith tasks
  rw [forM_append, hupload, hdownload, bind_assoc]

/-! ### What the tasks are -/

theorem uploadTask_fn (fn : StdString) : (input.uploadTask cfg name2file fn).fn = fn := by
  unfold uploadTask
  cases name2file[input.remoteFile cfg fn]? with
  | none => rfl
  | some history => rfl

theorem mem_tasks {t : Task} (h : t ∈ input.tasks cfg name2file) :
    (∃ fn ∈ input.scanned, t = input.uploadTask cfg name2file fn) ∨
      ∃ name history, name2file[name]? = some history ∧ t = input.downloadTask cfg (name, history) := by
  rcases List.mem_append.1 h with h | h
  · unfold uploadTasks at h
    split_ifs at h
    · obtain ⟨fn, hfn, rfl⟩ := List.mem_map.1 h
      exact .inl ⟨fn, Std.TreeSet.mem_toList.1 hfn, rfl⟩
    · cases h
  · unfold downloadTasks at h
    split_ifs at h
    · obtain ⟨⟨name, history⟩, hname, rfl⟩ := List.mem_map.1 h
      exact .inr ⟨name, history, Std.TreeMap.mem_toList_iff_getElem?_eq_some.1 hname, rfl⟩
    · cases h

theorem fits_of_mem {t : Task} (h : t ∈ input.tasks cfg name2file) :
    t.Fits sys (input.Version cfg name2file) := by
  intro place hplace info hinfo
  rcases mem_tasks h with ⟨fn, hfn, rfl⟩ | ⟨name, history, hfind, rfl⟩
  · rw [uploadTask_fn] at hplace
    unfold uploadTask at hinfo
    cases hfind : name2file[input.remoteFile cfg fn]? with
    | none =>
      rw [hfind] at hinfo
      cases hinfo
    | some history =>
      rw [hfind] at hinfo
      exact ⟨_, history, hfind, .inr ⟨fn, hfn, hplace, rfl⟩, info, hinfo, rfl⟩
  · unfold downloadTask at hplace hinfo
    split_ifs at hplace hinfo
    · exact ⟨name, history, hfind, .inl hplace, info, hinfo, rfl⟩
    · exact ⟨name, history, hfind, .inl hplace, info, hinfo, rfl⟩

theorem scanned_of_reads {t : Task} (h : t ∈ input.tasks cfg name2file) (hreads : t.Reads) :
    t.fn ∈ input.scanned := by
  rcases mem_tasks h with ⟨fn, hfn, rfl⟩ | ⟨name, history, -, rfl⟩
  · rwa [uploadTask_fn]
  · unfold downloadTask at hreads ⊢
    split_ifs at hreads ⊢ with hscanned
    · exact hscanned
    · exact hreads.elim

theorem not_mayUpload_download (name : StdString × List SyncFileInfo) :
    ¬ (input.downloadTask cfg name).MayUpload := by
  unfold downloadTask
  split_ifs
  · exact Bool.false_ne_true
  · exact id

/-- A file is uploaded before anything else is done to it. -/
theorem tasks_pairwise : (input.tasks cfg name2file).Pairwise fun t' t =>
    t.MayUpload → sys.locate t'.fn ≠ sys.locate t.fn := by
  have hdownload : ∀ t ∈ input.downloadTasks cfg name2file, ¬ t.MayUpload := by
    intro t ht
    unfold downloadTasks at ht
    split_ifs at ht
    · obtain ⟨name, -, rfl⟩ := List.mem_map.1 ht
      exact not_mayUpload_download name
    · cases ht
  refine List.pairwise_append.2 ⟨?_, ?_, fun t' _ t ht hmay => absurd hmay (hdownload t ht)⟩
  · unfold uploadTasks
    split_ifs
    · rw [List.pairwise_map]
      refine List.Pairwise.imp_of_mem ?_ (Std.TreeSet.distinct_toList (t := input.scanned))
      intro fn fn' hfn hfn' hne _ heq
      rw [uploadTask_fn, uploadTask_fn] at heq
      have hregular := (mem_scanned.1 (Std.TreeSet.mem_toList.1 hfn)).1
      have hregular' := (mem_scanned.1 (Std.TreeSet.mem_toList.1 hfn')).1
      rw [Std.LawfulEqCmp.compare_eq_iff_eq] at hne
      exact hne (locate_inj hregular hregular' heq)
    · exact List.Pairwise.nil
  · exact List.Pairwise.imp_of_mem (fun _ ht _ hmay => absurd hmay (hdownload _ ht))
      (List.pairwise_of_forall (R := fun _ _ => True) fun _ _ => trivial)

theorem first_of_split {before after : List Task} {t : Task}
    (h : input.tasks cfg name2file = before ++ t :: after) (hmay : t.MayUpload) :
    ∀ t' ∈ before, sys.locate t'.fn ≠ sys.locate t.fn := by
  intro t' ht'
  have hpairwise : (input.tasks cfg name2file).Pairwise fun t' t =>
      t.MayUpload → sys.locate t'.fn ≠ sys.locate t.fn := tasks_pairwise
  rw [h] at hpairwise
  exact (List.pairwise_append.1 hpairwise).2.2 t' ht' t List.mem_cons_self hmay

/-! ### A run keeps the files if the names are harmless -/

/-- The files that a task may replace. -/
theorem replaceable (hharmless : input.Harmless cfg name2file) {done after : List Task} {t : Task} {s : World}
    (hsplit : input.tasks cfg name2file = done ++ t :: after)
    (hafter : After sys input.files (input.Version cfg name2file) done s) {place : Place}
    (hplace : sys.locate t.fn = some place) (hupdates : t.Updates (idsOf sys s.files) place)
    (hobtain : ∃ newest ∈ t.history.head?, ∃ data, sys.sha256 data = newest.objectId) :
    input.Inside place ∧ ∀ old, s.files place = some old → ¬ input.Excluded place ∧
      Saved sys (input.Version cfg name2file) s.events place old := by
  have hmem : t ∈ input.tasks cfg name2file := by
    rw [hsplit]
    exact List.mem_append_right _ List.mem_cons_self
  have hscanned (hreads : t.Reads) : input.Inside place ∧ ∀ old, s.files place = some old →
      ¬ input.Excluded place ∧ Saved sys (input.Version cfg name2file) s.events place old := by
    obtain ⟨place', hplace', hinside, hexcluded, -⟩ := place_of_scanned (scanned_of_reads hmem hreads)
    obtain rfl : place = place' := Option.some.inj (hplace.symm.trans hplace')
    refine ⟨hinside, fun old hold => ⟨hexcluded, .inl ?_⟩⟩
    obtain ⟨info, hinfo, heq⟩ := (Task.updates_iff hreads hold).1 hupdates
    exact heq ▸ fits_of_mem hmem place hplace info hinfo
  cases t with
  | upload fn name => exact hscanned trivial
  | sync fn name history enableUpload => exact hscanned trivial
  | download fn name history =>
    obtain ⟨newest, hnewest, hdata⟩ := hobtain
    obtain ⟨rest, rfl⟩ : ∃ rest, history = newest :: rest := List.head?_eq_some_iff.1 hnewest
    obtain ⟨hinside, hsafe⟩ := hharmless done fn name newest rest after hsplit hafter.passes hdata place hplace
    refine ⟨hinside, fun old hold => ⟨fun hexcluded => ?_, ?_⟩⟩
    · obtain ⟨data, hfile⟩ := Option.isSome_iff_exists.1 (stored_of_excluded hexcluded)
      exact (hsafe data hfile).1 hexcluded
    · rcases hafter.fresh place old hold with hfile | hversion
      · exact (hsafe old hfile).2.imp_right fun h => (hafter.uploads old).2 h
      · exact .inl hversion

theorem kept_tasks (hharmless : input.Harmless cfg name2file) (todo done : List Task) (s : World)
    (hsplit : input.tasks cfg name2file = done ++ todo)
    (hafter : After sys input.files (input.Version cfg name2file) done s)
    (hkept : Kept sys (input.Version cfg name2file) input.Inside input.Excluded s.events) :
    (∃ s', todo.forM (Task.run sys) s = .ok () s' ∧
      After sys input.files (input.Version cfg name2file) (input.tasks cfg name2file) s' ∧
      Kept sys (input.Version cfg name2file) input.Inside input.Excluded s'.events) ∨
    ∃ e s', todo.forM (Task.run sys) s = .error e s' ∧
      Kept sys (input.Version cfg name2file) input.Inside input.Excluded s'.events := by
  induction todo generalizing done s with
  | nil =>
    rw [List.append_nil] at hsplit
    exact .inl ⟨s, rfl, hsplit ▸ hafter, hkept⟩
  | cons t todo ih =>
    have hmem : t ∈ input.tasks cfg name2file := by
      rw [hsplit]
      exact List.mem_append_right _ List.mem_cons_self
    obtain ⟨hdid, hstopped⟩ := hkept.task (t := t) fun place hplace hupdates hobtain =>
      replaceable hharmless hsplit hafter hplace hupdates hobtain
    change (∃ s', (t.run sys >>= fun _ => todo.forM (Task.run sys)) s = .ok () s' ∧ _) ∨
      ∃ e s', (t.run sys >>= fun _ => todo.forM (Task.run sys)) s = .error e s' ∧ _
    rcases t.run_spec s with ⟨s₁, hrun, h⟩ | ⟨e, s₁, hrun, h⟩
    · rw [bind_of_ok hrun]
      refine ih (done ++ [t]) s₁ ?_ (hafter.concat (fits_of_mem hmem) (first_of_split hsplit) h) (hdid s₁ h)
      rw [hsplit, List.append_assoc]
      rfl
    · rw [bind_of_error hrun]
      exact .inr ⟨e, s₁, rfl, hstopped s₁ h⟩

/-- What was not uploaded before the files are removed is a version. -/
theorem saved_of_scanned {s : World}
    (hafter : After sys input.files (input.Version cfg name2file) (input.tasks cfg name2file) s)
    (hstyle : input.styleIs ["default", "upload"] = true) {fn : StdString} (hfn : fn ∈ input.scanned)
    {place : Place} {data : ConstDataBuffer} (hplace : sys.locate fn = some place)
    (hdata : s.files place = some data) : Saved sys (input.Version cfg name2file) s.events place data := by
  rcases hafter.fresh place data hdata with hfile | hversion
  · have hmem : input.uploadTask cfg name2file fn ∈ input.tasks cfg name2file := by
      refine List.mem_append_left _ ?_
      unfold uploadTasks
      rw [if_pos hstyle]
      exact List.mem_map_of_mem (Std.TreeSet.mem_toList.2 hfn)
    by_cases hknown : ∃ info ∈ (input.uploadTask cfg name2file fn).history, info.objectId = sys.sha256 data
    · obtain ⟨info, hinfo, heq⟩ := hknown
      exact .inl (heq ▸ fits_of_mem hmem place (by rw [uploadTask_fn]; exact hplace) info hinfo)
    · push Not at hknown
      refine .inr ((hafter.uploads data).2 ⟨_, hmem, ?_, place, ?_, hfile, hknown⟩)
      · unfold uploadTask
        cases name2file[input.remoteFile cfg fn]? with
        | none => exact trivial
        | some history => exact rfl
      · rw [uploadTask_fn]
        exact hplace
  · exact .inl hversion

/-- While the files are removed, those that are left stay saved. -/
theorem keeps_deleteFile {fn : StdString} (hfn : fn ∈ input.scanned) :
    Keeps (fun s => Kept sys (input.Version cfg name2file) input.Inside input.Excluded s.events ∧
      ∀ fn ∈ input.scanned, ∀ place data, sys.locate fn = some place → s.files place = some data →
        Saved sys (input.Version cfg name2file) s.events place data) (deleteFile sys fn) := by
  rintro s ⟨hkept, hsaved⟩
  rcases deleteFile_spec sys fn s with ⟨s', place, old, hrun, hplace, hold, h⟩ | ⟨e, s', hrun, h⟩
  · rw [hrun, final_ok, h.1, h.2]
    obtain ⟨place', hplace', hinside, hexcluded, -⟩ := place_of_scanned hfn
    obtain rfl : place = place' := Option.some.inj (hplace.symm.trans hplace')
    refine ⟨kept_concat.2 ⟨hkept, hinside, hexcluded, hsaved fn hfn place old hplace hold⟩, ?_⟩
    intro fn' hfn' place' data hplace' hdata
    by_cases heq : place' = place
    · rw [heq, Function.update_self] at hdata
      cases hdata
    · rw [Function.update_of_ne heq] at hdata
      refine (hsaved fn' hfn' place' data hplace' hdata).imp_right fun hup => ?_
      obtain ⟨name, hname⟩ := hup
      exact ⟨name, List.mem_append_left _ hname⟩
  · rw [hrun, final_error, h.1, h.2]
    exact ⟨hkept, hsaved⟩

theorem kept_syncWith (hharmless : input.Harmless cfg name2file) {s : World} (hs : s.Is input.files []) :
    Kept sys (input.Version cfg name2file) input.Inside input.Excluded
      (final (input.syncWith cfg name2file s)).events := by
  obtain ⟨files, answers, events⟩ := s
  obtain ⟨rfl, rfl⟩ : files = input.files ∧ events = [] := hs
  rw [syncWith_eq]
  rcases kept_tasks hharmless (input.tasks cfg name2file) [] { files := input.files, answers } rfl
    (after_nil answers) kept_nil with ⟨s', hrun, hafter, hkept⟩ | ⟨e, s', hrun, hkept⟩
  · rw [bind_of_ok hrun]
    unfold removePass
    split_ifs with hstyle
    · have huploads : input.styleIs ["default", "upload"] = true := by
        unfold styleIs
        rw [hstyle]
        simp
      have hloop : Keeps (fun s => Kept sys (input.Version cfg name2file) input.Inside input.Excluded s.events ∧
          ∀ fn ∈ input.scanned, ∀ place data, sys.locate fn = some place → s.files place = some data →
            Saved sys (input.Version cfg name2file) s.events place data)
          (input.scanned.toList.forM (deleteFile sys)) :=
        Moves.forM fun fn hfn => keeps_deleteFile (Std.TreeSet.mem_toList.1 hfn)
      exact (hloop s' ⟨hkept, fun fn hfn place data => saved_of_scanned hafter huploads hfn⟩).1
    · exact hkept
  · rw [bind_of_error hrun]
    exact hkept

/-! ### A run that comes to a name that is not harmless -/

theorem kept_deleted {events : List Event} {place : Place} {old : ConstDataBuffer}
    (h : Kept sys (input.Version cfg name2file) input.Inside input.Excluded events)
    (hmem : Event.deleted place old ∈ events) :
    ¬ input.Excluded place ∧ Saved sys (input.Version cfg name2file) events place old := by
  obtain ⟨before, after, rfl⟩ := List.append_of_mem hmem
  obtain ⟨-, hexcluded, hsaved⟩ := h before _ after rfl
  refine ⟨hexcluded, hsaved.imp_right fun hup => ?_⟩
  obtain ⟨name, hname⟩ := hup
  exact ⟨name, List.mem_append_left _ hname⟩

theorem moved_mem_replaced (s : World) (place : Place) (data : ConstDataBuffer) :
    Event.moved place none data ∈ replaced s place data :=
  List.mem_append_right _ (List.mem_singleton_self _)

instance events_refl : Std.Refl fun s s' : World => s.events <+: s'.events := ⟨fun s => List.prefix_refl s.events⟩

instance events_trans : IsTrans World fun s s' => s.events <+: s'.events := ⟨fun _ _ _ h h' => h.trans h'⟩

theorem grows_run (t : Task) : Moves (fun s s' : World => s.events <+: s'.events) (t.run sys) := by
  intro s
  rcases t.run_spec s with ⟨s', hrun, h⟩ | ⟨e, s', hrun, h⟩
  · rw [hrun, final_ok]
    cases h with
    | skipped _ _ _ _ h => exact h.2 ▸ List.prefix_refl _
    | current _ _ _ _ _ _ _ h => exact h.2 ▸ List.prefix_refl _
    | uploaded _ _ _ _ _ _ _ h => exact h.2 ▸ List.prefix_append _ _
    | fetched _ _ _ _ _ _ _ h => exact h.2 ▸ List.prefix_append _ _
  · rw [hrun, final_error]
    cases h with
    | before h => exact h.2 ▸ List.prefix_refl _
    | between _ _ _ _ _ _ _ _ h => exact h.2 ▸ List.prefix_append _ _

theorem grows_removePass : Moves (fun s s' : World => s.events <+: s'.events) input.removePass := by
  unfold removePass
  refine Moves.ite (fun _ => Moves.forM fun fn _ s => ?_) fun _ => Moves.pure _
  rcases deleteFile_spec sys fn s with ⟨s', place, old, hrun, -, -, h⟩ | ⟨e, s', hrun, h⟩
  · rw [hrun, final_ok, h.2]
    exact List.prefix_append _ _
  · rw [hrun, final_error, h.2]

/-- Tasks that pass are done, if the answers are right. -/
theorem able_tasks (before after : List Task) (hsplit : input.tasks cfg name2file = before ++ after)
    (hpass : AllPass sys input.files before) :
    ∃ s, Able (before.forM (Task.run sys)) (input.start []) () s ∧
      After sys input.files (input.Version cfg name2file) before s := by
  induction before using List.reverseRecOn generalizing after with
  | nil => exact ⟨input.start [], ⟨[], fun _ => rfl⟩, after_nil []⟩
  | append_singleton before t ih =>
    obtain ⟨hbefore, hpasses⟩ := allPass_concat.1 hpass
    rw [List.append_assoc] at hsplit
    obtain ⟨s, hable, hafter⟩ := ih _ hsplit hbefore
    have hmem : t ∈ input.tasks cfg name2file := by
      rw [hsplit]
      exact List.mem_append_right _ (List.mem_append_left _ (List.mem_singleton_self t))
    obtain ⟨place, hplace, -⟩ := id hpasses
    have hreads (hreads : t.Reads) : (s.files place).isSome := by
      obtain ⟨place', hplace', -, -, hfile⟩ := place_of_scanned (scanned_of_reads hmem hreads)
      obtain rfl : place = place' := Option.some.inj (hplace.symm.trans hplace')
      exact hafter.present place hfile
    obtain ⟨s', hrun⟩ := Task.able_run hplace hreads (hafter.tracks ▸ hpasses)
    refine ⟨s', ?_, ?_⟩
    · rw [forM_concat]
      exact hable.bind hrun
    · obtain ⟨need, hneed⟩ := hrun
      have hdone := hneed []
      rw [List.append_nil] at hdone
      rcases t.run_spec (s.with need) with ⟨s₁, hrun, hdid⟩ | ⟨e, s₁, hrun, -⟩
      · rw [hrun] at hdone
        cases hdone
        have h := (hafter.with need).concat (fits_of_mem hmem) (first_of_split hsplit) hdid
        exact ⟨h.tracks, h.passes, h.uploads, h.present, h.lost, h.fresh, h.untouched⟩
      · rw [hrun] at hdone
        cases hdone

/-- If the run keeps the files whatever is answered, the names are harmless. -/
theorem harmless_of_kept (h : ∀ answers, Kept sys (input.Version cfg name2file) input.Inside input.Excluded
    (final (input.syncWith cfg name2file (input.start answers))).events) : input.Harmless cfg name2file := by
  intro before fn name newest rest after hsplit hpass hdata place hplace
  obtain ⟨body, hbody⟩ := hdata
  obtain ⟨s, ⟨need, hbefore⟩, hafter⟩ := able_tasks before _ hsplit hpass
  obtain ⟨s', need', hdownload⟩ := able_downloadFile hplace body s
  rw [hbody] at hdownload
  have hrun : ((input.tasks cfg name2file).forM (Task.run sys)) (input.start (need ++ (need' ++ []))) =
      (after.forM (Task.run sys)) (s'.with []) := by
    have hfirst : before.forM (Task.run sys) (input.start (need ++ (need' ++ []))) =
        .ok () (s.with (need' ++ [])) := hbefore (need' ++ [])
    rw [hsplit, forM_append, bind_of_ok hfirst]
    exact bind_of_ok (hdownload [])
  -- what the download has put on record
  have hevents : ∃ data, s'.events = s.events ++ replaced s place data := by
    rcases downloadFile_spec sys fn newest.notEmpty (s.with (need' ++ [])) with
      ⟨s₁, place', data, hok, hplace', -, h'⟩ | ⟨e, s₁, herror, -⟩ | ⟨e, s₁, _, _, herror, -⟩
    · rw [hdownload []] at hok
      cases hok
      obtain rfl : place = place' := Option.some.inj (hplace.symm.trans hplace')
      exact ⟨data, h'.2⟩
    · rw [hdownload []] at herror
      cases herror
    · rw [hdownload []] at herror
      cases herror
  obtain ⟨data, hevents⟩ := hevents
  have hkept : Kept sys (input.Version cfg name2file) input.Inside input.Excluded
      (s.events ++ replaced s place data) := by
    refine (h (need ++ (need' ++ []))).shorten ?_
    have hgrows : Moves (fun s s' : World => s.events <+: s'.events)
        ((after.forM (Task.run sys)) >>= fun _ => input.removePass) :=
      Moves.bind (Moves.forM fun t _ => grows_run t) fun _ => grows_removePass
    have hrest : input.syncWith cfg name2file (input.start (need ++ (need' ++ []))) =
        ((after.forM (Task.run sys)) >>= fun _ => input.removePass) (s'.with []) := by
      rw [syncWith_eq]
      change EStateM.bind _ _ _ = EStateM.bind _ _ _
      unfold EStateM.bind
      rw [hrun]
    rw [hrest, ← hevents]
    exact hgrows (s'.with [])
  refine ⟨?_, fun old hold => ?_⟩
  · obtain ⟨b, a, heq⟩ := List.append_of_mem (List.mem_append_right s.events (moved_mem_replaced s place data))
    exact (hkept b _ a heq).1
  · have hdeleted : Event.deleted place old ∈ s.events ++ replaced s place data := by
      rcases hafter.lost place old hold with hfile | hmem
      · exact List.mem_append_right _ (deleted_mem_replaced hfile data)
      · exact List.mem_append_left _ hmem
    obtain ⟨hexcluded, hsaved⟩ := kept_deleted hkept hdeleted
    refine ⟨hexcluded, hsaved.imp_right fun hup => ?_⟩
    obtain ⟨n, hn⟩ := hup
    exact (hafter.uploads old).1
      ⟨n, (List.mem_append.1 hn).resolve_right uploaded_not_mem_replaced⟩

/-! ### The whole of `sync_files` -/

variable (input)

def config : Except SyncError SyncConfig :=
  match (sys.locate (configFile input.outputFolder)).bind input.files with
  | none => .ok {}
  | some body => readConfig input.outputFolder body

/-- Whatever is answered, no file is lost. A configuration or a feed that cannot be read counts as empty here. -/
def KeepsFiles (memory : Nat → UInt8) : Prop :=
  ∀ answers, Kept sys
    (input.Version (input.config.toOption.getD {}) ((readFeed memory input.feed).toOption.getD ∅))
    input.Inside input.Excluded (final (input.syncFiles memory (input.start answers))).events

theorem loadConfig_spec (answers : List Answer) :
    (∃ cfg s', input.loadConfig (input.start answers) = .ok cfg s' ∧ input.config = .ok cfg ∧
      s'.Is input.files []) ∨
      ∃ e s', input.loadConfig (input.start answers) = .error e s' ∧ s'.Is input.files [] := by
  unfold loadConfig config
  have hstart : fileAt sys (input.start answers) (configFile input.outputFolder) =
      (sys.locate (configFile input.outputFolder)).bind input.files := rfl
  rw [bind_of_ok (get_apply _), hstart]
  cases hbody : (sys.locate (configFile input.outputFolder)).bind input.files with
  | none => exact .inl ⟨{}, input.start answers, rfl, rfl, rfl, rfl⟩
  | some body =>
    rw [if_pos (Option.isSome_some : (some body).isSome = true)]
    rcases readFile_spec sys (configFile input.outputFolder) (input.start answers) with
      ⟨data, s₁, hread, hfile, h⟩ | ⟨e, s₁, hread, h⟩
    · obtain rfl : body = data := Option.some.inj (hbody.symm.trans hfile)
      rw [bind_of_ok hread]
      simp only
      cases readConfig input.outputFolder body with
      | ok cfg => exact .inl ⟨cfg, s₁, rfl, rfl, h⟩
      | error e => exact .inr ⟨e, s₁, rfl, h⟩
    · rw [bind_of_error hread]
      exact .inr ⟨e, s₁, rfl, h⟩

theorem able_loadConfig {cfg : SyncConfig} (h : input.config = .ok cfg) :
    Able input.loadConfig (input.start []) cfg (input.start []) := by
  unfold config at h
  cases hbody : (sys.locate (configFile input.outputFolder)).bind input.files with
  | none =>
    rw [hbody] at h
    cases h
    refine ⟨[], fun rest => ?_⟩
    have hfile : fileAt sys ((input.start []).with ([] ++ rest)) (configFile input.outputFolder) = none := hbody
    unfold loadConfig
    rw [bind_of_ok (get_apply _), hfile]
    rfl
  | some body =>
    rw [hbody] at h
    change readConfig input.outputFolder body = .ok cfg at h
    obtain ⟨need, hread⟩ := Able.bind (f := fun body => liftExcept (readConfig input.outputFolder body))
      (able_readFile (s := input.start []) hbody) ⟨[], fun rest => by rw [h]; rfl⟩
    refine ⟨need, fun rest => ?_⟩
    have hfile : fileAt sys ((input.start []).with (need ++ rest)) (configFile input.outputFolder) = some body :=
      hbody
    unfold loadConfig
    rw [bind_of_ok (get_apply _), hfile]
    exact hread rest

/-- `sync_files` loses nothing exactly if each name of the feed that it comes to is harmless. -/
theorem keepsFiles_iff (memory : Nat → UInt8) : input.KeepsFiles memory ↔
    ∀ cfg name2file, input.config = .ok cfg → readFeed memory input.feed = .ok name2file →
      input.Harmless cfg name2file := by
  constructor
  · intro h cfg name2file hconfig hfeed
    refine harmless_of_kept fun answers => ?_
    obtain ⟨need, hload⟩ := input.able_loadConfig hconfig
    have hrun : input.syncFiles memory (input.start (need ++ (some [] :: answers))) =
        input.syncWith cfg name2file (input.start answers) := by
      have hfirst : input.loadConfig (input.start (need ++ (some [] :: answers))) =
          .ok cfg (input.start (some [] :: answers)) := hload (some [] :: answers)
      unfold syncFiles
      rw [bind_of_ok hfirst]
      change (liftExcept (readFeed memory input.feed) >>= fun name2file =>
        input.syncWith cfg name2file) (input.start answers) = _
      rw [hfeed]
      rfl
    have hkept := h (need ++ (some [] :: answers))
    rwa [hrun, hconfig, hfeed] at hkept
  · intro h answers
    unfold syncFiles
    rcases input.loadConfig_spec answers with ⟨cfg, s₁, hload, hconfig, h₁⟩ | ⟨e, s₁, hload, h₁⟩
    case inr =>
      rw [bind_of_error hload, final_error, h₁.2]
      exact kept_nil
    rw [bind_of_ok hload]
    rcases call_spec (WsApi.text "Query channel failed ") s₁ with ⟨_, s₂, hcall, h₂⟩ | ⟨e, s₂, hcall, h₂⟩
    case inr =>
      rw [bind_of_error hcall, final_error, h₂.2, h₁.2]
      exact kept_nil
    rw [bind_of_ok hcall]
    cases hfeed : readFeed memory input.feed with
    | error e =>
      change Kept _ _ _ _ s₂.events
      rw [h₂.2, h₁.2]
      exact kept_nil
    | ok name2file =>
      rw [hconfig]
      exact kept_syncWith (h cfg name2file hconfig hfeed) (h₂.trans h₁)

/-! ### An excluded file that the channel has under its name -/

/-- Bytes stand for their own hash. -/
def excludedSystem : System where
  locate fn := if fn = WsApi.text "o/a" then some [WsApi.text "o", WsApi.text "a"] else none
  sha256 := id

def excludedInput : SyncInput excludedSystem where
  outputFolder := WsApi.text "o"
  exclude := WsApi.text "a"
  syncStyle := []
  folder := .file ⟨WsApi.text "a", by decide, by decide⟩ .closed
  root := [WsApi.text "o"]
  files place := if place = [WsApi.text "o", WsApi.text "a"] then some [1] else none
  feed := WsApi.text
    "[\x7b\"files\":[\x7b\"object_id\":\"Ag==\",\"name\":\"a\",\"mimetype\":\"\",\"size\":\"1\"\x7d]\x7d]"
  located := by decide
  stored := by decide

/-- The file `a` is excluded, and has bytes that the channel never had; the version in the channel takes its
place. -/
theorem not_keepsFiles_excluded : ¬ excludedInput.KeepsFiles fun _ => 0 := by
  intro h
  have hevents : (final (excludedInput.syncFiles (fun _ => 0)
      (excludedInput.start [some [], some [], some [2], some [], some []]))).events =
      [.deleted [WsApi.text "o", WsApi.text "a"] [1], .moved [WsApi.text "o", WsApi.text "a"] none [2]] := by
    decide +kernel
  have hexcluded : excludedInput.Excluded [WsApi.text "o", WsApi.text "a"] :=
    ⟨WsApi.text "o/a", by decide, by decide, by decide, by decide⟩
  exact (h _ [] _ _ hevents).2.1 hexcluded

end SyncInput

end Vds.CmdApp
