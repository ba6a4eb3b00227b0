import Vds.Kernel.Foldername
import Vds.Library.StateError
import Vds.WsApi.Requests

/-! `sync_files` of the command line tool: the files of a folder against the feed of a channel. A path leads
to the same place all through a run; the temporary file of a download is not one of the files. -/

namespace Vds.CmdApp

open StateError Foldername UrlParser
open WsApi (Properties asArray asPrimitive getProperty getString text)

/-! ### The disk and the server -/

/-- The names from the root to a file. -/
abbrev Place := List StdString

/-- What a call of the system or a request gives; `none` if it is refused. -/
abbrev Answer := Option ConstDataBuffer

structure System where
  /-- Where a file of this path is or would be; `none` if a folder on the way is missing, or if a folder is
  there that cannot be removed. -/
  locate : StdString → Option Place
  /-- `hash::sha256` -/
  sha256 : ConstDataBuffer → ConstDataBuffer

inductive SyncError
  | runtimeError (what : StdString)
  | systemError (what : StdString)
  | failure (e : WsApi.Failure)
  | jsonError (e : JsonError)
  /-- A null pointer is followed. -/
  | undefined
  /-- The evaluation was cut short, for want of answers. -/
  | outOfAnswers

/-- What a run does to the files, and what it uploads. -/
inductive Event
  | uploaded (name : StdString) (data : ConstDataBuffer)
  | deleted (place : Place) (old : ConstDataBuffer)
  | moved (place : Place) (old : Option ConstDataBuffer) (data : ConstDataBuffer)
  deriving DecidableEq

structure World where
  files : Place → Option ConstDataBuffer
  answers : List Answer
  events : List Event := []

abbrev SyncM (α : Type) := EStateM SyncError World α

def call (what : StdString) : SyncM ConstDataBuffer := do
  let s ← get
  match s.answers with
  | [] => throw .outOfAnswers
  | none :: answers => do
    set { s with answers }
    throw (.systemError what)
  | some data :: answers => do
    set { s with answers }
    return data

/-- The file that a path leads to. -/
def fileAt (sys : System) (s : World) (fn : StdString) : Option ConstDataBuffer :=
  (sys.locate fn).bind s.files

/-- `file::open` and `file::read` up to the end. -/
def readFile (sys : System) (fn : StdString) : SyncM ConstDataBuffer := do
  let _ ← call (text "Unable to open file " ++ fn)
  let s ← get
  match fileAt sys s fn with
  | none => throw (.systemError (text "Unable to open file " ++ fn))
  | some data => return data

/-- `file::delete_file` -/
def deleteFile (sys : System) (fn : StdString) : SyncM Unit := do
  let _ ← call (text "Unable to delete file " ++ fn)
  let s ← get
  match sys.locate fn with
  | none => throw (.systemError (text "Unable to delete file " ++ fn))
  | some place =>
    match s.files place with
    | none => throw (.systemError (text "Unable to delete file " ++ fn))
    | some old =>
      set { s with files := Function.update s.files place none, events := s.events ++ [Event.deleted place old] }

/-- `file::move` of a temporary file with these bytes. -/
def moveFile (sys : System) (data : ConstDataBuffer) (fn : StdString) : SyncM Unit := do
  let _ ← call (text "Rename file  to " ++ fn)
  let s ← get
  match sys.locate fn with
  | none => throw (.systemError (text "Rename file  to " ++ fn))
  | some place =>
    set { s with
      files := Function.update s.files place (some data)
      events := s.events ++ [Event.moved place (s.files place) data] }

/-! ### Transfers -/

/-- `add_file` and `send`. -/
def sendFile (sys : System) (fn name : StdString) : SyncM Unit := do
  let data ← readFile sys fn
  let _ ← call (text "Upload failed ")
  modify fun s => { s with events := s.events ++ [.uploaded name data] }

/-- Without a hash the file is read for it first. -/
def uploadFile (sys : System) (fn name : StdString) (fileHash : ConstDataBuffer) : SyncM Unit :=
  if fileHash = [] then do
    let _ ← readFile sys fn
    sendFile sys fn name
  else sendFile sys fn name

/-- What is there is deleted before the move. -/
def replaceFile (sys : System) (data : ConstDataBuffer) (fn : StdString) : SyncM Unit := do
  let s ← get
  if (fileAt sys s fn).isSome then do
    deleteFile sys fn
    moveFile sys data fn
  else moveFile sys data fn

/-- The text of a refused request goes on with the comment of the server. -/
def downloadFile (sys : System) (fn : StdString) (fileId : ConstDataBuffer) : SyncM Unit := do
  let _ ← call (text "Unable to open file ")
  let data ← call (text "File download failed: ")
  if fileId ≠ [] ∧ fileId ≠ sys.sha256 data then
    throw (.runtimeError (text "File download failed: file is corrupted"))
  else replaceFile sys data fn

/-- What the feed says of one file; `size_` is read too, and not used. -/
structure SyncFileInfo where
  objectId : ConstDataBuffer
  fileName : StdString
  mimetype : StdString
  notEmpty : objectId ≠ []

def syncFile (sys : System) (fn relName : StdString) (fileHistory : List SyncFileInfo) (enableUpload : Bool) :
    SyncM Unit := do
  let data ← readFile sys fn
  let signature := sys.sha256 data
  if ∀ hist ∈ fileHistory, hist.objectId ≠ signature then
    if enableUpload then uploadFile sys fn relName signature else return
  else
    match fileHistory with
    | [] => throw .undefined
    | newest :: _ => if newest.objectId = signature then return else downloadFile sys fn newest.objectId

/-! ### The configuration -/

structure SyncConfig where
  target : StdString := []
  fileMap : Std.TreeMap StdString StdString := ∅

def configFile (outputFolder : StdString) : StdString := outputFolder ++ slash :: text ".vds.config"

def readConfig (outputFolder : StdString) (body : ConstDataBuffer) : Except SyncError SyncConfig := do
  let config ← (JsonParser.parse (configFile outputFolder) body).mapError .jsonError
  match config with
  | .object properties =>
    let target ← (getString properties (text "target")).mapError .failure
    let fileMap : Std.TreeMap StdString StdString :=
      match getProperty properties (text "map") with
      | .object entries =>
        entries.foldl (fun fileMap prop =>
          match asPrimitive prop.2 with
          | some value => fileMap.insertIfNew prop.1 value
          | none => fileMap) ∅
      | _ => ∅
    return { target := target.getD [], fileMap }
  | _ => return {}

/-- The name in the channel of a file in the folder. -/
def remoteName (cfg : SyncConfig) (name : StdString) : StdString :=
  match cfg.fileMap[name]? with
  | some value => value
  | none => cfg.target ++ name

/-- The name in the folder of a file in the channel. -/
def localName (cfg : SyncConfig) (fname : StdString) : StdString :=
  match cfg.fileMap.toList.find? fun item => item.2 = fname with
  | some item => item.1
  | none =>
    if cfg.target ≠ [] ∧ cfg.target <+: fname then fname.drop cfg.target.length else fname

/-! ### The feed -/

abbrev NameFiles := Std.TreeMap StdString (List SyncFileInfo)

/-- A byte of a decoded text that was not written is what the memory holds. -/
def getBuffer (memory : Nat → UInt8) (f : Properties) (name : StdString) : WsApi.Answered ConstDataBuffer := do
  match ← getString f name with
  | none => return []
  | some value => do
    let bytes ← WsApi.toBytes value
    return bytes.mapIdx fun i byte => byte.getD (memory i)

def fileInfo (memory : Nat → UInt8) (f : Properties) : Option SyncFileInfo :=
  match getBuffer memory f (text "object_id") with
  | .error _ => none
  | .ok objectId =>
    if h : objectId = [] then none
    else
      match getString f (text "name"), getString f (text "mimetype"), getString f (text "size") with
      | .ok fileName, .ok mimetype, .ok _ => some ⟨objectId, fileName.getD [], mimetype.getD [], h⟩
      | _, _, _ => none

def collectFile (memory : Nat → UInt8) (name2file : NameFiles) : JsonValue → Except SyncError NameFiles
  | .object f =>
    match fileInfo memory f with
    | none => .ok name2file
    | some info => .ok (name2file.alter info.fileName fun infos => some (infos.getD [] ++ [info]))
  | _ => .error .undefined

def collectMessage (memory : Nat → UInt8) (name2file : NameFiles) : JsonValue → Except SyncError NameFiles
  | .object item =>
    match asArray (getProperty item (text "files")) with
    | none => .ok name2file
    | some files => files.foldlM (collectFile memory) name2file
  | _ => .ok name2file

def collectFeed (memory : Nat → UInt8) (body : JsonValue) : Except SyncError NameFiles :=
  match asArray body with
  | none => .ok ∅
  | some messages => messages.reverse.foldlM (collectMessage memory) ∅

def readFeed (memory : Nat → UInt8) (response : ConstDataBuffer) : Except SyncError NameFiles := do
  let body ← (JsonParser.parse (text "/api/channel_feed") response).mapError .jsonError
  collectFeed memory body

/-! ### The scan -/

def trim (s : StdString) : StdString :=
  ((s.dropWhile fun c => isSpace c).reverse.dropWhile fun c => isSpace c).reverse

/-- `split_string` with `trim_items`. -/
def splitString (s : StdString) (ch : UInt8) : List StdString :=
  ((s.splitOn ch).map trim).filter (· ≠ [])

def strrchr (s : StdString) (ch : UInt8) : Option StdString :=
  match s with
  | [] => none
  | c :: rest =>
    match strrchr rest ch with
    | some p => some p
    | none => if c = ch then some (c :: rest) else none

/-- `filename::name` -/
def fileName (fn : StdString) : StdString :=
  match strrchr fn slash with
  | none => fn
  | some p => p.tail

/-- `filename::extension`, with the dot. -/
def extension (fn : StdString) : StdString := (strrchr (fileName fn) dot).getD []

/-- The exclude filters are compared with the whole path, with `*` too, or with the name. -/
def filtered (filters : List StdString) (fn : StdString) : Bool :=
  filters.any fun filter =>
    if filter = [] then false
    else if filter.getLast? = some slash then filter.length < fn.length && fn.take filter.length = filter
    else if filter.head? = some (ascii '*') then extension fn = filter
    else fileName fn = filter

def scanFile (outputFolder : StdString) (filters : List StdString) (files : Std.TreeSet StdString)
    (fn : StdString) : Std.TreeSet StdString :=
  if fn = configFile outputFolder then files
  else if filtered filters fn then files
  else files.insert fn

def scan (outputFolder exclude : StdString) (folder : Folder) : Std.TreeSet StdString :=
  (filesRecurcive (fun _ _ => .ok true) outputFolder folder []).2.foldl
    (scanFile outputFolder (splitString exclude (ascii ';'))) ∅

/-! ### The run -/

/-- `sync_folder.relative_path` -/
def relativePath (outputFolder fn : StdString) : Except SyncError StdString :=
  if outputFolder.length < fn.length ∧ outputFolder ++ [slash] <+: fn then
    .ok (fn.drop (outputFolder.length + 1))
  else .error (.runtimeError (text "Not implemented"))

def liftExcept {α : Type} : Except SyncError α → SyncM α
  | .ok a => pure a
  | .error e => throw e

/-- The options and the folder as they are at the start. -/
structure SyncInput (sys : System) where
  outputFolder : StdString
  exclude : StdString
  syncStyle : StdString
  folder : Folder
  root : Place
  files : Place → Option ConstDataBuffer
  /-- The response to `/api/channel_feed`. -/
  feed : ConstDataBuffer
  /-- No file of the folder is reached through a link. -/
  located : ∀ path ∈ paths folder,
    sys.locate (pathText outputFolder path) = some (root ++ path.map EntryName.text)
  stored : ∀ path ∈ paths folder, (files (root ++ path.map EntryName.text)).isSome

namespace SyncInput

variable {sys : System} (input : SyncInput sys)

def filters : List StdString := splitString input.exclude (ascii ';')

def scanned : Std.TreeSet StdString := scan input.outputFolder input.exclude input.folder

/-- The loop over the files of the folder. -/
def uploadStep (cfg : SyncConfig) (name2file : NameFiles) (fn : StdString) : SyncM Unit := do
  let name ← liftExcept (relativePath input.outputFolder fn)
  let name := remoteName cfg name
  match name2file[name]? with
  | none => uploadFile sys fn name []
  | some history => syncFile sys fn name history true

/-- The loop over the names in the feed. -/
def downloadStep (cfg : SyncConfig) (name : StdString × List SyncFileInfo) : SyncM Unit :=
  let fn := input.outputFolder ++ slash :: localName cfg name.1
  if fn ∈ input.scanned then syncFile sys fn name.1 name.2 false
  else
    match name.2 with
    | [] => throw .undefined
    | newest :: _ => downloadFile sys fn newest.objectId

/-- The style is empty or one of these. -/
def styleIs (styles : List String) : Bool :=
  input.syncStyle = [] || styles.any fun style => input.syncStyle = text style

def uploadPass (cfg : SyncConfig) (name2file : NameFiles) : SyncM Unit :=
  if input.styleIs ["default", "upload"] then
    input.scanned.toList.forM (input.uploadStep cfg name2file)
  else return

def downloadPass (cfg : SyncConfig) (name2file : NameFiles) : SyncM Unit :=
  if input.styleIs ["default", "download"] then name2file.toList.forM (input.downloadStep cfg) else return

def removePass : SyncM Unit :=
  if input.syncStyle = text "upload" then input.scanned.toList.forM (deleteFile sys) else return

def syncWith (cfg : SyncConfig) (name2file : NameFiles) : SyncM Unit := do
  input.uploadPass cfg name2file
  input.downloadPass cfg name2file
  input.removePass

def loadConfig : SyncM SyncConfig := do
  let s ← get
  if (fileAt sys s (configFile input.outputFolder)).isSome then
    let body ← readFile sys (configFile input.outputFolder)
    liftExcept (readConfig input.outputFolder body)
  else return {}

def syncFiles (memory : Nat → UInt8) : SyncM Unit := do
  let cfg ← input.loadConfig
  let _ ← call (text "Query channel failed ")
  let name2file ← liftExcept (readFeed memory input.feed)
  input.syncWith cfg name2file

def start (answers : List Answer) : World := { files := input.files, answers }

end SyncInput

end Vds.CmdApp
