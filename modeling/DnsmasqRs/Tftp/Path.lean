import DnsmasqRs.Types
import Mathlib.Data.List.Infix
import DnsmasqRs.Lib.NetText

/-!
# TFTP: paths and opening files (`tftp.rs`)

`build_tftp_path` makes a path of the requested name, and `open_tftp_file` opens it, or shares the
file with a transfer that has it open already.

What the file system says is an argument: `Disk` answers whether a directory exists and what opening
a path gives.  The shared `Arc<Mutex<TftpFile>>`s are references (`FileRef`) to the files the
runtime holds.
-/

open Utf8 Wire NetText

namespace DnsmasqRs.Tftp

/-! ### Paths -/

/-- `PathParts`. -/
structure PathParts where
  pfx : Option Str := none
  lowercase : Bool := false
  aprefIp : Bool := false
  aprefMac : Bool := false
  clientAddrStr : Str := []
  clientMac : Option (Vector UInt8 6) := none

/-- The name with `/` for `\`, in lower case if that is configured. -/
def normalizeName (lowercase : Bool) (filenameRaw : Str) : Str :=
  filenameRaw.map fun c =>
    let c := if c = '\\' then '/' else c
    if lowercase then c.toLower else c

/-- The directory with this name below `namebuff` if there is one, and otherwise `namebuff` as it
was. -/
def subdirOr (dirExists : Str → Bool) (namebuff name : Str) : Str :=
  if dirExists (namebuff ++ name ++ ['/']) then namebuff ++ name ++ ['/'] else namebuff

/-- `{:02x}-{:02x}-{:02x}-{:02x}-{:02x}-{:02x}`. -/
def macName (mac : Vector UInt8 6) : Str := ['-'].intercalate (mac.toList.map hexByte)

/-- `--tftp-root` as a directory, with a slash at both ends. -/
def rootDir (root : Str) : Str :=
  (if root.head? = some '/' then [] else ['/']) ++ root ++ (if root.getLast? = some '/' then []
    else ['/'])

/-- What `build_tftp_path` has in `namebuff` before it comes to the file name: the root, with the
client's subdirectories that exist. -/
def clientDir (dirExists : Str → Bool) (parts : PathParts) : Str :=
  match parts.pfx with
  | none => ['/']
  | some root =>
    let namebuff := rootDir root
    let namebuff :=
      if parts.aprefIp then subdirOr dirExists namebuff parts.clientAddrStr else namebuff
    if parts.aprefMac then
      match parts.clientMac with
      | some mac => subdirOr dirExists namebuff (macName mac)
      | none => namebuff
    else namebuff

/-- `build_tftp_path`. -/
def buildTftpPath (dirExists : Str → Bool) (filenameRaw : Str) (parts : PathParts) : Str :=
  let filename := normalizeName parts.lowercase filenameRaw
  let namebuff := clientDir dirExists parts
  if filename.head? = some '/' then
    match parts.pfx with
    -- Absolute pathnames OK if they match the prefix.
    | some _ => if namebuff <+: filename then filename else namebuff ++ filename.tail
    | none => filename
  else namebuff ++ filename

/-! ### Open files -/

/-- `io::ErrorKind`, as far as it is asked for. -/
inductive IoErrorKind where
  | notFound
  | permissionDenied
  | other
  deriving DecidableEq

/-- `io::Error`: its kind and how it is displayed. -/
structure IoError where
  kind : IoErrorKind
  text : Str
  deriving DecidableEq

/-- `std::fs::File`: what the file holds, where the descriptor stands in it, and the error that
reading from it gives, if it gives one. -/
structure OsFile where
  content : Bytes
  cursor : ℕ
  fault : Option IoError
  deriving DecidableEq, Inhabited

/-- `seek(SeekFrom::Start(offset))`. -/
def OsFile.seek (f : OsFile) (offset : ℕ) : OsFile := { f with cursor := offset }

/-- `read_exact`: the next `want` bytes. -/
def OsFile.readExact (f : OsFile) (want : ℕ) : Except IoError Bytes × OsFile :=
  match f.fault with
  | some e => (.error e, f)
  | none =>
    if f.cursor + want ≤ f.content.length then
      (.ok ((f.content.drop f.cursor).take want), { f with cursor := f.cursor + want })
    else
      (.error ⟨.other, "failed to fill whole buffer".toList⟩, { f with
        cursor := max f.cursor f.content.length })

/-- `TftpFile`. -/
structure TftpFile where
  file : OsFile
  size : ℕ
  dev : ℕ
  inode : ℕ
  filename : Str
  posn : ℕ
  deriving DecidableEq, Inhabited

/-- Which of the files of the runtime an `Arc<Mutex<TftpFile>>` stands for. -/
abbrev FileRef := ℕ

/-- `fs::Metadata`. -/
structure Metadata where
  len : ℕ
  dev : ℕ
  inode : ℕ
  mode : UInt32
  uid : UInt32

/-- What `File::open` finds: the file's bytes, whether they can be read, and what `metadata` says of
it. -/
structure DiskFile where
  content : Bytes
  fault : Option IoError
  metadata : Except IoError Metadata

/-- The file system, as a request finds it. -/
structure Disk where
  dirExists : Str → Bool
  fileOpen : Str → Except IoError DiskFile
  /-- `geteuid`. -/
  euid : UInt32

/-- `TftpOpenError`. -/
inductive TftpOpenError where
  | notFound
  | perm
  | oops (e : IoError)
  deriving DecidableEq

/-- The file a new transfer gets: one that is open already, or one of its own. -/
inductive Opened where
  | existing (ref : FileRef)
  | fresh (f : TftpFile)
  deriving DecidableEq

/-- The check against leaving the root: `prefix_set && namebuff.contains("/../")`. -/
def movesOut (prefixSet : Bool) (namebuff : Str) : Bool :=
  prefixSet && decide (['/', '.', '.', '/'] <:+: namebuff)

/-- The rule on who may read the file: everybody, if the server runs as root; its owner, if it is
secure. -/
def readAllowed (euid : UInt32) (secure : Bool) (m : Metadata) : Bool :=
  if euid = 0 then m.mode &&& 4 != 0 else !(secure && euid != m.uid)

/-- The `TftpFile` of a file that no transfer has open. -/
def newTftpFile (file : DiskFile) (m : Metadata) (namebuff : Str) : TftpFile where
  file := { content := file.content, cursor := 0, fault := file.fault }
  size := m.len
  dev := m.dev
  inode := m.inode
  filename := namebuff
  posn := 0

/-- `open_tftp_file`. -/
def openTftpFile (disk : Disk) (namebuff : Str) (prefixSet secure : Bool)
    (shared : List (FileRef × TftpFile)) :
    Except TftpOpenError Opened :=
  if movesOut prefixSet namebuff then .error .perm
  else
    match disk.fileOpen namebuff with
    | .error e =>
      match e.kind with
      | .notFound => .error .notFound
      | .permissionDenied => .error .perm
      | .other => .error (.oops e)
    | .ok file =>
      match file.metadata with
      | .error e => .error (.oops e)
      | .ok m =>
        if !readAllowed disk.euid secure m then .error .perm
        else
          match shared.find? fun f => f.2.dev == m.dev && f.2.inode == m.inode
            && f.2.filename == namebuff with
          | some f => .ok (.existing f.1)
          | none => .ok (.fresh (newTftpFile file m namebuff))

end DnsmasqRs.Tftp
