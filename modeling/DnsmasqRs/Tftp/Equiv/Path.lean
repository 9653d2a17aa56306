import DnsmasqRs.Tftp.Path
import DnsmasqRs.Lib.LexicalPath

/-!
# TFTP requests stay below the root

The path of a request starts with the text of the client's directory, whatever the name in the
request is (`buildTftpPath_spec`).  `LexicalPath.inside_of_no_dotdot` then says that the one check
on the text is enough: a path it lets through leads into that directory (`inside_clientDir`).
-/

open Utf8 LexicalPath List

namespace DnsmasqRs.Tftp

/-- A text with a slash at both ends. -/
structure IsDirText (dir : Str) : Prop where
  head : dir.head? = some '/'
  last : dir.getLast? = some '/'

theorem IsDirText.append (h : IsDirText dir) : IsDirText (dir ++ name ++ ['/']) where
  head := by
    rw [append_assoc, head?_append, h.head]
    rfl
  last := getLast?_concat

theorem isDirText_rootDir : IsDirText (rootDir root) where
  head := by
    unfold rootDir
    rw [head?_append]
    by_cases hroot : root.head? = some '/'
    · rw [head?_append, hroot]
      rfl
    · rw [if_neg hroot]
      rfl
  last := by
    unfold rootDir
    by_cases hroot : root.getLast? = some '/'
    · rw [if_pos hroot, append_nil, getLast?_append, hroot]
      rfl
    · rw [if_neg hroot]
      exact getLast?_concat

theorem IsDirText.subdirOr (h : IsDirText namebuff) (name : Str) :
    IsDirText (subdirOr dirExists namebuff name) := by
  unfold Tftp.subdirOr
  split
  · exact h.append
  · exact h

theorem isDirText_clientDir : IsDirText (clientDir dirExists parts) := by
  unfold clientDir
  split
  · exact ⟨rfl, rfl⟩
  · rename_i root _
    extract_lets namebuff₀ namebuff
    have hroot : IsDirText namebuff₀ := isDirText_rootDir
    have hip : IsDirText namebuff := by
      show IsDirText (if _ then _ else _)
      split
      · exact hroot.subdirOr _
      · exact hroot
    split
    · split
      · exact hip.subdirOr _
      · exact hip
    · exact hip

theorem IsDirText.exists_eq (h : IsDirText dir) : ∃ front, dir = front ++ ['/'] :=
  getLast?_eq_some_iff.mp h.last

/-- **The path starts with the text of the client's directory**. -/
theorem buildTftpPath_spec :
    clientDir dirExists parts <+: buildTftpPath dirExists filenameRaw parts := by
  unfold buildTftpPath
  extract_lets filename namebuff
  by_cases hslash : filename.head? = some '/'
  · rw [if_pos hslash]
    cases hpfx : parts.pfx with
    | some root =>
      show namebuff <+: if namebuff <+: filename then filename else namebuff ++ filename.tail
      by_cases hmatch : namebuff <+: filename
      · rw [if_pos hmatch]
        exact hmatch
      · rw [if_neg hmatch]
        exact prefix_append _ _
    | none =>
      -- without a root the directory is `/`
      have hdir : clientDir dirExists parts = ['/'] := by
        unfold clientDir
        rw [hpfx]
      rw [hdir]
      show ['/'] <+: filename
      obtain ⟨c, rest, hfilename⟩ : ∃ c rest, filename = c :: rest :=
        exists_cons_of_ne_nil (fun hnil => by rw [hnil] at hslash; cases hslash)
      rw [hfilename] at hslash ⊢
      rw [Option.some.inj hslash]
      exact prefix_append ['/'] rest
  · rw [if_neg hslash]
    exact prefix_append _ _

/-- **A request's path leads into the client's directory**: resolving `.`, `..` and repeated slashes
in a path that the check lets through gives something inside the root with the subdirectories that
exist, unless the last component of the path is `..`. -/
theorem inside_clientDir (dirExists : Str → Bool) (filenameRaw : Str) (parts : PathParts)
    (hcheck : movesOut parts.pfx.isSome (buildTftpPath dirExists filenameRaw parts) = false)
    (hlast : (components (buildTftpPath dirExists filenameRaw parts)).getLast? ≠ some ['.', '.']) :
    Inside (buildTftpPath dirExists filenameRaw parts) (clientDir dirExists parts) := by
  cases hpfx : parts.pfx with
  | none =>
    -- the directory is the top
    have hdir : clientDir dirExists parts = ['/'] := by
      unfold clientDir
      rw [hpfx]
    rw [hdir]
    exact nil_prefix
  | some root =>
    have hdir : IsDirText (clientDir dirExists parts) := isDirText_clientDir
    obtain ⟨front, hfront⟩ := hdir.exists_eq
    obtain ⟨rest, hpath⟩ := buildTftpPath_spec
    have hslash : (buildTftpPath dirExists filenameRaw parts).head? = some '/' := by
      rw [← hpath, head?_append, hdir.head]
      rfl
    have hno : ¬ ['/', '.', '.', '/'] <:+: buildTftpPath dirExists filenameRaw parts := by
      rw [hpfx] at hcheck
      exact of_decide_eq_false hcheck
    rw [← hpath] at hslash hno hlast ⊢
    rw [hfront, append_assoc] at hslash hno hlast ⊢
    exact inside_of_no_dotdot hslash hno hlast

/-- A client with a directory of its own, below a root that is given without its slash. -/
def sampleParts : PathParts :=
  { pfx := some "srv".toList, aprefIp := true, clientAddrStr := "10.0.0.5".toList }

theorem inside_clientDir_sample :
    Inside (buildTftpPath (fun _ => true) "/boot\\.\\\\pxe".toList sampleParts)
      (clientDir (fun _ => true) sampleParts) :=
  inside_clientDir (fun _ => true) "/boot\\.\\\\pxe".toList sampleParts (by decide +kernel)
    (by decide +kernel)

/-- The check is on `/../` alone: a name that ends with `..` gets past it, and leads out of the
root. -/
example : movesOut true (buildTftpPath (fun _ => false) "..".toList sampleParts) = false ∧
    ¬ Inside (buildTftpPath (fun _ => false) "..".toList sampleParts)
      (clientDir (fun _ => false) sampleParts) := by
  decide +kernel

end DnsmasqRs.Tftp
