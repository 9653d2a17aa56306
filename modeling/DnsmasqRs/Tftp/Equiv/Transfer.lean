import DnsmasqRs.Tftp.Transfer
import DnsmasqRs.Lib.Serial

/-!
# What a TFTP transfer sends

Reading a block moves a file's cursor, and nothing else of it (`Keeps`); as long as reads succeed,
the position that the file notes down is where the cursor is (`TftpFile.Steady`), whoever read from
it last.  So an octet transfer gets the bytes of the block it is at, or its end (`getBlock_data`,
`getBlock_done`), from the file or from its read-ahead (`Cached`).

`sendWindow_spec` says which blocks a window has: from where it starts, as many as the window is
wide, up to the last block of the file.  `ackNumber_widenAck` says that an acknowledgement is read
as the number it was meant as, if that is at most `0x4000` away from the one before.
-/

open Utf8 Wire List Option

namespace DnsmasqRs.Tftp

/-! ### Files -/

/-- Reads from the file succeed, and it is as long as it was when it was opened. -/
structure TftpFile.Readable (f : TftpFile) : Prop where
  size_eq : f.size = f.file.content.length
  noFault : f.file.fault = none

/-- The position that the file notes down is where its cursor is, if reads succeed. -/
def TftpFile.Steady (f : TftpFile) : Prop := f.Readable → f.file.cursor = f.posn

/-- The second file is the first, with at most another position. -/
structure Keeps (f f' : TftpFile) : Prop where
  content : f'.file.content = f.file.content
  fault : f'.file.fault = f.file.fault
  size : f'.size = f.size
  steady : f.Steady → f'.Steady

theorem Keeps.refl (f : TftpFile) : Keeps f f := ⟨rfl, rfl, rfl, id⟩

theorem Keeps.trans {f f' f'' : TftpFile} (h : Keeps f f') (h' : Keeps f' f'') : Keeps f f'' where
  content := h'.content.trans h.content
  fault := h'.fault.trans h.fault
  size := h'.size.trans h.size
  steady := h'.steady ∘ h.steady

theorem Keeps.readable {f f' : TftpFile} (h : Keeps f f') (hf : f.Readable) : f'.Readable where
  size_eq := by rw [h.size, h.content, hf.size_eq]
  noFault := h.fault.trans hf.noFault

theorem Keeps.readable_of {f f' : TftpFile} (h : Keeps f f') (hf : f'.Readable) : f.Readable where
  size_eq := by rw [← h.size, ← h.content, hf.size_eq]
  noFault := h.fault.symm.trans hf.noFault

theorem OsFile.readExact_of_noFault {os : OsFile} {want : ℕ} (hfault : os.fault = none)
    (hle : os.cursor + want ≤ os.content.length) :
    os.readExact want
      = (.ok ((os.content.drop os.cursor).take want), { os with cursor := os.cursor + want }) := by
  unfold OsFile.readExact
  rw [hfault]
  exact if_pos hle

theorem OsFile.readExact_snd (os : OsFile) (want : ℕ) :
    (os.readExact want).2.content = os.content ∧ (os.readExact want).2.fault = os.fault := by
  unfold OsFile.readExact
  split
  · exact ⟨rfl, rfl⟩
  · split <;> exact ⟨rfl, rfl⟩

variable {f : TftpFile}

/-- **A read inside the file gives its bytes**, and leaves it steady. -/
theorem readAt_spec {offset want : ℕ} (hf : f.Readable) (hsteady : f.Steady)
    (hle : offset + want ≤ f.size) :
    ∃ f', readAt f offset want = (.ok ((f.file.content.drop offset).take want), f')
      ∧ Keeps f f' := by
  unfold readAt
  by_cases hwant : want = 0
  · rw [hwant, take_zero]
    exact ⟨f, rfl, Keeps.refl f⟩
  rw [if_neg hwant]
  extract_lets os
  -- with or without a seek, the cursor is at the offset
  have hos : os = { f.file with cursor := offset } := by
    by_cases hposn : f.posn = offset
    · have hcursor : f.file.cursor = offset := (hsteady hf).trans hposn
      show (if _ then _ else _) = _
      rw [if_neg (by simpa using hposn), ← hcursor]
    · exact if_pos hposn
  have hread : os.readExact want =
      (.ok ((os.content.drop os.cursor).take want), { os with cursor := os.cursor + want }) := by
    apply OsFile.readExact_of_noFault
    · rw [hos]
      exact hf.noFault
    · rw [hos, ← hf.size_eq]
      exact hle
  rw [hread, hos]
  refine ⟨_, rfl, rfl, rfl, rfl, ?_⟩
  intro _ _
  rfl

/-- A read inside the file keeps it, whether it succeeds or not. -/
theorem keeps_readAt (hle : offset + want ≤ f.size) : Keeps f (readAt f offset want).2 := by
  by_cases hok : f.Readable ∧ f.Steady
  · obtain ⟨f', heq, hkeeps⟩ := readAt_spec hok.1 hok.2 hle
    rw [heq]
    exact hkeeps
  -- otherwise there is nothing to keep
  have hsame : (readAt f offset want).2.file.content = f.file.content ∧
      (readAt f offset want).2.file.fault = f.file.fault
        ∧ (readAt f offset want).2.size = f.size := by
    unfold readAt
    by_cases hwant : want = 0
    · rw [if_pos hwant]
      exact ⟨rfl, rfl, rfl⟩
    rw [if_neg hwant]
    extract_lets os
    have hos : os.content = f.file.content ∧ os.fault = f.file.fault := by
      show (if _ then _ else _ : OsFile).content = _ ∧ (if _ then _ else _ : OsFile).fault = _
      split <;> exact ⟨rfl, rfl⟩
    have hsnd := os.readExact_snd want
    split
    all_goals
      rename_i heq
      rw [heq] at hsnd
      exact ⟨hsnd.1.trans hos.1, hsnd.2.trans hos.2, rfl⟩
  refine ⟨hsame.1, hsame.2.1, hsame.2.2, fun hsteady hread => ?_⟩
  refine absurd ⟨⟨?_, ?_⟩, hsteady⟩ hok
  · rw [← hsame.1, ← hsame.2.2]
    exact hread.size_eq
  · rw [← hsame.2.1]
    exact hread.noFault

/-! ### Reading a block, in any mode -/

/-- The second transfer is the first after it looked at a block. -/
def Reread (t t' : TftpTransfer) : Prop :=
  ∃ offset expansion carrylf prefetch,
    t' = { t with
      offset := offset, expansion := expansion, carrylf := carrylf, prefetch := prefetch }

theorem Reread.refl (t : TftpTransfer) : Reread t t := ⟨_, _, _, _, rfl⟩

theorem Reread.trans {t t' t'' : TftpTransfer} (h : Reread t t') (h' : Reread t' t'') :
    Reread t t'' := by
  obtain ⟨_, _, _, _, rfl⟩ := h
  obtain ⟨_, _, _, _, rfl⟩ := h'
  exact ⟨_, _, _, _, rfl⟩

theorem Reread.file_eq {t t' : TftpTransfer} (h : Reread t t') : t'.file = t.file := by
  obtain ⟨_, _, _, _, rfl⟩ := h
  rfl

theorem Reread.block_eq {t t' : TftpTransfer} (h : Reread t t') : t'.block = t.block := by
  obtain ⟨_, _, _, _, rfl⟩ := h
  rfl

theorem reread_encodeBlock : Reread t (encodeBlock t raw).2 := by
  unfold encodeBlock
  split <;> exact ⟨_, _, _, _, rfl⟩

/-- **Looking at a block** changes only the reading side of the transfer, and moves the cursor of
its file. -/
theorem getBlock_keeps (t : TftpTransfer) (f : TftpFile) :
    Reread t (getBlock t f).2.1 ∧ Keeps f (getBlock t f).2.2 := by
  unfold getBlock
  by_cases hblock : t.block = 0
  · rw [if_pos hblock]
    exact ⟨Reread.refl t, Keeps.refl f⟩
  rw [if_neg hblock]
  extract_lets t₁ t₂ want
  have ht₁ : Reread t t₁ := by
    show Reread t (if _ then _ else _)
    split <;> exact ⟨_, _, _, _, rfl⟩
  by_cases hend : t₁.offset > f.size
  · rw [if_pos hend]
    exact ⟨ht₁, Keeps.refl f⟩
  rw [if_neg hend]
  split
  · exact ⟨ht₁, Keeps.refl f⟩
  · have ht₂ : Reread t t₂ := ht₁.trans ⟨_, _, _, _, rfl⟩
    have hkeeps : Keeps f (readAt f t₂.offset want).2 := by
      apply keeps_readAt
      have hoffset : t₂.offset ≤ f.size := Nat.le_of_not_lt hend
      omega
    split
    · rename_i heq
      rw [heq] at hkeeps
      exact ⟨ht₂, hkeeps⟩
    · rename_i heq
      rw [heq] at hkeeps
      exact ⟨(ht₂.trans (reread_encodeBlock)).trans ⟨_, _, _, _, rfl⟩, hkeeps⟩

theorem keeps_of_getBlock {t t' : TftpTransfer} {f' : TftpFile}
    (hget : getBlock t f = (res, t', f')) : Reread t t' ∧ Keeps f f' := by
  have hkept := getBlock_keeps t f
  rw [hget] at hkept
  exact hkept

/-- What a turn of a transfer never changes: which file it has, and what that holds. -/
structure TurnKeeps (t : TftpTransfer) (f : TftpFile) (turn : Turn) : Prop where
  file_eq : turn.transfer.file = t.file
  keeps : Keeps f turn.file

theorem turnKeeps_sendBlocks (k : ℕ) (first : Bool) (t : TftpTransfer) (f : TftpFile) :
    TurnKeeps t f (sendBlocks k first t f) := by
  induction k generalizing first t f with
  | zero => exact ⟨rfl, Keeps.refl f⟩
  | succ k ih =>
    unfold sendBlocks
    split
    all_goals
      rename_i hget
      obtain ⟨hreread, hkeeps⟩ := keeps_of_getBlock hget
    · exact ⟨hreread.file_eq, hkeeps⟩
    · exact ⟨(ih false _ _).file_eq.trans hreread.file_eq, hkeeps.trans (ih false _ _).keeps⟩
    · exact ⟨(ih false _ _).file_eq.trans hreread.file_eq, hkeeps.trans (ih false _ _).keeps⟩
    · exact ⟨hreread.file_eq, hkeeps⟩

theorem sendBlocks_endcon_ne (k : ℕ) (first : Bool) (t : TftpTransfer) (f : TftpFile) :
    (sendBlocks k first t f).endcon ≠ some .errorPacket := by
  induction k generalizing first t f with
  | zero => exact nofun
  | succ k ih =>
    unfold sendBlocks
    split
    · cases first <;> exact nofun
    · exact ih false _ _
    · exact ih false _ _
    · exact nofun

theorem resend_endcon_ne : (resend t f).endcon ≠ some .errorPacket := by
  unfold resend
  extract_lets t₁ turn
  have hwindow : turn.endcon ≠ some .errorPacket := sendBlocks_endcon_ne _ _ _ _
  split
  all_goals exact hwindow

theorem turnKeeps_resend : TurnKeeps t f (resend t f) := by
  unfold resend
  extract_lets t₁ turn
  have hwindow : TurnKeeps t f turn :=
    ⟨(turnKeeps_sendBlocks _ true _ f).file_eq, (turnKeeps_sendBlocks _ true _ f).keeps⟩
  split
  · exact hwindow
  · have hget := getBlock_keeps turn.transfer turn.file
    exact ⟨hget.1.file_eq.trans hwindow.file_eq, hwindow.keeps.trans hget.2⟩

theorem handleTftpPacket_file (t : TftpTransfer) (packet : Bytes) (now : Instant) :
    (handleTftpPacket t packet now).2.file = t.file := by
  unfold handleTftpPacket
  split
  · split
    · unfold handleAck
      extract_lets t₁ block t₂ t₃
      split
      · show (if _ then _ else _ : TftpTransfer).file = t.file
        split <;> rfl
      · rfl
    · split <;> rfl
  · rfl

theorem turnKeeps_processTransferPacket (t : TftpTransfer) (f : TftpFile) (data : Bytes)
    (now : Instant) :
    TurnKeeps t f (processTransferPacket t f data now) := by
  have hfile := handleTftpPacket_file t data now
  unfold processTransferPacket
  split
  all_goals
    rename_i heq
    rw [heq] at hfile
  · exact ⟨(turnKeeps_resend).file_eq.trans hfile, (turnKeeps_resend).keeps⟩
  all_goals exact ⟨hfile, Keeps.refl f⟩

theorem turnKeeps_sweepTransfer (now : Instant) (t : TftpTransfer) (f : TftpFile) :
    TurnKeeps t f (sweepTransfer now t f).1 := by
  unfold sweepTransfer
  split
  · exact ⟨rfl, Keeps.refl f⟩
  · split
    · split
      all_goals
        rename_i hget
        obtain ⟨hreread, hkeeps⟩ := keeps_of_getBlock hget
        exact ⟨hreread.file_eq, hkeeps⟩
    · split
      · exact turnKeeps_resend
      · exact ⟨rfl, Keeps.refl f⟩

/-! ### Octet transfers -/

/-- A transfer whose blocks are the bytes of a file, and whose block numbers do not come to the end
of 32 bits. -/
structure Octet (t : TftpTransfer) (f : TftpFile) : Prop where
  mode : t.netascii = false
  blocksize_pos : 0 < t.blocksize
  readable : f.Readable
  short : f.size / t.blocksize < 2 ^ 32 - 64

/-- The number of the last block, which is not full, and may be empty. -/
def lastBlock (t : TftpTransfer) (f : TftpFile) : ℕ := f.size / t.blocksize + 1

theorem one_le_lastBlock (t : TftpTransfer) (f : TftpFile) :
    1 ≤ lastBlock t f := Nat.le_add_left 1 _

/-- The bytes of a block. -/
def blockBytes (t : TftpTransfer) (f : TftpFile) (n : ℕ) : Bytes :=
  (f.file.content.drop ((n - 1) * t.blocksize)).take t.blocksize

variable {t : TftpTransfer}

/-- They are those from `(n - 1) * b` to `n * b`, or to the end of the file. -/
theorem blockBytes_eq_extract (hf : f.Readable) (hn : n ≠ 0) : blockBytes t f n =
      f.file.content.extract ((n - 1) * t.blocksize) (min (n * t.blocksize) f.size) := by
  obtain ⟨k, rfl⟩ := Nat.exists_eq_succ_of_ne_zero hn
  have hmul : (k + 1) * t.blocksize = k * t.blocksize + t.blocksize := Nat.succ_mul k t.blocksize
  show (f.file.content.drop (k * t.blocksize)).take t.blocksize =
    (f.file.content.drop (k * t.blocksize)).take
      (min ((k + 1) * t.blocksize) f.size - k * t.blocksize)
  rw [take_eq_take_iff, length_drop, ← hf.size_eq]
  omega

/-- The packet for a block. -/
def packetFor (t : TftpTransfer) (f : TftpFile) (n : ℕ) : Bytes :=
  if n = 0 then buildOack (oackOptions t f.size) else buildData (UInt16.ofNat n) (blockBytes t f n)

/-- What the transfer has read ahead is what the file has there. -/
def Cached (t : TftpTransfer) (f : TftpFile) : Prop :=
  ∀ offset data, t.prefetch = some (offset, data) →
    data = (f.file.content.drop offset).take t.blocksize

theorem Cached.keeps {f f' : TftpFile} (h : Cached t f) (hkeeps : Keeps f f') : Cached t f' := by
  intro offset data hsaved
  rw [hkeeps.content]
  exact h offset data hsaved

/-- A block up to the last one starts inside the file, or at its end. -/
theorem le_lastBlock_iff (hpos : 0 < t.blocksize) (n : ℕ) :
    n ≤ lastBlock t f ↔ (n - 1) * t.blocksize ≤ f.size := by
  rw [← Nat.le_div_iff_mul_le hpos]
  exact Nat.sub_le_iff_le_add.symm

theorem toUInt16_eq_ofNat (n : UInt32) : n.toUInt16 = UInt16.ofNat n.toNat := by
  apply UInt16.toNat_inj.mp
  rw [UInt32.toNat_toUInt16, UInt16.toNat_ofNat']

section Blocks

variable {t : TftpTransfer} {f : TftpFile}

theorem getBlock_zero (h : t.block = 0) : getBlock t f = (.ok (.oack (packetFor t f 0)), t, f) :=
    if_pos h

theorem getBlock_done (ho : Octet t f) (h : lastBlock t f < t.block.toNat) :
    getBlock t f = (.ok .done, { t with offset := (t.block.toNat - 1) * t.blocksize }, f) := by
  have hblock : t.block ≠ 0 := by
    rintro heq
    rw [heq] at h
    exact absurd h (Nat.not_lt_zero _)
  have hend : (t.block.toNat - 1) * t.blocksize > f.size := by
    rw [← not_le, le_lastBlock_iff ho.blocksize_pos, not_le] at h
    exact h
  unfold getBlock
  rw [if_neg hblock, ho.mode]
  exact if_pos hend

/-- **A block of the file** is sent as it is there. -/
theorem getBlock_data (ho : Octet t f) (hcached : Cached t f) (hsteady : f.Steady)
    (hblock : t.block ≠ 0) (h : t.block.toNat ≤ lastBlock t f) :
    ∃ t' f', getBlock t f = (.ok (.data (packetFor t f t.block.toNat)), t', f') ∧ Reread t t'
      ∧ Keeps f f' ∧ Cached t' f' := by
  have hkept := getBlock_keeps t f
  suffices hres : (getBlock t f).1 = .ok (.data (packetFor t f t.block.toNat)) ∧
      Cached (getBlock t f).2.1 (getBlock t f).2.2 from
    ⟨_, _, Prod.ext hres.1 rfl, hkept.1, hkept.2, hres.2⟩
  have hle : (t.block.toNat - 1) * t.blocksize ≤ f.size :=
    (le_lastBlock_iff ho.blocksize_pos _).mp h
  have hne : t.block.toNat ≠ 0 := fun hzero => hblock (UInt32.toNat_inj.mp hzero)
  have hpacket :
      packetFor t f t.block.toNat = buildData t.block.toUInt16 (blockBytes t f t.block.toNat) := by
    unfold packetFor
    rw [if_neg hne, toUInt16_eq_ofNat]
  unfold getBlock
  rw [if_neg hblock, ho.mode, hpacket]
  extract_lets t₁ t₂ want
  have hoffset : t₁.offset = (t.block.toNat - 1) * t.blocksize := rfl
  rw [if_neg (show ¬ t₁.offset > f.size by rw [hoffset]; exact Nat.not_lt.mpr hle)]
  cases hsaved : t₁.prefetch.filter fun saved => saved.1 == t₁.offset with
  | some saved =>
    -- the block was read ahead
    obtain ⟨offset, data⟩ := saved
    obtain ⟨hprefetch, hat⟩ := filter_eq_some_iff.mp hsaved
    have hdata : data = blockBytes t f t.block.toNat := by
      rw [hcached offset data hprefetch, show offset = _ from eq_of_beq hat]
      rfl
    rw [← hdata]
    exact ⟨rfl, hcached⟩
  | none =>
    have hwant : t₁.offset + want ≤ f.size := by
      have hmin : want ≤ f.size - t₁.offset := Nat.min_le_left _ _
      omega
    obtain ⟨f', hread, hkeeps⟩ := readAt_spec ho.readable hsteady hwant
    have hraw : (f.file.content.drop t₁.offset).take want = blockBytes t f t.block.toNat := by
      show (f.file.content.drop t₁.offset).take (min (f.size - t₁.offset) t.blocksize) = _
      rw [ho.readable.size_eq, ← length_drop, Nat.min_comm, ← take_take, take_length]
      rfl
    rw [hraw] at hread
    have hencode : ∀ raw, encodeBlock t₂ raw = (raw, t₂) := fun raw => if_neg Bool.false_ne_true
    simp only [show t₂.offset = t₁.offset from rfl, hread, hencode]
    refine ⟨rfl, ?_⟩
    rintro offset data ⟨⟩
    rw [hkeeps.content]
    rfl

theorem cached_getBlock (ho : Octet t f) (hcached : Cached t f) (hsteady : f.Steady) :
    Cached (getBlock t f).2.1 (getBlock t f).2.2 := by
  by_cases hblock : t.block = 0
  · rw [getBlock_zero hblock]
    exact hcached
  by_cases hend : lastBlock t f < t.block.toNat
  · rw [getBlock_done ho hend]
    exact hcached
  · obtain ⟨t', f', hget, -, -, hcached'⟩ :=
      getBlock_data ho hcached hsteady hblock (Nat.not_lt.mp hend)
    rw [hget]
    exact hcached'

end Blocks

/-! ### Windows -/

/-- The second transfer is the first at another block. -/
def Advanced (t t' : TftpTransfer) : Prop :=
  ∃ block offset expansion carrylf prefetch,
    t' = { t with
      block := block, offset := offset, expansion := expansion, carrylf := carrylf,
        prefetch := prefetch }

theorem Reread.advanced {t t' : TftpTransfer} (h : Reread t t') : Advanced t t' := by
  obtain ⟨_, _, _, _, rfl⟩ := h
  exact ⟨_, _, _, _, _, rfl⟩

theorem Advanced.trans {t t' t'' : TftpTransfer} (h : Advanced t t') (h' : Advanced t' t'') :
    Advanced t t'' := by
  obtain ⟨_, _, _, _, _, rfl⟩ := h
  obtain ⟨_, _, _, _, _, rfl⟩ := h'
  exact ⟨_, _, _, _, _, rfl⟩

section Advanced

variable {t t' : TftpTransfer} {f f' : TftpFile}

theorem Advanced.octet (h : Advanced t t') (hkeeps : Keeps f f') (ho : Octet t f) :
    Octet t' f' := by
  obtain ⟨_, _, _, _, _, rfl⟩ := h
  refine ⟨ho.mode, ho.blocksize_pos, hkeeps.readable ho.readable, ?_⟩
  rw [hkeeps.size]
  exact ho.short

theorem Advanced.octet_of (h : Advanced t t') (hkeeps : Keeps f f') (ho : Octet t' f') :
    Octet t f := by
  obtain ⟨_, _, _, _, _, rfl⟩ := h
  refine ⟨ho.mode, ho.blocksize_pos, hkeeps.readable_of ho.readable, ?_⟩
  rw [← hkeeps.size]
  exact ho.short

theorem Advanced.lastBlock_eq (h : Advanced t t') (hkeeps : Keeps f f') :
    lastBlock t' f' = lastBlock t f := by
  obtain ⟨_, _, _, _, _, rfl⟩ := h
  unfold lastBlock
  rw [hkeeps.size]

theorem Advanced.packetFor_eq (h : Advanced t t') (hkeeps : Keeps f f') (n : ℕ) :
    packetFor t' f' n = packetFor t f n := by
  obtain ⟨_, _, _, _, _, rfl⟩ := h
  unfold packetFor blockBytes
  rw [hkeeps.size, hkeeps.content]
  rfl

end Advanced

/-- What a turn that sends at most `width` blocks does: it sends them from where the transfer is, up
to the last one, and the transfer is finished only if it was past that before. -/
structure WindowSpec (t : TftpTransfer) (f : TftpFile) (width : ℕ) (turn : Turn) : Prop where
  advanced : Advanced t turn.transfer
  cached : Cached turn.transfer turn.file
  block_eq : turn.transfer.block.toNat = min (t.block.toNat + width) (lastBlock t f + 1)
  sent : ∀ s ∈ turn.sent, ∃ n : UInt32, n.toNat < turn.transfer.block.toNat
    ∧ s = .block n (packetFor t f n.toNat)
  finished : ∀ cause, turn.endcon = some cause →
    cause = .finished ∧ t.block.toNat = lastBlock t f + 1

theorem Octet.toNat_succ {n : UInt32} (ho : Octet t f) (h : n.toNat ≤ lastBlock t f) :
    (n + 1).toNat = n.toNat + 1 := by
  have hshort := ho.short
  rw [UInt32.toNat_add, UInt32.toNat_one]
  unfold lastBlock at h
  generalize f.size / t.blocksize = last at h hshort
  omega

theorem sendBlocks_spec (k : ℕ) (first : Bool) (ho : Octet t f)
    (hcached : Cached t f) (hsteady : f.Steady) (hblock : t.block ≠ 0)
    (hle : t.block.toNat ≤ lastBlock t f + 1) :
    WindowSpec t f k (sendBlocks k first t f)
      ∧ (first = false → (sendBlocks k first t f).endcon = none) := by
  induction k generalizing first t f with
  | zero =>
    refine ⟨⟨(Reread.refl t).advanced, hcached, ?_, ?_, ?_⟩, fun _ => rfl⟩
    · show t.block.toNat = min (t.block.toNat + 0) (lastBlock t f + 1)
      omega
    · intro s hs
      cases hs
    · intro cause hcause
      cases hcause
  | succ k ih =>
    by_cases hend : lastBlock t f < t.block.toNat
    · have hget := getBlock_done ho hend
      unfold sendBlocks
      rw [hget]
      refine ⟨⟨⟨_, _, _, _, _, rfl⟩, hcached, ?_, ?_, ?_⟩, fun hfirst => by rw [hfirst]; rfl⟩
      · show t.block.toNat = min (t.block.toNat + (k + 1)) (lastBlock t f + 1)
        omega
      · intro s hs
        cases hs
      · intro cause hcause
        cases first with
        | true =>
          refine ⟨(some.inj hcause).symm, ?_⟩
          omega
        | false => cases hcause
    · rw [Nat.not_lt] at hend
      obtain ⟨t', f', hget, hreread, hkeeps, hcached'⟩ :=
        getBlock_data ho hcached hsteady hblock hend
      obtain ⟨t₁, ht₁⟩ : ∃ t₁ : TftpTransfer, t₁ = { t' with block := t'.block + 1 } := ⟨_, rfl⟩
      have hadv : Advanced t t₁ := by
        rw [ht₁]
        exact hreread.advanced.trans ⟨_, _, _, _, _, rfl⟩
      have hsucc : t₁.block.toNat = t.block.toNat + 1 := by
        rw [ht₁, hreread.block_eq]
        exact ho.toNat_succ hend
      have hlast : lastBlock t₁ f' = lastBlock t f := hadv.lastBlock_eq hkeeps
      have hcached₁ : Cached t₁ f' := by
        rw [ht₁]
        exact hcached'
      have hne : t₁.block ≠ 0 := by
        intro hzero
        rw [hzero] at hsucc
        exact absurd hsucc.symm (Nat.succ_ne_zero _)
      obtain ⟨hrest, hnone⟩ :=
        ih false (hadv.octet hkeeps ho) hcached₁ (hkeeps.steady hsteady) hne (by omega)
      have hstep : sendBlocks (k + 1) first t f = (sendBlocks k false t₁ f').afterSending
            (.block t.block (packetFor t f t.block.toNat)) := by
        conv_lhs => unfold sendBlocks
        rw [hget, ht₁, ← hreread.block_eq]
      have hblock_eq : (sendBlocks k false t₁ f').transfer.block.toNat =
          min (t.block.toNat + (k + 1)) (lastBlock t f + 1) := by
        rw [hrest.block_eq, hsucc]
        omega
      rw [hstep]
      refine ⟨⟨hadv.trans hrest.advanced, hrest.cached, hblock_eq, ?_, ?_⟩, fun _ => hnone rfl⟩
      · intro s hs
        show ∃ n : UInt32, n.toNat < (sendBlocks k false t₁ f').transfer.block.toNat ∧ _
        obtain rfl | hs := mem_cons.mp hs
        · refine ⟨t.block, ?_, rfl⟩
          omega
        · obtain ⟨n, hn, rfl⟩ := hrest.sent s hs
          refine ⟨n, hn, ?_⟩
          rw [hadv.packetFor_eq hkeeps]
      · intro cause hcause
        exact nomatch (hnone rfl).symm.trans hcause

/-- How many blocks a window has: only the OACK before it is acknowledged. -/
def widthFrom (t : TftpTransfer) (n : UInt32) : ℕ := if n ≠ 0 then t.windowsize.toNat else 1

theorem widthFrom_le (h : 1 ≤ t.windowsize.toNat) (n : UInt32) :
    widthFrom t n ≤ t.windowsize.toNat := by
  unfold widthFrom
  split
  · exact le_rfl
  · exact h

theorem widthFrom_pos (h : 1 ≤ t.windowsize.toNat) (n : UInt32) : 1 ≤ widthFrom t n := by
  unfold widthFrom
  split
  · exact h
  · exact le_rfl

/-- **A window** from any block up to the end. -/
theorem sendWindow_spec (ho : Octet t f) (hcached : Cached t f)
    (hsteady : f.Steady) (hle : t.block.toNat ≤ lastBlock t f + 1) :
    WindowSpec t f (widthFrom t t.block) (sendWindow t f) := by
  by_cases hblock : t.block = 0
  · have hwidth : widthFrom t t.block = 1 := if_neg (fun h => h hblock)
    have hturn :
        sendWindow t f
          = ⟨none, false, { t with
            block := t.block + 1 }, f, [.block t.block (packetFor t f 0)]⟩ := by
      unfold sendWindow
      rw [if_neg (fun h => h hblock)]
      unfold sendBlocks
      rw [getBlock_zero hblock]
      rfl
    rw [hturn]
    refine ⟨⟨_, _, _, _, _, rfl⟩, hcached, ?_, ?_, ?_⟩
    · show (t.block + 1).toNat = _
      rw [hblock]
      exact (Nat.min_eq_left (Nat.le_add_left 1 (lastBlock t f))).symm
    · intro s hs
      refine ⟨t.block, ?_, ?_⟩
      · show t.block.toNat < (t.block + 1).toNat
        rw [hblock]
        decide
      · rw [mem_singleton.mp hs, hblock]
        rfl
    · intro cause hcause
      cases hcause
  · exact (sendBlocks_spec _ true ho hcached hsteady hblock hle).1

/-! ### Acknowledgements -/

/-- The number in a packet, if it is an acknowledgement. -/
def ackLow : Bytes → Option UInt16
  | a :: b :: c :: d :: _ => if ofBe16 a b = 4 then some (ofBe16 c d) else none
  | _ => none

theorem handleTftpPacket_ack (h : ackLow data = some new) :
    handleTftpPacket t data now = handleAck t new now := by
  unfold ackLow at h
  split at h
  · split at h
    · rename_i hack
      rw [handleTftpPacket, if_pos hack, some.inj h]
    · cases h
  · cases h

/-- A packet that acknowledges nothing is an error, or is ignored. -/
theorem handleTftpPacket_of_ackLow_eq_none
    (h : ackLow data = none) :
    (∃ code, handleTftpPacket t data now = (.error code, { t with start := none })) ∨
      handleTftpPacket t data now = (.invalidPacket, t) := by
  unfold ackLow at h
  split at h
  · split at h
    · cases h
    · rename_i hack
      rw [handleTftpPacket, if_neg hack]
      split
      · exact Or.inl ⟨_, rfl⟩
      · exact Or.inr rfl
  · rename_i hshort
    right
    unfold handleTftpPacket
    split
    · exact absurd rfl (hshort _ _ _ _ _)
    · rfl

/-- The number of the block that the last acknowledgement was for. -/
def TftpTransfer.ackNumber (t : TftpTransfer) : ℕ := t.blockHi.toNat * 65536 + t.ackprev.toNat

theorem toNat_ackedBlock (h : t.ackNumber < 2 ^ 32) : t.ackedBlock.toNat = t.ackNumber := by
  unfold TftpTransfer.ackNumber at h ⊢
  unfold TftpTransfer.ackedBlock
  rw [UInt32.toNat_add, UInt32.toNat_shiftLeft, UInt16.toNat_toUInt32, Nat.shiftLeft_eq]
  show (t.blockHi.toNat * 65536 % 2 ^ 32 + _) % 2 ^ 32 = _
  omega

theorem toNat_blockHi_widenAck (h : t.blockHi.toNat + 1 < 2 ^ 32) :
    (widenAck t new).blockHi.toNat
      = Serial.nextHigh 0x4000 t.blockHi.toNat t.ackprev.toNat new.toNat := by
  have hup : (new ≤ 0x4000 ∧ t.ackprev ≥ 0xc000)
    ↔ (new.toNat ≤ 0x4000 ∧ 3 * 0x4000 ≤ t.ackprev.toNat) := by
    rfl
  have hdown : (new ≥ 0xc000 ∧ t.ackprev ≤ 0x4000 ∧ t.blockHi ≠ 0) ↔
      (3 * 0x4000 ≤ new.toNat ∧ t.ackprev.toNat ≤ 0x4000 ∧ t.blockHi.toNat ≠ 0) := by
    rw [ge_iff_le, UInt16.le_iff_toNat_le, ne_eq, ← UInt32.toNat_inj]
    rfl
  show (if _ then _ else if _ then _ else _ : UInt32).toNat = if _ then _ else if _ then _ else _
  rw [if_congr hdown rfl rfl, if_congr hup rfl rfl]
  split
  · exact Nat.mod_eq_of_lt h
  · split
    · rw [UInt32.toNat_sub_of_le _ _ (by rw [UInt32.le_iff_toNat_le, UInt32.toNat_one]; omega),
        UInt32.toNat_one]
    · rfl

/-- **An acknowledgement is read as the number it was meant as**, if that is not far from the one
before. -/
theorem ackNumber_widenAck (hlt : t.ackNumber < 2 ^ 32)
    (hup : n ≤ t.ackNumber + 0x4000) (hdown : t.ackNumber ≤ n + 0x4000) :
    (widenAck t (UInt16.ofNat n)).ackNumber = n := by
  have hprev : t.ackprev.toNat < 4 * 0x4000 := t.ackprev.toNat_lt
  have hlow : (UInt16.ofNat n).toNat = n % 65536 := UInt16.toNat_ofNat'
  have hhigh : Serial.nextHigh 0x4000 t.blockHi.toNat t.ackprev.toNat (n % 65536) = n / 65536 := by
    apply Serial.nextHigh_eq (by decide) hprev (by omega)
    · show n / 65536 * 65536 + n % 65536 ≤ t.ackNumber + 0x4000
      omega
    · show t.ackNumber ≤ n / 65536 * 65536 + n % 65536 + 0x4000
      omega
  have hblockHi : t.blockHi.toNat + 1 < 2 ^ 32 := by
    unfold TftpTransfer.ackNumber at hlt
    omega
  show (widenAck t (UInt16.ofNat n)).blockHi.toNat * 65536 + (UInt16.ofNat n).toNat = n
  rw [toNat_blockHi_widenAck hblockHi, hlow]
  omega

end DnsmasqRs.Tftp
