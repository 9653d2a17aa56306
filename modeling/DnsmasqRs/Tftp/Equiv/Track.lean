import DnsmasqRs.Tftp.Equiv.Transfer

/-!
# An octet transfer and its client

`Track` says what holds of an octet transfer at any time, about the blocks that were sent to the
client and those that it has acknowledged: what was sent is less than a window ahead of the last
acknowledgement, and the last acknowledgement that came in, which may be an old one, is not far
behind it.

`Track.packet` and `Track.sweep` say that a packet of the client and a sweep keep this, if an
acknowledgement is for a block that was sent before and not more than 16000 behind: it is then read
as the number it was meant as, every packet that goes out has the bytes of its block, and the
transfer is finished only after the last block was acknowledged.
-/

open Utf8 Wire

namespace DnsmasqRs.Tftp

/-- An octet transfer with a window of at most 32 blocks. -/
structure OctetTransfer (t : TftpTransfer) (f : TftpFile) : Prop extends Octet t f where
  window_pos : 1 ≤ t.windowsize.toNat
  window_le : t.windowsize.toNat ≤ 32

/-- What was negotiated for the transfer is still the same. -/
structure SameSettings (t₀ t : TftpTransfer) : Prop where
  netascii : t.netascii = t₀.netascii
  blocksize : t.blocksize = t₀.blocksize
  windowsize : t.windowsize = t₀.windowsize

theorem SameSettings.advanced {t₀ t t' : TftpTransfer} (h : SameSettings t₀ t)
    (hadv : Advanced t t') :
    SameSettings t₀ t' := by
  obtain ⟨_, _, _, _, _, rfl⟩ := hadv
  exact ⟨h.netascii, h.blocksize, h.windowsize⟩

/-- The transfer that began as `t₀`, with the file `f₀`, is now `t`; these blocks were sent to its
client, and these the client has acknowledged. -/
structure Track (t₀ : TftpTransfer) (f₀ : TftpFile) (sent acked : ℕ → Prop) (t : TftpTransfer)
    (f : TftpFile) :
    Prop where
  settings : SameSettings t₀ t
  keeps : Keeps f₀ f
  cached : Cached t f
  alive : t.start.isSome
  lastack_le : t.lastack.toNat ≤ lastBlock t₀ f₀ + 1
  sent_lt : ∀ n, sent n → n < t.lastack.toNat + widthFrom t₀ t.lastack
  sent_le_block : ∀ n, sent n → n ≤ t.block.toNat
  sent_le_last : ∀ n, sent n → n ≤ lastBlock t₀ f₀
  acked_last : t.lastack.toNat ≤ 1 ∨ acked (t.lastack.toNat - 1)
  number_le : t.ackNumber ≤ t.lastack.toNat
  number_ge : t.lastack.toNat ≤ t.ackNumber + 16001

/-- The block was sent in this turn. -/
def SentIn (turn : Turn) (n : ℕ) : Prop :=
  ∃ (m : UInt32) (pkt : Bytes), .block m pkt ∈ turn.sent ∧ m.toNat = n

/-- A turn keeps track of the transfer, sends what is in the file, and ends it for a reason. -/
structure TurnSpec (t₀ : TftpTransfer) (f₀ : TftpFile) (sent acked : ℕ → Prop) (turn : Turn) :
    Prop where
  track : turn.endcon ≠ some .errorPacket →
    Track t₀ f₀ (fun n => sent n ∨ SentIn turn n) acked turn.transfer turn.file
  packets : ∀ (m : UInt32) (pkt : Bytes), .block m pkt ∈ turn.sent → m ≠ 0 →
    pkt = buildData (UInt16.ofNat m.toNat) (blockBytes t₀ f₀ m.toNat)
  ended : ∀ cause, turn.endcon = some cause → cause = .errorPacket ∨ cause = .inactive
    ∨ acked (lastBlock t₀ f₀)

namespace Track

variable {t₀ t : TftpTransfer} {f₀ f : TftpFile} {sent acked : ℕ → Prop}

section

variable (h : Track t₀ f₀ sent acked t f)
include h

theorem octet (ho : OctetTransfer t₀ f₀) : Octet t f where
  mode := h.settings.netascii.trans ho.mode
  blocksize_pos := by
    rw [h.settings.blocksize]
    exact ho.blocksize_pos
  readable := h.keeps.readable ho.readable
  short := by
    rw [h.settings.blocksize, h.keeps.size]
    exact ho.short

theorem lastBlock_eq : lastBlock t f = lastBlock t₀ f₀ := by
  unfold lastBlock
  rw [h.settings.blocksize, h.keeps.size]

theorem widthFrom_eq : widthFrom t n = widthFrom t₀ n := by
  unfold widthFrom
  rw [h.settings.windowsize]

/-- The packet for a block, apart from the OACK. -/
theorem packetFor_eq {n : UInt32} (hn : n ≠ 0) :
    packetFor t f n.toNat = buildData (UInt16.ofNat n.toNat) (blockBytes t₀ f₀ n.toNat) := by
  have hne : n.toNat ≠ 0 := fun hzero => hn (UInt32.toNat_inj.mp hzero)
  unfold packetFor blockBytes
  rw [if_neg hne, h.settings.blocksize, h.keeps.content]

/-- Somebody else read from the file. -/
theorem moved (hkeeps : Keeps f f') : Track t₀ f₀ sent acked t f' :=
  { h with keeps := h.keeps.trans hkeeps, cached := h.cached.keeps hkeeps }

end

theorem silent (hcause : ∀ c, cause = some c → c = .errorPacket ∨ c = .inactive)
    (h : cause ≠ some .errorPacket → Track t₀ f₀ sent acked t f) :
    TurnSpec t₀ f₀ sent acked ⟨cause, error, t, f, []⟩ where
  track := by
    intro hne
    have hsame : (fun n => sent n ∨ SentIn ⟨cause, error, t, f, []⟩ n) = sent := by
      ext n
      constructor
      · rintro (hn | ⟨m, pkt, hmem, -⟩)
        · exact hn
        · cases hmem
      · exact Or.inl
    rw [hsame]
    exact h hne
  packets := by
    intro m pkt hmem
    cases hmem
  ended := by
    intro c hc
    exact (hcause c hc).imp_right Or.inl

section Turn

variable (h : Track t₀ f₀ sent acked t f) (ho : OctetTransfer t₀ f₀) (hsteady : f.Steady)
include h ho hsteady

theorem reread : Track t₀ f₀ sent acked (getBlock t f).2.1 (getBlock t f).2.2 := by
  have hcached := cached_getBlock (h.octet ho) h.cached hsteady
  obtain ⟨hreread, hkeeps⟩ := getBlock_keeps t f
  have hsettings := h.settings.advanced hreread.advanced
  generalize (getBlock t f).2 = after at hcached hreread hkeeps hsettings
  obtain ⟨_, _, _, _, heq⟩ := hreread
  rw [heq] at hcached hsettings ⊢
  exact { h with settings := hsettings, keeps := h.keeps.trans hkeeps, cached := hcached }

/-- **The window after the last acknowledgement**. -/
theorem window (ht₁ : t₁ = { t.backOff with block := t.lastack }) :
    TurnSpec t₀ f₀ sent acked (sendWindow t₁ f) := by
  have hocto : Octet t₁ f := by
    have := h.octet ho
    rw [ht₁]
    exact ⟨this.mode, this.blocksize_pos, this.readable, this.short⟩
  have hcached : Cached t₁ f := by
    rw [ht₁]
    exact h.cached
  have hblock : t₁.block = t.lastack := by rw [ht₁]
  have hlast : lastBlock t₁ f = lastBlock t₀ f₀ := by
    rw [← h.lastBlock_eq, ht₁]
    rfl
  have hwidth : widthFrom t₁ t₁.block = widthFrom t₀ t.lastack := by
    rw [← h.widthFrom_eq, ht₁]
    rfl
  have hspec := sendWindow_spec hocto hcached hsteady (by rw [hblock, hlast]; exact h.lastack_le)
  have hkeeps : Keeps f (sendWindow t₁ f).file := (turnKeeps_sendBlocks _ true t₁ f).keeps
  rw [hwidth] at hspec
  generalize sendWindow t₁ f = turn at hspec hkeeps ⊢
  have hto :
      turn.transfer.block.toNat
        = min (t.lastack.toNat + widthFrom t₀ t.lastack) (lastBlock t₀ f₀ + 1) := by
    rw [hspec.block_eq, hblock, hlast]
  have hsent : ∀ n, SentIn turn n → n < turn.transfer.block.toNat := by
    rintro n ⟨m, pkt, hmem, rfl⟩
    obtain ⟨n, hn, heq⟩ := hspec.sent _ hmem
    cases heq
    exact hn
  refine ⟨fun _ => ?_, ?_, ?_⟩
  · -- only the reading side and the block are not as before
    obtain ⟨hlastack, hnumber, halive⟩ : turn.transfer.lastack = t.lastack
        ∧ turn.transfer.ackNumber = t.ackNumber ∧ turn.transfer.start = t.start := by
      obtain ⟨_, _, _, _, _, heq⟩ := hspec.advanced
      rw [heq, ht₁]
      exact ⟨rfl, rfl, rfl⟩
    have hsettings : SameSettings t₀ t₁ := by
      rw [ht₁]
      exact ⟨h.settings.netascii, h.settings.blocksize, h.settings.windowsize⟩
    refine ⟨hsettings.advanced hspec.advanced, h.keeps.trans hkeeps, hspec.cached, ?_, ?_, ?_, ?_,
      ?_, ?_, ?_, ?_⟩
    · rw [halive]
      exact h.alive
    · rw [hlastack]
      exact h.lastack_le
    · rw [hlastack]
      rintro n (hn | hn)
      · exact h.sent_lt n hn
      · have := hsent n hn
        omega
    · rintro n (hn | hn)
      · have hlt := h.sent_lt n hn
        have hle := h.sent_le_last n hn
        omega
      · exact (hsent n hn).le
    · rintro n (hn | hn)
      · exact h.sent_le_last n hn
      · have := hsent n hn
        omega
    · rw [hlastack]
      exact h.acked_last
    · rw [hlastack, hnumber]
      exact h.number_le
    · rw [hlastack, hnumber]
      exact h.number_ge
  · intro m pkt hmem hm
    obtain ⟨n, -, heq⟩ := hspec.sent _ hmem
    cases heq
    have hadv : packetFor t₁ f m.toNat = packetFor t f m.toNat := by
      rw [ht₁]
      rfl
    rw [hadv]
    exact h.packetFor_eq hm
  · intro cause hcause
    have hpast := (hspec.finished cause hcause).2
    rw [hblock, hlast] at hpast
    right
    right
    obtain hfew | hacked := h.acked_last
    · have := one_le_lastBlock t₀ f₀
      omega
    · rw [hpast] at hacked
      exact hacked

theorem resend : TurnSpec t₀ f₀ sent acked (resend t f) := by
  obtain ⟨t₁, ht₁⟩ : ∃ t₁ : TftpTransfer, t₁ = { t.backOff with block := t.lastack } := ⟨_, rfl⟩
  have hwindow := h.window ho hsteady ht₁
  have hkeeps : Keeps f (sendWindow t₁ f).file := (turnKeeps_sendBlocks _ true t₁ f).keeps
  have hresend : Tftp.resend t f = if (sendWindow t₁ f).endcon.isSome then sendWindow t₁ f else
      { sendWindow t₁ f with
        transfer := (getBlock (sendWindow t₁ f).transfer (sendWindow t₁ f).file).2.1
        file := (getBlock (sendWindow t₁ f).transfer (sendWindow t₁ f).file).2.2 } := by
    rw [ht₁]
    rfl
  rw [hresend]
  split
  · exact hwindow
  · -- and the read-ahead
    refine ⟨fun hcause => ?_, hwindow.packets, hwindow.ended⟩
    exact (hwindow.track hcause).reread ho (hkeeps.steady hsteady)

/-- **A sweep**. -/
theorem sweep (now : Instant) : TurnSpec t₀ f₀ sent acked (sweepTransfer now t f).1 := by
  have hread := h.reread ho hsteady
  have hinactive : ∀ c, some EndCause.inactive = some c → c = .errorPacket ∨ c = .inactive := by
    rintro c ⟨⟩
    exact Or.inr rfl
  unfold sweepTransfer
  rw [if_neg (by rw [← Option.not_isSome, h.alive]; decide)]
  split
  · split
    all_goals
      rename_i heq
      rw [heq] at hread
      exact silent hinactive fun _ => hread
  · split
    · exact h.resend ho hsteady
    · exact silent nofun fun _ => h

end Turn

/-- A sweep finds no transfer that an ERROR packet has ended. -/
theorem sweep_endcon_ne (now : Instant) (h : Track t₀ f₀ sent acked t f) :
    (sweepTransfer now t f).1.endcon ≠ some .errorPacket := by
  unfold sweepTransfer
  rw [if_neg (by rw [← Option.not_isSome, h.alive]; decide)]
  split
  · split <;> exact nofun
  · split
    · exact resend_endcon_ne
    · exact nofun

/-- **A packet that acknowledges nothing**. -/
theorem packet (now : Instant) (h : Track t₀ f₀ sent acked t f) (hdata : ackLow data = none) :
    TurnSpec t₀ f₀ sent acked (processTransferPacket t f data now) := by
  unfold processTransferPacket
  obtain ⟨code, heq⟩ | heq := handleTftpPacket_of_ackLow_eq_none hdata
  · rw [heq]
    refine silent ?_ fun hne => absurd rfl hne
    rintro c ⟨⟩
    exact Or.inl rfl
  · rw [heq]
    exact silent nofun fun _ => h

/-- An acknowledgement is not more than 16000 behind the last one that advanced the transfer. -/
theorem lastack_le_add {n : ℕ} (h : Track t₀ f₀ sent acked t f)
    (hnear : ∀ m, acked m → m ≤ n + 16000) :
    t.lastack.toNat ≤ n + 16001 := by
  obtain hfew | hacked := h.acked_last
  · omega
  · have := hnear _ hacked
    omega

section Ack

variable {n : ℕ} (h : Track t₀ f₀ sent acked t f) (ho : OctetTransfer t₀ f₀) (hsent : sent n)
  (hnear : ∀ m, acked m → m ≤ n + 16000)
include h ho hsent hnear

/-- **An acknowledgement is read as the number of its block**. -/
theorem ackNumber_eq : (widenAck t (UInt16.ofNat n)).ackNumber = n := by
  have hshort := ho.short
  have hlast := h.lastack_le
  have hle := h.number_le
  have hge := h.number_ge
  have hlt := h.sent_lt n hsent
  have hwidth := widthFrom_le ho.window_pos t.lastack
  have hwindow := ho.window_le
  have hback := h.lastack_le_add hnear
  unfold lastBlock at hlast
  generalize f₀.size / t₀.blocksize = last at hshort hlast
  apply ackNumber_widenAck <;> omega

theorem toNat_ackedBlock_eq : (widenAck t (UInt16.ofNat n)).ackedBlock.toNat = n := by
  have hshort := ho.short
  have hlast := h.sent_le_last n hsent
  have hnumber := h.ackNumber_eq ho hsent hnear
  rw [toNat_ackedBlock, hnumber]
  unfold lastBlock at hlast
  generalize f₀.size / t₀.blocksize = last at hshort hlast
  omega

/-- An old acknowledgement: only what it was is noted down. -/
theorem stale (hlt : n < t.lastack.toNat) :
    Track t₀ f₀ sent acked (widenAck t (UInt16.ofNat n)) f := by
  have hnumber := h.ackNumber_eq ho hsent hnear
  refine { h with settings := ?_, number_le := ?_, number_ge := ?_ }
  · exact ⟨h.settings.netascii, h.settings.blocksize, h.settings.windowsize⟩
  · rw [hnumber]
    exact hlt.le
  · rw [hnumber]
    exact h.lastack_le_add hnear

/-- A new acknowledgement: the blocks up to it are done. -/
theorem advance (hle : t.lastack.toNat ≤ n)
    (ht' : t' = { widenAck t (UInt16.ofNat n) with
      retransmit := now, start := some now, backoff := 0,
      lastack := (widenAck t (UInt16.ofNat n)).ackedBlock + 1 }) :
    Track t₀ f₀ sent (fun m => acked m ∨ m = n) t' f := by
  have hnumber : t'.ackNumber = n := by
    rw [ht']
    exact h.ackNumber_eq ho hsent hnear
  have hacked := h.toNat_ackedBlock_eq ho hsent hnear
  have hlast := h.sent_le_last n hsent
  have hlastack : t'.lastack.toNat = n + 1 := by
    rw [ht']
    show ((widenAck t (UInt16.ofNat n)).ackedBlock + 1).toNat = n + 1
    rw [ho.toNat_succ (by rw [hacked]; exact hlast), hacked]
  have hwidth : widthFrom t₀ t'.lastack = t₀.windowsize.toNat := by
    apply if_pos
    intro hzero
    rw [hzero] at hlastack
    exact absurd hlastack.symm (Nat.succ_ne_zero n)
  have hblock : t'.block = t.block := by
    rw [ht']
    rfl
  refine ⟨?_, h.keeps, ?_, ?_, ?_, ?_, ?_, h.sent_le_last, ?_, ?_, ?_⟩
  · rw [ht']
    exact ⟨h.settings.netascii, h.settings.blocksize, h.settings.windowsize⟩
  · rw [ht']
    exact h.cached
  · rw [ht']
    rfl
  · omega
  · intro m hm
    have hlt := h.sent_lt m hm
    have hle' := widthFrom_le ho.window_pos t.lastack
    omega
  · rw [hblock]
    exact h.sent_le_block
  · right
    right
    omega
  · omega
  · omega

/-- **An acknowledgement**, for a block that was sent and is not far behind. -/
theorem ack (now : Instant) (hsteady : f.Steady) (hdata : ackLow data = some (UInt16.ofNat n)) :
    TurnSpec t₀ f₀ sent (fun m => acked m ∨ m = n) (processTransferPacket t f data now) := by
  have hacked := h.toNat_ackedBlock_eq ho hsent hnear
  unfold processTransferPacket
  rw [handleTftpPacket_ack hdata]
  unfold handleAck
  extract_lets t₁ block t₂ t₃
  by_cases hle : t.lastack.toNat ≤ n
  · -- what was sent before is not past the next block
    have haccept : block ≥ t₁.lastack ∧ block ≤ t₁.block := by
      show t.lastack.toNat ≤ t₁.ackedBlock.toNat ∧ t₁.ackedBlock.toNat ≤ t.block.toNat
      rw [hacked]
      exact ⟨hle, h.sent_le_block n hsent⟩
    have hmode : t₃ = t₂ := by
      apply if_neg
      rintro ⟨hnetascii, -⟩
      exact absurd ((h.octet ho).mode.symm.trans hnetascii) (by decide)
    rw [if_pos haccept, hmode]
    exact (h.advance ho hsent hnear hle rfl).resend ho hsteady
  · rw [if_neg (fun haccept => hle ?_)]
    · have hstale := h.stale ho hsent hnear (Nat.lt_of_not_le hle)
      refine silent nofun fun _ => { hstale with acked_last := hstale.acked_last.imp_right Or.inl }
    · have := UInt32.le_iff_toNat_le.mp haccept.1
      rw [show block.toNat = n from hacked] at this
      exact this

end Ack

end Track

end DnsmasqRs.Tftp
