import DnsmasqRs.Tftp.Runtime
import DnsmasqRs.Tftp.Equiv.Transfer

/-!
# Acknowledgements and transmissions

An acknowledgement is accepted up to `block`, and after a window that is the block that comes next.
All blocks below it have been sent (`behind_of_live`), so only an acknowledgement of the next block
itself can run ahead of the transmissions (`sent_of_ackAdvance_iff`).
-/

namespace DnsmasqRs.Tftp

open Utf8 Wire List Option

/-- The numbers of the blocks that were sent. -/
def blocksOf (packets : List Sent) : List UInt32 :=
  packets.filterMap fun
    | .block n _ => some n
    | .error _ => none

/-- A transfer after packets of its client and sweeps, whatever its file was then, and the blocks it
has sent. -/
inductive Live : List UInt32 → TftpTransfer → Prop where
  | start (h : (startTransfer rt a netascii opts opened).2
      = [.started i t f, .sent i (.block n pkt)]) : Live [n] t
  | packet (h : Live sent t) (hturn : processTransferPacket t f data now = turn) :
      Live (sent ++ blocksOf turn.sent) turn.transfer
  | sweep (h : Live sent t) (hturn : (sweepTransfer now t f).1 = turn) :
      Live (sent ++ blocksOf turn.sent) turn.transfer

variable {sent : List UInt32} {t : TftpTransfer}

/-- The blocks from the last acknowledged one to the next one have been sent. -/
def Behind (sent : List UInt32) (t : TftpTransfer) : Prop :=
  ∀ n, t.lastack ≤ n → n < t.block → n ∈ sent

theorem Behind.append (h : Behind sent t) (more : List UInt32) : Behind (sent ++ more) t :=
  fun n hle hlt => mem_append_left _ (h n hle hlt)

theorem Behind.reread (h : Behind sent t) (hread : Reread t t') : Behind sent t' := by
  obtain ⟨_, _, _, _, rfl⟩ := hread
  exact h

theorem Behind.next (h : Behind sent t) :
    Behind (sent ++ [t.block]) { t with block := t.block + 1 } := by
  intro n hle hlt
  by_cases hn : n = t.block
  · exact mem_append_right _ (mem_singleton.mpr hn)
  · have hlt' : n < t.block := by
      have hmax := t.block.toNat_lt
      rw [← UInt32.toNat_inj] at hn
      rw [UInt32.lt_iff_toNat_lt] at hlt ⊢
      rw [UInt32.toNat_add, UInt32.toNat_one] at hlt
      omega
    exact mem_append_left _ (h n hle hlt')

theorem Behind.afterSending {turn : Turn}
    (h : Behind (sent ++ [n] ++ blocksOf turn.sent) turn.transfer) :
    Behind (sent ++ blocksOf (turn.afterSending (.block n pkt)).sent) turn.transfer := by
  rw [append_assoc] at h
  exact h

theorem Behind.sendBlocks (h : Behind sent t) (k : ℕ) (first : Bool) (f : TftpFile) :
    Behind (sent ++ blocksOf (sendBlocks k first t f).sent) (sendBlocks k first t f).transfer := by
  induction k generalizing sent first t f with
  | zero => exact h.append _
  | succ k ih =>
    unfold Tftp.sendBlocks
    split
    all_goals
      rename_i hget
      have hread := h.reread (keeps_of_getBlock hget).1
    · exact hread.append _
    · exact (ih hread.next false _).afterSending
    · exact (ih hread.next false _).afterSending
    · exact hread.append _

theorem behind_resend (t : TftpTransfer) (f : TftpFile) :
    Behind (blocksOf (resend t f).sent) (resend t f).transfer := by
  unfold resend
  extract_lets t₁ turn
  have hwindow : Behind (blocksOf turn.sent) turn.transfer := by
    have hnone : Behind [] { t₁ with block := t.lastack } :=
      fun n hle hlt => absurd hle (UInt32.not_le.mpr hlt)
    exact hnone.sendBlocks _ _ f
  split
  · exact hwindow
  · exact hwindow.reread (getBlock_keeps turn.transfer turn.file).1

/-- An acknowledgement is accepted from the last one on, up to the next block. -/
theorem handleAck_cases (t : TftpTransfer) (new : UInt16) (now : Instant) :
    let block := (widenAck t new).ackedBlock
    (t.lastack ≤ block ∧ block ≤ t.block
      ∧ ∃ t', handleAck t new now = (.ackAdvance (block + 1), t'))
      ∨ ¬(t.lastack ≤ block ∧ block ≤ t.block)
      ∧ handleAck t new now = (.ackIgnored, widenAck t new) := by
  intro block
  unfold handleAck
  by_cases h : t.lastack ≤ block ∧ block ≤ t.block
  · refine .inl ⟨h.1, h.2, _, (if_pos h).trans (Prod.ext (congrArg _ ?_) rfl)⟩
    dsimp only
    split <;> rfl
  · exact .inr ⟨h, if_neg h⟩

theorem behind_of_live (h : Live sent t) : Behind sent t := by
  induction h with
  | start h =>
    unfold startTransfer at h
    dsimp only at h
    split at h
    case h_1 | h_4 => cases h
    all_goals
      obtain ⟨_, _, _, _, rfl⟩ := (keeps_of_getBlock ‹_›).1
      cases h
      exact fun n hle hlt => absurd hle (UInt32.not_le.mpr hlt)
  | @packet sent t f data now turn _ hturn ih =>
    subst hturn
    unfold processTransferPacket
    cases hlow : ackLow data with
    | none =>
      obtain ⟨code, heq⟩ | heq := handleTftpPacket_of_ackLow_eq_none hlow
      all_goals
        rw [heq]
        exact ih.append _
    | some low =>
      rw [handleTftpPacket_ack hlow]
      obtain ⟨-, -, t', heq⟩ | ⟨-, heq⟩ := handleAck_cases t low now
      · rw [heq]
        exact fun n hle hlt => mem_append_right _ (behind_resend t' f n hle hlt)
      · rw [heq]
        exact ih.append _
  | @sweep sent t now f turn _ hturn ih =>
    subst hturn
    unfold sweepTransfer
    split
    · exact ih.append _
    · split
      · have hread := ih.reread (getBlock_keeps t f).1
        split
        all_goals
          rename_i hget
          rw [hget] at hread
          exact hread.append _
      · split
        · exact fun n hle hlt => mem_append_right _ (behind_resend t f n hle hlt)
        · exact ih.append _

/-- The packet acknowledges the block that comes next, which was not sent. -/
def AcksAhead (sent : List UInt32) (t : TftpTransfer) (data : Bytes) : Prop :=
  (ackLow data).map (fun low => (widenAck t low).ackedBlock) = some t.block ∧ t.lastack ≤ t.block
    ∧ t.block ∉ sent

/-- **Acknowledgements run behind transmissions** unless one is for the block that comes next. -/
theorem sent_of_ackAdvance_iff (h : Live sent t) (data : Bytes) (now : Instant) :
    (∀ lastack, (handleTftpPacket t data now).1 = .ackAdvance lastack → lastack - 1 ∈ sent) ↔
      ¬AcksAhead sent t data := by
  unfold AcksAhead
  cases hlow : ackLow data with
  | none =>
    refine iff_of_true (fun lastack hadvance => ?_) nofun
    obtain ⟨code, heq⟩ | heq := handleTftpPacket_of_ackLow_eq_none hlow
    all_goals
      rw [heq] at hadvance
      cases hadvance
  | some low =>
    rw [handleTftpPacket_ack hlow, map_some, some.injEq]
    obtain ⟨hle, hge, t', heq⟩ | ⟨hignored, heq⟩ := handleAck_cases t low now
    · rw [heq]
      constructor
      · rintro hsent ⟨hnext, -, hunsent⟩
        have hacked := hsent _ rfl
        rw [UInt32.add_sub_cancel, hnext] at hacked
        exact hunsent hacked
      · intro hbehind lastack hadvance
        obtain rfl := TftpHandleResult.ackAdvance.inj hadvance
        rw [UInt32.add_sub_cancel]
        by_cases hnext : (widenAck t low).ackedBlock = t.block
        · by_contra hunsent
          rw [hnext] at hle hunsent
          exact hbehind ⟨hnext, hle, hunsent⟩
        · exact behind_of_live h _ hle (UInt32.lt_of_le_of_ne hge hnext)
    · rw [heq]
      refine iff_of_true nofun ?_
      rintro ⟨hnext, hle, -⟩
      exact hignored ⟨hnext ▸ hle, hnext ▸ UInt32.le_refl _⟩

/-- A transfer in blocks of eight bytes, after its OACK. -/
def sampleFile : TftpFile :=
  { (default : TftpFile) with file := ⟨replicate 9 0, 0, none⟩, size := 9 }
def sampleTransfer : TftpTransfer :=
  (getBlock (newTransfer ⟨.v4 .unspecified, 69⟩ 0 false { blocksize := 8, optBlocksize := true } 0)
    sampleFile).2.1

theorem live_sampleTransfer : Live [0] sampleTransfer :=
  .start (show (startTransfer ⟨∅, 1, fun _ => sampleFile, 1⟩
      ⟨⟨.v4 .unspecified, 69⟩, [], none, none, true,
    ⟨fun _ => false, fun _ => .error ⟨.other, []⟩, 0⟩, 0⟩ false
      { blocksize := 8, optBlocksize := true } (.existing 0)).2
      = [_, _] from rfl)

theorem sent_of_ackAdvance_iff_oack : Live [0] sampleTransfer ∧
    ((∀ lastack, (handleTftpPacket sampleTransfer [0, 4, 0, 0] 0).1 = .ackAdvance lastack →
      lastack - 1 ∈ [0])
      ↔ ¬AcksAhead [0] sampleTransfer [0, 4, 0, 0]) :=
  ⟨live_sampleTransfer, sent_of_ackAdvance_iff live_sampleTransfer _ _⟩

/-- The OACK and block 1 are sent, and block 2 is acknowledged. -/
theorem ackAdvance_unsent :
    ∃ t, Live [0, 1] t ∧ (handleTftpPacket t [0, 4, 0, 2] 0).1 = .ackAdvance 3 :=
  ⟨_, live_sampleTransfer.packet (show processTransferPacket _ sampleFile [0, 4, 0, 0] 0
    = _ from rfl), by decide +kernel⟩

end DnsmasqRs.Tftp
