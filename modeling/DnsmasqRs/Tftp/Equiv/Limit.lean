import DnsmasqRs.Lib.Indexed
import DnsmasqRs.Tftp.Runtime

/-!
# The number of transfers

A request is turned away where the table has `effective_max` transfers, and nothing else adds to it,
so it never has more (`length_transfers_le`).
-/

namespace DnsmasqRs.Tftp

open AList Wire

variable {rt : TftpRuntime} {id : ℕ} {t : TftpTransfer} {config : TftpConfig}

theorem length_put (h : rt.transfers.lookup id = some t) (turn : Turn) :
    (rt.put id turn).transfers.entries.length = rt.transfers.entries.length :=
  length_insert_of_mem (lookup_isSome.mp (by rw [h]; rfl))

theorem length_packetTurn_le (h : rt.transfers.lookup id = some t) (data : Bytes) (now : Instant) :
    (packetTurn rt id t data now).1.transfers.entries.length ≤ rt.transfers.entries.length := by
  unfold packetTurn
  dsimp only
  split
  · exact length_erase_le.trans (length_put h _).le
  · exact (length_put h _).le

theorem length_sweepEach (now : Instant) (ids : List ℕ) (rt : TftpRuntime) :
    (sweepEach now ids rt).1.transfers.entries.length = rt.transfers.entries.length := by
  induction ids generalizing rt with
  | nil => rfl
  | cons id ids ih =>
    unfold sweepEach
    split
    · exact ih rt
    · next t hsome => exact (ih _).trans (length_put hsome _)

theorem length_removeEnded_le (ended : List (ℕ × EndCause × Bool × Bool)) (rt : TftpRuntime) :
    (removeEnded ended rt).1.transfers.entries.length ≤ rt.transfers.entries.length := by
  induction ended generalizing rt with
  | nil => exact le_rfl
  | cons e ended ih =>
    unfold removeEnded
    split
    · exact ih rt
    · exact (ih _).trans length_erase_le

theorem length_startTransfer_le (a : Arrival) (netascii : Bool) (opts : RequestOptions)
    (opened : Opened) :
    (startTransfer rt a netascii opts opened).1.transfers.entries.length
      ≤ rt.transfers.entries.length + 1 := by
  have hhold : (rt.hold opened).2.transfers = rt.transfers := by
    cases opened <;> rfl
  have hinsert :
      ∀ id t, ((rt.hold opened).2.transfers.insert id t).entries.length
        ≤ rt.transfers.entries.length + 1 := by
    intro id t
    rw [hhold, length_insert]
    exact Nat.succ_le_succ length_erase_le
  unfold startTransfer
  dsimp only
  split
  · exact hhold ▸ Nat.le_succ _
  · exact hinsert _ _
  · exact hinsert _ _
  · exact hhold ▸ Nat.le_succ _

/-- The table is within its limit. -/
def Within (config : TftpConfig) (rt : TftpRuntime) : Prop :=
  (rt.transfers.entries.length : Int) ≤ effectiveMax config

theorem Within.of_le (h : Within config rt)
    (hle : rt'.transfers.entries.length ≤ rt.transfers.entries.length) :
    Within config rt' :=
  (Int.ofNat_le.mpr hle).trans h

theorem Within.handleNewRequest (h : Within config rt) (a : Arrival) (data : Bytes) :
    Within config (handleNewRequest config rt a data).1 := by
  have hstays {c : Prop} [Decidable c] {out : List Output} {r : TftpRuntime × List Output}
    (hr : Within config r.1) :
      Within config (if c then (rt, out) else r).1 :=
    iteInduction (motive := fun r : TftpRuntime × List Output => Within config r.1) (fun _ =>
      h) fun _ => hr
  iterate 4 apply hstays
  cases parseRrq data with
  | none => exact h
  | some request =>
    iterate 3 apply hstays
    extract_lets opts namebuff shared
    cases openTftpFile a.disk namebuff config.pfx.isSome config.secure shared with
    | error e => cases e <;> exact h
    | ok opened =>
      dsimp only
      split
      · exact h
      · next hroom =>
        refine (Int.ofNat_le.mpr (length_startTransfer_le a _ opts opened)).trans ?_
        omega

/-- **One round of the loop**. -/
theorem Within.loopStep (h : Within config rt) (ev : LoopEvent) :
    Within config (loopStep config rt ev).1 := by
  cases ev with
  | listener a data =>
    show Within config (handleListenerDatagram config rt a data).1
    unfold handleListenerDatagram
    split
    · split
      · next id hpeer =>
        split
        · exact (h.of_le length_erase_le).handleNewRequest a data
        · split
          · next t hlookup => exact h.of_le (length_packetTurn_le hlookup data a.now)
          · exact h
      · split
        · exact h
        · exact h.handleNewRequest a data
    · exact h.handleNewRequest a data
  | transfer id peer peerText data now =>
    show Within config (handleTransferDatagram rt id peer peerText data now).1
    unfold handleTransferDatagram
    split
    · exact h
    · next t hlookup =>
      split
      · exact h
      · exact h.of_le (length_packetTurn_le hlookup data now)
  | sweep now order =>
    exact h.of_le ((length_removeEnded_le _ _).trans (length_sweepEach now order rt).le)

/-- **The number of transfers is limited**, whatever arrives in whatever order. -/
theorem length_transfers_le (config : TftpConfig) (evs : List LoopEvent) :
    ((evs.foldl (fun rt ev => (loopStep config rt ev).1) .new).transfers.entries.length : Int)
      ≤ effectiveMax config := by
  refine List.foldlRecOn (motive := Within config) evs _ ?_ fun rt h ev _ => h.loopStep ev
  show (0 : Int) ≤ effectiveMax config
  unfold effectiveMax tftpMaxConnectionsDefault
  split <;> omega

end DnsmasqRs.Tftp
