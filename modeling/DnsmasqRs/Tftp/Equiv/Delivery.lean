import DnsmasqRs.Tftp.Equiv.History
import DnsmasqRs.Lib.Run

/-!
# TFTP delivers the file

For one transfer we ask that what its client acknowledges is a block that was sent to it, not more
than 16000 behind the highest one it has acknowledged (`AckAdmissible`).  Then whatever the other
transfers do, every packet with data that is sent to the client has the bytes of its block, every
acknowledgement is read as the number that was meant, and the transfer is finished only after its
last block was acknowledged (`delivered_of_reaches`).

The invariant (`Inv`) is kept by what is not about the transfer (`Inv.frame`), by its own turns, and
by each round of the loop (`Inv.step`).
-/

open Utf8 Wire List Option

namespace DnsmasqRs.Tftp

/-! ### The invariant -/

/-- What holds of the system all along, for one transfer. -/
structure Inv (id : ℕ) (rt : TftpRuntime) (log : List Entry) : Prop where
  table : TableOk rt
  fresh : ∀ e ∈ log, ∀ i, e.about = some i → i < rt.nextId
  follows : Follows id (history id log) (rt.session id)

namespace Inv

variable {id i : ℕ} {rt rt' : TftpRuntime} {log entries : List Entry} {t : TftpTransfer}
  {turn : Turn}

/-- Lines about transfers that are in the table, or were. -/
theorem fresh_append (hfresh : ∀ e ∈ log, ∀ i, e.about = some i → i < rt.nextId)
    (hid : rt.nextId ≤ rt'.nextId)
    (hentries : ∀ e ∈ entries, ∀ i, e.about = some i → i < rt'.nextId) :
    ∀ e ∈ log ++ entries, ∀ i, e.about = some i → i < rt'.nextId := by
  intro e he j hj
  obtain he | he := mem_append.mp he
  · exact (hfresh e he j hj).trans_le hid
  · exact hentries e he j hj

/-- **The frame rule**: something happened that is not about the transfer. -/
theorem frame (h : Inv id rt log) (htable : TableOk rt') (hid : rt.nextId ≤ rt'.nextId)
    (hentries : ∀ e ∈ entries, ∀ i, e.about = some i → i < rt'.nextId ∧ i ≠ id)
    (hsession : SameSession (rt.session id) (rt'.session id)) : Inv id rt' (log ++ entries) where
  table := htable
  fresh := fresh_append h.fresh hid fun e he i hi => (hentries e he i hi).1
  follows := by
    rw [history_append, history_of_forall_not_about fun e he hi => (hentries e he id hi).2 rfl,
      append_nil]
    exact h.follows.same hsession

/-- Something happened to another transfer. -/
theorem other (h : Inv id rt log) (htable : TableOk rt') (hid : rt.nextId ≤ rt'.nextId)
    (hne : i ≠ id) (hknown : i < rt'.nextId) (habout : ∀ e ∈ entries, e.about = some i)
    (hsession : SameSession (rt.session id) (rt'.session id)) : Inv id rt' (log ++ entries) := by
  apply h.frame htable hid _ hsession
  intro e he j hj
  obtain rfl := some.inj ((habout e he).symm.trans hj)
  exact ⟨hknown, hne⟩

/-- Something happened to the transfer itself. -/
theorem self (hfresh : ∀ e ∈ log, ∀ i, e.about = some i → i < rt.nextId) (htable : TableOk rt')
    (hid : rt.nextId ≤ rt'.nextId) (hknown : id < rt'.nextId)
    (habout : ∀ e ∈ entries, e.about = some id)
    (hfollows : Follows id (history id log ++ entries) (rt'.session id)) :
    Inv id rt' (log ++ entries) where
  table := htable
  fresh := by
    apply fresh_append hfresh hid
    intro e he j hj
    obtain rfl := some.inj ((habout e he).symm.trans hj)
    exact hknown
  follows := by
    rw [history_append, history_of_forall_about habout]
    exact hfollows

theorem about_sentEntries (he : e ∈ sentEntries i turn) : e.about = some i := by
  obtain ⟨s, -, rfl⟩ := mem_sentEntries.mp he
  rfl

/-- A turn of another transfer. -/
theorem put_other (h : Inv id rt log) (hne : i ≠ id) (hlookup : rt.transfers.lookup i = some t)
    (hturn : TurnKeeps t (rt.files t.file) turn) :
    Inv id (rt.put i turn) (log ++ sentEntries i turn) :=
  h.other (h.table.put hlookup hturn) le_rfl hne (h.table.known i t hlookup).1 (fun _ =>
    about_sentEntries) (sameSession_put hne.symm hturn)

section Self

variable (htable : TableOk rt) (hfresh : ∀ e ∈ log, ∀ i, e.about = some i → i < rt.nextId)
  (hlookup : rt.transfers.lookup id = some t) (hturn : TurnKeeps t (rt.files t.file) turn)
  (hfollows : TurnFollows id (history id log) turn)
include htable hfresh hlookup hturn hfollows

/-- A turn of the transfer itself. -/
theorem put_self (hcause : ∀ t₀ f₀, .out (.started id t₀ f₀) ∈ history id log →
      OctetTransfer t₀ f₀ →
    turn.endcon ≠ some .errorPacket) : Inv id (rt.put id turn) (log ++ sentEntries id turn) := by
  apply self hfresh (htable.put hlookup hturn) le_rfl (htable.known id t hlookup).1 fun _ =>
    about_sentEntries
  rw [session_put_self]
  exact hfollows.follows hcause

/-- The last turn of the transfer. -/
theorem put_remove_self : Inv id ((rt.put id turn).remove id) (log ++ sentEntries id turn) := by
  apply self hfresh ((htable.put hlookup hturn).remove id) le_rfl (htable.known id t hlookup).1
    fun _ => about_sentEntries
  rw [session_remove_self]
  exact hfollows.follows_none

end Self

theorem remove (h : Inv id rt log) (i : ℕ) : Inv id (rt.remove i) log where
  table := h.table.remove i
  fresh := h.fresh
  follows := by
    by_cases heq : id = i
    · subst heq
      rw [session_remove_self]
      exact h.follows.same (sameSession_none)
    · rw [session_remove_of_ne heq]
      exact h.follows

/-- The line for a transfer that was removed. -/
theorem gone (h : Inv id rt log) (hknown : i < rt.nextId) (habout : o.about = some i)
    (hgone : i = id → rt.session id = none ∧ LastLine id (history id log) o) :
    Inv id rt (log ++ [.out o]) := by
  have habout : ∀ e ∈ [Entry.out o], e.about = some i := forall_mem_singleton.mpr habout
  by_cases heq : i = id
  · subst heq
    apply self h.fresh h.table le_rfl hknown habout
    rw [(hgone rfl).1]
    exact h.follows.gone (hgone rfl).2
  · exact h.other h.table le_rfl heq hknown habout (SameSession.of_eq rfl)

end Inv

/-! ### Packets -/

section Packets

variable {id i : ℕ} {rt : TftpRuntime} {log : List Entry} {t : TftpTransfer}

theorem Inv.packetTurn_other (h : Inv id rt log) (hne : i ≠ id)
    (hlookup : rt.transfers.lookup i = some t) (data : Bytes) (now : Instant) :
    Inv id (packetTurn rt i t data now).1 (log ++ (packetTurn rt i t data now).2.map .out) := by
  have hturn := turnKeeps_processTransferPacket t (rt.files t.file) data now
  have hput := h.put_other hne hlookup hturn
  unfold packetTurn
  extract_lets turn
  split
  · rw [map_append, ← append_assoc]
    exact (hput.remove i).gone (h.table.known i t hlookup).1 rfl fun heq => absurd heq hne
  · exact hput

variable {data : Bytes} {now : Instant}

theorem Inv.packetTurn_self (htable : TableOk rt)
    (hfresh : ∀ e ∈ log, ∀ i, e.about = some i → i < rt.nextId)
    (hlookup : rt.transfers.lookup id = some t)
    (hfollows : TurnFollows id (history id log)
      (processTransferPacket t (rt.files t.file) data now)) :
    Inv id (packetTurn rt id t data now).1 (log ++ (packetTurn rt id t data now).2.map .out) := by
  have hturn := turnKeeps_processTransferPacket t (rt.files t.file) data now
  unfold packetTurn
  extract_lets turn
  split
  · rename_i cause hcause
    rw [map_append, ← append_assoc]
    refine (Inv.put_remove_self htable hfresh hlookup hturn hfollows).gone
      (htable.known id t hlookup).1 rfl fun _ => ?_
    refine ⟨session_remove_self, ?_⟩
    rw [history_append, history_of_forall_about fun e he => Inv.about_sentEntries he]
    exact hfollows.endOk hcause
  · rename_i hcause
    refine Inv.put_self htable hfresh hlookup hturn hfollows fun _ _ _ _ => ?_
    rw [hcause]
    nofun

end Packets

/-! ### Sweeps -/

section Sweeps

variable {id : ℕ} {rt : TftpRuntime} {log : List Entry}

theorem EndOk.append {h entries : List Entry} (hend : EndOk id h cause)
    (hno : ∀ t f, .out (.started id t f) ∉ entries) : EndOk id (h ++ entries) cause := by
  intro t₀ f₀ hstarted ho
  obtain hmem | hmem := mem_append.mp hstarted
  · exact (hend t₀ f₀ hmem ho).imp_right (Or.imp_right fun hacked => hacked.append entries)
  · exact absurd hmem (hno t₀ f₀)

theorem sweepEach_nil : sweepEach now [] rt = (rt, [], []) := rfl

theorem sweepEach_none {i : ℕ} (h : rt.transfers.lookup i = none) :
    sweepEach now (i :: ids) rt = sweepEach now ids rt := by
  rw [sweepEach, h]

variable {t : TftpTransfer}

theorem sweepEach_some {i : ℕ} {turn : Turn}
    (h : rt.transfers.lookup i = some t)
    (hturn : sweepTransfer now t (rt.files t.file) = (turn, timeout)) :
    sweepEach now (i :: ids) rt = ((sweepEach now ids (rt.put i turn)).1,
        turn.sent.map (.sent i) ++ (sweepEach now ids (rt.put i turn)).2.1,
        (turn.endcon.map fun cause => (i, cause, timeout, turn.error)).toList ++
          (sweepEach now ids (rt.put i turn)).2.2) := by
  rw [sweepEach, h]
  simp only [hturn]

theorem sweepEach_out (now : Instant) (ids : List ℕ) (rt : TftpRuntime) :
    ∀ o ∈ (sweepEach now ids rt).2.1, ∃ i s, o = .sent i s := by
  induction ids generalizing rt with
  | nil =>
    intro o ho
    cases ho
  | cons i ids ih =>
    cases hlookup : rt.transfers.lookup i with
    | none =>
      rw [sweepEach_none hlookup]
      exact ih rt
    | some t =>
      intro o ho
      rw [sweepEach_some hlookup rfl] at ho
      obtain ho | ho := mem_append.mp ho
      · obtain ⟨s, -, rfl⟩ := mem_map.mp ho
        exact ⟨i, s, rfl⟩
      · exact ih _ o ho

theorem not_started_of_sent {out : List Output} (h : ∀ o ∈ out, ∃ i s, o = .sent i s)
    (t : TftpTransfer) (f : TftpFile) :
    Entry.out (.started id t f) ∉ history id (out.map .out) := by
  intro hmem
  obtain ⟨o, ho, heq⟩ := mem_map.mp (mem_history.mp hmem).1
  obtain ⟨i, s, rfl⟩ := h o ho
  cases heq

/-- **The first phase of a sweep**, and the transfers it says have ended. -/
theorem Inv.sweepEach (now : Instant) (ids : List ℕ) (h : Inv id rt log) :
    Inv id (sweepEach now ids rt).1 (log ++ (sweepEach now ids rt).2.1.map .out) ∧
      ∀ cause timeout error, (id, cause, timeout, error) ∈ (sweepEach now ids rt).2.2 →
        EndOk id (history id (log ++ (sweepEach now ids rt).2.1.map .out)) cause := by
  induction ids generalizing rt log with
  | nil =>
    rw [sweepEach_nil]
    refine ⟨?_, nofun⟩
    rw [map_nil, append_nil]
    exact h
  | cons i ids ih =>
    cases hlookup : rt.transfers.lookup i with
    | none =>
      rw [sweepEach_none hlookup]
      exact ih h
    | some t =>
      obtain ⟨turn, timeout, hsweep⟩ : ∃ turn timeout, sweepTransfer now t (rt.files t.file)
        = (turn, timeout) :=
        ⟨_, _, rfl⟩
      have hturn : TurnKeeps t (rt.files t.file) turn := by
        have := turnKeeps_sweepTransfer now t (rt.files t.file)
        rw [hsweep] at this
        exact this
      rw [sweepEach_some hlookup hsweep]
      -- one turn, and then the rest
      have hone : Inv id (rt.put i turn) (log ++ sentEntries i turn) ∧
          ∀ cause, i = id → turn.endcon = some cause →
            EndOk id (history id (log ++ sentEntries i turn)) cause := by
        by_cases heq : i = id
        · subst heq
          have hf := h.follows
          rw [session_of_lookup hlookup] at hf
          have hfollows := hf.sweep now (h.table.steady t.file)
          rw [hsweep] at hfollows
          refine ⟨Inv.put_self h.table h.fresh hlookup hturn hfollows ?_, ?_⟩
          · intro t₀ f₀ hstarted ho
            have hne := ((hf t₀ f₀ hstarted ho).2 _ _ rfl).sweep_endcon_ne now
            rw [hsweep] at hne
            exact hne
          · intro cause _ hcause
            rw [history_append, history_of_forall_about fun e he => Inv.about_sentEntries he]
            exact hfollows.endOk hcause
        · exact ⟨h.put_other heq hlookup hturn, fun _ heq' => absurd heq' heq⟩
      obtain ⟨hinv, hends⟩ := ih hone.1
      have hlog :
          log ++ (turn.sent.map (Output.sent i) ++ (sweepEach now ids (rt.put i turn)).2.1).map .out
            =
          log ++ sentEntries i turn ++ (sweepEach now ids (rt.put i turn)).2.1.map .out := by
        rw [map_append, ← append_assoc]
        rfl
      rw [hlog]
      refine ⟨hinv, fun cause tm error hmem => ?_⟩
      obtain hmem | hmem := mem_append.mp hmem
      · obtain ⟨cause', hcause, heq⟩ := map_eq_some_iff.mp (mem_toList.mp hmem)
        cases heq
        rw [history_append]
        exact (hone.2 cause rfl hcause).append (not_started_of_sent (sweepEach_out now ids _))
      · exact hends cause tm error hmem

/-- **The second phase of a sweep**. -/
theorem Inv.removeEnded (h : Inv id rt log)
    (hend : ∀ cause timeout error, (id, cause, timeout, error) ∈ ended →
      EndOk id (history id log) cause) :
    Inv id (removeEnded ended rt).1 (log ++ (removeEnded ended rt).2.map .out) := by
  induction ended generalizing rt log with
  | nil =>
    show Inv id rt (log ++ [])
    rw [append_nil]
    exact h
  | cons e ended ih =>
    obtain ⟨i, cause, timeout, error⟩ := e
    have hrest : ∀ cause timeout error, (id, cause, timeout, error) ∈ ended →
      EndOk id (history id log) cause :=
      fun cause timeout error hmem => hend cause timeout error (mem_cons_of_mem _ hmem)
    cases hlookup : rt.transfers.lookup i with
    | none =>
      have hskip :
          Tftp.removeEnded ((i, cause, timeout, error) :: ended) rt
            = Tftp.removeEnded ended rt := by
        rw [Tftp.removeEnded, hlookup]
      rw [hskip]
      exact ih h hrest
    | some t =>
      have hstep : Tftp.removeEnded ((i, cause, timeout, error) :: ended) rt =
          ((Tftp.removeEnded ended (rt.remove i)).1,
            .ended i cause timeout error :: (Tftp.removeEnded ended (rt.remove i)).2) := by
        rw [Tftp.removeEnded, hlookup]
      have hone : Inv id (rt.remove i) (log ++ [.out (.ended i cause timeout error)]) := by
        refine (h.remove i).gone (h.table.known i t hlookup).1 rfl fun heq => ?_
        subst heq
        exact ⟨session_remove_self, hend cause timeout error mem_cons_self⟩
      have hno : ∀ t f, .out (.started id t f) ∉ history id
        [Entry.out (.ended i cause timeout error)] := by
        intro t f hmem
        cases mem_singleton.mp (mem_history.mp hmem).1
      have := ih hone fun cause timeout error hmem => by
        rw [history_append]
        exact (hrest cause timeout error hmem).append hno
      rw [hstep, map_cons, append_cons]
      exact this

/-- **A sweep**. -/
theorem Inv.sweepTransfers (now : Instant) (order : List ℕ) (h : Inv id rt log) :
    Inv id (sweepTransfers rt now order).1 (log ++ (sweepTransfers rt now order).2.map .out) := by
  obtain ⟨hinv, hend⟩ := h.sweepEach now order
  have := hinv.removeEnded hend
  rw [append_assoc, ← map_append] at this
  exact this

end Sweeps

/-! ### Requests -/

section Requests

variable {id : ℕ} {rt : TftpRuntime} {log : List Entry}

/-- A file that an answer to a request refers to is one that is held. -/
def HeldBy (rt : TftpRuntime) : Opened → Prop
  | .existing ref => ref < rt.nextFile
  | .fresh f => f.Steady

theorem TableOk.hold (h : TableOk rt) (hheld : HeldBy rt opened) :
    TableOk (rt.hold opened).2 ∧ (rt.hold opened).1 < (rt.hold opened).2.nextFile ∧
      (rt.hold opened).2.nextId = rt.nextId
        ∧ ∀ id, (rt.hold opened).2.session id = rt.session id := by
  cases opened with
  | existing ref => exact ⟨h, hheld, rfl, fun _ => rfl⟩
  | fresh f =>
    have hfile : ∀ ref, ref < rt.nextFile →
      Function.update rt.files rt.nextFile f ref = rt.files ref :=
      fun ref hlt => Function.update_of_ne hlt.ne _ _
    refine ⟨⟨?_, ?_⟩, Nat.lt_succ_self _, rfl, ?_⟩
    · intro ref
      show TftpFile.Steady (Function.update rt.files rt.nextFile f ref)
      by_cases heq : ref = rt.nextFile
      · rw [heq, Function.update_self]
        exact hheld
      · rw [Function.update_of_ne heq]
        exact h.steady ref
    · intro i t hlookup
      obtain ⟨hid, hlt⟩ := h.known i t hlookup
      exact ⟨hid, hlt.trans (Nat.lt_succ_self _)⟩
    · intro id
      unfold TftpRuntime.session
      show (rt.transfers.lookup id).map (fun t =>
        (t, Function.update rt.files rt.nextFile f t.file)) = _
      cases hlookup : rt.transfers.lookup id with
      | none => rfl
      | some t =>
        rw [map_some, map_some, hfile t.file (h.known id t hlookup).2]

theorem TableOk.look {ref : FileRef} {f : TftpFile} (h : TableOk rt)
    (hkeeps : Keeps (rt.files ref) f) :
    TableOk { rt with files := Function.update rt.files ref f } where
  steady := fun ref' => (keeps_update hkeeps ref').steady (h.steady ref')
  known := h.known

theorem sameSession_look {ref : FileRef} {f : TftpFile} (hkeeps : Keeps (rt.files ref) f) :
    SameSession (rt.session id) (TftpRuntime.session { rt with
      files := Function.update rt.files ref f } id) := by
  intro t f' hs'
  obtain ⟨t', hlookup, heq⟩ := map_eq_some_iff.mp hs'
  obtain ⟨rfl, rfl⟩ := Prod.mk.inj heq
  exact ⟨rt.files t'.file, session_of_lookup hlookup, keeps_update hkeeps _⟩

section Start

variable {peer : SocketAddr} {ref : FileRef} {netascii : Bool} {opts : RequestOptions}
  {now : Instant}
  {res : Except IoError GetBlockResult} {t : TftpTransfer} {f f' : TftpFile}

/-- A transfer begins at block 1, or at 0 if there are options to acknowledge. -/
theorem newTransfer_block : (newTransfer peer ref netascii opts now).block.toNat ≤ 1 := by
  show (if _ then _ else _ : UInt32).toNat ≤ 1
  split <;> decide

section

variable (hget : getBlock (newTransfer peer ref netascii opts now) f = (res, t, f'))
include hget

/-- **A new transfer is on track**: its first packet is all that was sent. -/
theorem track_newTransfer
    (hsteady : f.Steady) (ho : OctetTransfer t f') :
    Track t f' (fun n => n = t.block.toNat) (fun _ => False) t f' := by
  obtain ⟨hreread, hkeeps⟩ := keeps_of_getBlock hget
  have hcached := cached_getBlock (hreread.advanced.octet_of hkeeps ho.toOctet) nofun hsteady
  rw [hget] at hcached
  have hblock : t.block.toNat ≤ 1 := by
    rw [hreread.block_eq]
    exact newTransfer_block
  obtain ⟨hlastack, hhigh, hprev, halive⟩ :
      t.lastack = t.block ∧ t.blockHi = 0 ∧ t.ackprev = 0 ∧ t.start = some now := by
    obtain ⟨_, _, _, _, rfl⟩ := hreread
    exact ⟨rfl, rfl, rfl, rfl⟩
  have hnumber : t.ackNumber = 0 := by
    rw [TftpTransfer.ackNumber, hhigh, hprev]
    rfl
  have hlast := one_le_lastBlock t f'
  refine ⟨⟨rfl, rfl, rfl⟩, Keeps.refl f', hcached, by rw [halive]; rfl, ?_, ?_, ?_, ?_, ?_, ?_, ?_⟩
  · rw [hlastack]
    omega
  · have := widthFrom_pos ho.window_pos t.lastack
    rw [hlastack] at this ⊢
    omega
  · rintro n rfl
    exact le_rfl
  · omega
  · left
    rw [hlastack]
    exact hblock
  · rw [hnumber]
    exact Nat.zero_le _
  · rw [hlastack]
    omega

theorem packet_newTransfer
    (hres : res = .ok (.oack pkt) ∨ res = .ok (.data pkt)) (hsteady : f.Steady)
    (ho : OctetTransfer t f') (hne : t.block ≠ 0) :
    pkt = buildData (UInt16.ofNat t.block.toNat) (blockBytes t f' t.block.toNat) := by
  obtain ⟨hreread, hkeeps⟩ := keeps_of_getBlock hget
  have hne' : (newTransfer peer ref netascii opts now).block ≠ 0 := by
    rw [← hreread.block_eq]
    exact hne
  obtain ⟨t', f'', hget', -, -, -⟩ :=
    getBlock_data (hreread.advanced.octet_of hkeeps ho.toOctet) nofun hsteady hne'
    (newTransfer_block.trans (one_le_lastBlock _ _))
  have hpkt : res = .ok (.data (packetFor t f' t.block.toNat)) := by
    rw [hreread.advanced.packetFor_eq hkeeps, hreread.block_eq]
    exact (Prod.mk.inj (hget.symm.trans hget')).1
  have hpacket : packetFor t f' t.block.toNat =
      buildData (UInt16.ofNat t.block.toNat) (blockBytes t f' t.block.toNat) :=
    if_neg fun hzero => hne (UInt32.toNat_inj.mp hzero)
  obtain hres | hres := hres
  · cases hres.symm.trans hpkt
  · cases hres.symm.trans hpkt
    exact hpacket

/-- The first lines about a transfer. -/
theorem follows_newTransfer {id : ℕ} (hres : res = .ok (.oack pkt) ∨ res = .ok (.data pkt))
    (hsteady : f.Steady) :
    Follows id [.out (.started id t f'), .out (.sent id (.block t.block pkt))] (some (t, f')) := by
  intro t₀ f₀ hstarted ho
  obtain ⟨rfl, rfl⟩ : t₀ = t ∧ f₀ = f' := by
    obtain heq | hmem := mem_cons.mp hstarted
    · cases heq
      exact ⟨rfl, rfl⟩
    · cases mem_singleton.mp hmem
  have hsent : SentTo id [.out (.started id t₀ f₀), .out (.sent id (.block t₀.block pkt))] =
      fun n => n = t₀.block.toNat := by
    ext n
    simp [SentTo, eq_comm]
  have hacked :
      AckedBy id [.out (.started id t₀ f₀), .out (.sent id (.block t₀.block pkt))] = fun _ =>
        False := by
    ext n
    simp [AckedBy]
  refine ⟨⟨?_, ?_, ?_⟩, ?_⟩
  · intro n pkt' hmem hn
    obtain heq | hmem := mem_cons.mp hmem
    · cases heq
    · cases mem_singleton.mp hmem
      rw [packet_newTransfer hget hres hsteady ho hn,
        blockBytes_eq_extract ho.readable fun hzero => hn (UInt32.toNat_inj.mp hzero)]
  · intro n got hmem
    simp at hmem
  · intro cause timeout error hmem
    simp at hmem
  · rintro t f ⟨⟩
    rw [hsent, hacked]
    exact track_newTransfer hget hsteady ho

end

end Start

theorem Inv.reply {out : List Output} (h : Inv id rt log) (hout : ∀ o ∈ out, o.about = none) :
    Inv id rt (log ++ out.map .out) := by
  apply h.frame h.table le_rfl
  · intro e he i hi
    obtain ⟨o, ho, rfl⟩ := mem_map.mp he
    cases (hout o ho).symm.trans hi
  · exact SameSession.of_eq rfl

theorem Inv.insert {peer : SocketAddr} {ref : FileRef} {netascii : Bool} {opts : RequestOptions}
    {res : Except IoError GetBlockResult} {f : TftpFile} (h : Inv id rt log)
    (href : ref < rt.nextFile)
    (hget : getBlock (newTransfer peer ref netascii opts now) (rt.files ref) = (res, t, f))
    (hres : res = .ok (.oack pkt) ∨ res = .ok (.data pkt)) :
    Inv id { rt with
        transfers := rt.transfers.insert rt.nextId t
        nextId := rt.nextId + 1
        files := Function.update rt.files ref f }
      (log ++ [.out (.started rt.nextId t f), .out (.sent rt.nextId (.block t.block pkt))]) := by
  obtain ⟨hreread, hkeeps⟩ := keeps_of_getBlock hget
  have hfile : t.file = ref := hreread.file_eq
  set rt' : TftpRuntime := { rt with
    transfers := rt.transfers.insert rt.nextId t
    nextId := rt.nextId + 1
    files := Function.update rt.files ref f }
  have hself : rt'.transfers.lookup rt.nextId = some t := AList.lookup_insert _
  have hother : ∀ i, i ≠ rt.nextId → rt'.transfers.lookup i = rt.transfers.lookup i :=
    fun i hi => AList.lookup_insert_ne hi
  have hnext : rt'.nextId = rt.nextId + 1 := rfl
  have hfiles : rt'.files = Function.update rt.files ref f := rfl
  have htable : TableOk rt' := by
    refine ⟨fun ref' => ?_, fun i u hu => ?_⟩
    · exact (keeps_update hkeeps ref').steady (h.table.steady ref')
    · by_cases heq : i = rt.nextId
      · rw [heq, hself] at hu
        obtain rfl := some.inj hu
        rw [heq, hfile]
        exact ⟨Nat.lt_succ_self _, href⟩
      · rw [hother i heq] at hu
        obtain ⟨hid, hlt⟩ := h.table.known i u hu
        exact ⟨hid.trans (Nat.lt_succ_self _), hlt⟩
  have habout :
      ∀ e ∈ [Entry.out (.started rt.nextId t f), .out (.sent rt.nextId (.block t.block pkt))],
      e.about = some rt.nextId := forall_mem_cons.mpr ⟨rfl, forall_mem_singleton.mpr rfl⟩
  by_cases heq : id = rt.nextId
  · -- nothing in the log was about it before
    have hnone : history id log = [] := by
      apply history_of_forall_not_about
      intro e he habout
      exact absurd (h.fresh e he id habout) (by omega)
    subst heq
    apply Inv.self h.fresh htable (by omega) (by omega) habout
    rw [hnone, session_of_lookup hself, hfiles, hfile, Function.update_self]
    exact follows_newTransfer hget hres (h.table.steady ref)
  · apply h.other htable (by omega) (Ne.symm heq) (by omega) habout
    intro u f' hs'
    unfold TftpRuntime.session at hs'
    rw [hother id heq] at hs'
    obtain ⟨u', hlookup, heq'⟩ := map_eq_some_iff.mp hs'
    obtain ⟨rfl, rfl⟩ := Prod.mk.inj heq'
    exact ⟨_, session_of_lookup hlookup, keeps_update hkeeps _⟩

/-- **A new transfer**. -/
theorem Inv.startTransfer (a : Arrival) (netascii : Bool) (opts : RequestOptions)
    (h : Inv id rt log) (hheld : HeldBy rt opened) :
    Inv id (startTransfer rt a netascii opts opened).1
      (log ++ (startTransfer rt a netascii opts opened).2.map .out) := by
  obtain ⟨htable, href, hnext, hsession⟩ := h.table.hold hheld
  obtain ⟨ref, rt₁, hhold⟩ : ∃ ref rt₁, rt.hold opened = (ref, rt₁) := ⟨_, _, rfl⟩
  rw [hhold] at htable href hnext hsession
  have h₁ : Inv id rt₁ log := by
    refine ⟨htable, ?_, ?_⟩
    · intro e he i hi
      rw [hnext]
      exact h.fresh e he i hi
    · rw [hsession]
      exact h.follows
  unfold Tftp.startTransfer
  rw [hhold]
  simp only
  split
  all_goals
    rename_i hget
    have hkeeps := (keeps_of_getBlock hget).2
  · exact h₁.frame (htable.look hkeeps) le_rfl (forall_mem_nil _) (sameSession_look hkeeps)
  · exact h₁.insert href hget (Or.inl rfl)
  · exact h₁.insert href hget (Or.inr rfl)
  · exact h₁.frame (htable.look hkeeps) le_rfl (forall_mem_singleton.mpr nofun)
      (sameSession_look hkeeps)

/-- What is opened is held by the table, or is at its beginning. -/
theorem heldBy_of_openTftpFile (h : TableOk rt) (hopen : openTftpFile disk namebuff prefixSet secure
      (rt.transfers.entries.map fun e => (e.2.file, rt.files e.2.file)) = .ok opened) :
      HeldBy rt opened := by
  unfold openTftpFile at hopen
  split at hopen
  · cases hopen
  · split at hopen
    · split at hopen <;> cases hopen
    · split at hopen
      · cases hopen
      · split at hopen
        · cases hopen
        · split at hopen
          · rename_i f hfind
            cases hopen
            obtain ⟨e, he, rfl⟩ := mem_map.mp (mem_of_find?_eq_some hfind)
            have hlookup : rt.transfers.lookup e.1 = some e.2 := AList.mem_lookup_iff.mpr he
            exact (h.known e.1 e.2 hlookup).2
          · cases hopen
            exact fun _ => rfl

/-- A request is answered with at most an error, or starts a transfer. -/
def Answered (rt : TftpRuntime) (a : Arrival) (r : TftpRuntime × List Output) : Prop :=
  (∃ out : List Output, (∀ o ∈ out, o.about = none) ∧ r = (rt, out)) ∨
    ∃ netascii opts opened, HeldBy rt opened ∧ r = startTransfer rt a netascii opts opened

theorem answered_silent : Answered rt a (rt, []) :=
  Or.inl ⟨[], forall_mem_nil _, rfl⟩

theorem answered_reply : Answered rt a (rt, [.reply peer pkt]) :=
  Or.inl ⟨_, forall_mem_singleton.mpr rfl, rfl⟩

theorem answered_handleNewRequest (h : TableOk rt) :
    Answered rt a (handleNewRequest config rt a data) := by
  have hsilent {c : Prop} [Decidable c] {r : TftpRuntime × List Output} (hr : Answered rt a r) :
      Answered rt a (if c then (rt, []) else r) :=
        iteInduction (fun _ => answered_silent) fun _ => hr
  have hreply {c : Prop} [Decidable c] {peer : SocketAddr} {pkt : Bytes}
    {r : TftpRuntime × List Output}
      (hr : Answered rt a r) : Answered rt a (if c then (rt, [.reply peer pkt]) else r) :=
    iteInduction (fun _ => answered_reply) fun _ => hr
  apply hsilent
  apply hsilent
  apply hsilent
  apply hreply
  cases parseRrq data with
  | none => exact answered_silent
  | some request =>
    apply hreply
    apply hreply
    apply hsilent
    extract_lets opts namebuff shared
    cases hopen : openTftpFile a.disk namebuff config.pfx.isSome config.secure shared with
    | error e =>
      cases e with
      | notFound | perm | oops => exact answered_reply
    | ok opened =>
      apply hsilent
      exact Or.inr ⟨_, _, opened, heldBy_of_openTftpFile h hopen, rfl⟩

/-- **A request**. -/
theorem Inv.handleNewRequest (config : TftpConfig) (a : Arrival) (data : Bytes)
    (h : Inv id rt log) :
    Inv id (handleNewRequest config rt a data).1
      (log ++ (handleNewRequest config rt a data).2.map .out) := by
  obtain ⟨out, hout, heq⟩ | ⟨netascii, opts, opened, hheld, heq⟩ :=
    answered_handleNewRequest h.table
  · rw [heq]
    exact h.reply hout
  · rw [heq]
    exact h.startTransfer a netascii opts hheld

end Requests

/-! ### The loop -/

section Loop

variable {id : ℕ} {rt : TftpRuntime} {log : List Entry}

theorem about_ackLine {i n : ℕ} (he : e ∈ ackLine i n t data) : e.about = some i := by
  unfold ackLine at he
  split at he
  · rw [mem_singleton.mp he]
    rfl
  · cases he

/-- **A packet**, with an acknowledgement that is admissible if it is for the transfer. -/
theorem Inv.packet {i n : ℕ} (now : Instant) (h : Inv id rt log)
    (hlookup : rt.transfers.lookup i = some t) (hok : i = id → ∀ new, ackLow data = some new →
      new = UInt16.ofNat n ∧ SentTo id log n ∧ ∀ m, AckedBy id log m → m ≤ n + 16000) :
    Inv id (packetTurn rt i t data now).1
      (log ++ ackLine i n t data ++ (packetTurn rt i t data now).2.map .out) := by
  have hknown := (h.table.known i t hlookup).1
  by_cases heq : i = id
  · subst heq
    apply Inv.packetTurn_self h.table _ hlookup
    · have hf := h.follows
      rw [session_of_lookup hlookup] at hf
      rw [history_append, history_of_forall_about fun e he => about_ackLine he]
      unfold ackLine
      cases hdata : ackLow data with
      | none =>
        rw [append_nil]
        exact hf.packet now hdata
      | some new =>
        obtain ⟨rfl, ⟨m, pkt, hsent, rfl⟩, hnear⟩ := hok rfl new hdata
        refine hf.ack now (h.table.steady t.file) hdata
          ⟨m, pkt, mem_history.mpr ⟨hsent, rfl⟩, rfl⟩ ?_
        rintro k ⟨got, hmem⟩
        exact hnear k ⟨got, (mem_history.mp hmem).1⟩
    · apply Inv.fresh_append h.fresh le_rfl
      intro e he j hj
      obtain rfl := some.inj ((about_ackLine he).symm.trans hj)
      exact hknown
  · refine Inv.packetTurn_other ?_ heq hlookup data now
    exact h.other h.table le_rfl heq hknown (fun e he => about_ackLine he) (SameSession.of_eq rfl)

theorem lookup_of_matchPeer {peer : SocketAddr} {i : ℕ} (h : rt.matchPeer peer = some i) :
    ∃ t, rt.transfers.lookup i = some t := by
  obtain ⟨e, hfind, rfl⟩ := map_eq_some_iff.mp h
  exact ⟨e.2, AList.mem_lookup_iff.mpr (mem_of_find?_eq_some hfind)⟩

variable {config : TftpConfig}

/-- The line for the acknowledgement of an event is that of the packet that the event delivers. -/
theorem ackEntries_of_recipient {n i : ℕ}
    (h : e.recipient config rt = some (i, t, data)) :
    ackEntries config rt e n = ackLine i n t data := by
  unfold ackEntries
  rw [h]

theorem ackEntries_of_no_recipient (h : e.recipient config rt = none) :
    ackEntries config rt e n = [] := by
  unfold ackEntries
  rw [h]

theorem Inv.listener (h : Inv id rt log)
    (hok : AckAdmissible config id ⟨rt, log⟩ (.listener a data, n)) :
    Inv id (handleListenerDatagram config rt a data).1
      (log ++ ackEntries config rt (.listener a data) n
        ++ (handleListenerDatagram config rt a data).2.map .out) := by
  unfold handleListenerDatagram
  by_cases hsingle : config.singlePort ∧ 2 ≤ data.length
  · rw [if_pos hsingle]
    cases hmatch : rt.matchPeer a.src with
    | some i =>
      obtain ⟨t, hlookup⟩ := lookup_of_matchPeer hmatch
      by_cases hrrq : opcodeOf data = TftpOpcode.rrq.code
      · -- the client asks again, and its transfer is dropped
        have hnone : (LoopEvent.listener a data).recipient config rt = none :=
          if_neg fun hc => hc.2.2 hrrq
        have hdropped : Inv id (rt.remove i) (log ++ [.out (.replaced i)]) := by
          apply (h.remove i).gone (h.table.known i t hlookup).1 rfl
          rintro rfl
          exact ⟨session_remove_self, trivial⟩
        rw [ackEntries_of_no_recipient hnone, append_nil]
        simp only [if_pos hrrq]
        rw [map_cons, append_cons]
        exact hdropped.handleNewRequest config a data
      · have hrecipient : (LoopEvent.listener a data).recipient config rt = some (i, t, data) := by
          rw [LoopEvent.recipient, if_pos ⟨hsingle.1, hsingle.2, hrrq⟩, hmatch, bind_some, hlookup]
          rfl
        rw [ackEntries_of_recipient hrecipient]
        simp only [if_neg hrrq, hlookup]
        refine h.packet a.now hlookup ?_
        rintro rfl new hnew
        exact hok t data new hrecipient hnew
    | none =>
      have hnone : (LoopEvent.listener a data).recipient config rt = none := by
        rw [LoopEvent.recipient, hmatch, bind_none, ite_self]
      rw [ackEntries_of_no_recipient hnone, append_nil]
      simp only
      split
      · rw [map_nil, append_nil]
        exact h
      · exact h.handleNewRequest config a data
  · have hnone : (LoopEvent.listener a data).recipient config rt = none :=
      if_neg fun hc => hsingle ⟨hc.1, hc.2.1⟩
    rw [if_neg hsingle, ackEntries_of_no_recipient hnone, append_nil]
    exact h.handleNewRequest config a data

theorem Inv.transfer {i n : ℕ} {peer : SocketAddr} {peerText : Str} (h : Inv id rt log)
    (hok : AckAdmissible config id ⟨rt, log⟩ (.transfer i peer peerText data now, n)) :
    Inv id (handleTransferDatagram rt i peer peerText data now).1
      (log ++ ackEntries config rt (.transfer i peer peerText data now) n ++
        (handleTransferDatagram rt i peer peerText data now).2.map .out) := by
  unfold handleTransferDatagram
  cases hlookup : rt.transfers.lookup i with
  | none =>
    have hnone : (LoopEvent.transfer i peer peerText data now).recipient config rt = none := by
      rw [LoopEvent.recipient, hlookup]
      rfl
    rw [ackEntries_of_no_recipient hnone, append_nil, map_nil, append_nil]
    exact h
  | some t =>
    by_cases hpeer : peer ≠ t.peer
    · have hnone : (LoopEvent.transfer i peer peerText data now).recipient config rt = none := by
        rw [LoopEvent.recipient, hlookup, bind_some, if_pos hpeer]
      rw [ackEntries_of_no_recipient hnone, append_nil]
      simp only [if_pos hpeer]
      exact h.reply (forall_mem_singleton.mpr rfl)
    · have hrecipient :
        (LoopEvent.transfer i peer peerText data now).recipient config rt = some (i, t, data) := by
        rw [LoopEvent.recipient, hlookup, bind_some, if_neg hpeer]
      rw [ackEntries_of_recipient hrecipient]
      simp only [if_neg hpeer]
      refine h.packet now hlookup ?_
      rintro rfl new hnew
      exact hok t data new hrecipient hnew

/-- **One round of the loop**. -/
theorem Inv.step (h : Inv id s.rt s.log)
    (hok : AckAdmissible config id s ev) : Inv id (s.step config ev).rt (s.step config ev).log := by
  obtain ⟨e, n⟩ := ev
  cases e with
  | listener a data => exact h.listener hok
  | transfer i peer peerText data now => exact h.transfer hok
  | sweep now order =>
    show Inv id _ (s.log ++ [] ++ _)
    rw [append_nil]
    exact h.sweepTransfers now order

theorem Inv.initial (id : ℕ) : Inv id System.initial.rt System.initial.log where
  table := by
    refine ⟨fun ref _ => rfl, fun i t hlookup => ?_⟩
    cases hlookup
  fresh := forall_mem_nil _
  follows := fun t₀ f₀ hstarted => absurd hstarted not_mem_nil

end Loop

/-- **An octet transfer delivers its file**, in every run in which its client acknowledges only what
it got, and nothing that is far behind. -/
theorem delivered_of_reaches {config : TftpConfig} {id : ℕ} {s : System} {t : TftpTransfer}
    {f : TftpFile}
    (h : Run.Reaches (fun s ev => some (s.step config ev)) (AckAdmissible config id) System.initial
      s) (hstarted : .out (.started id t f) ∈ s.log) (ho : OctetTransfer t f) :
        Delivered id t f s.log := by
  have hinv : Inv id s.rt s.log := by
    refine h.invariant (I := fun s => Inv id s.rt s.log) (Inv.initial id) ?_
    intro s ev s' hs hok hstep
    rw [← some.inj hstep]
    exact hs.step hok
  have hdelivered := (hinv.follows t f (mem_history.mpr ⟨hstarted, rfl⟩) ho).1
  refine ⟨?_, ?_, ?_⟩
  · intro n pkt hmem
    exact hdelivered.data n pkt (mem_history.mpr ⟨hmem, rfl⟩)
  · intro n got hmem
    exact hdelivered.numbers n got (mem_history.mpr ⟨hmem, rfl⟩)
  · intro cause timeout error hmem
    have hend := hdelivered.ended cause timeout error (mem_history.mpr ⟨hmem, rfl⟩)
    refine hend.imp_right (Or.imp_right ?_)
    rintro ⟨got, hacked⟩
    exact ⟨got, (mem_history.mp hacked).1⟩

/-! ### A run -/

/-- A request for a file of three bytes. -/
def sampleRequest : LoopEvent :=
  .listener
    { src := ⟨.v4 .unspecified, 69⟩
      srcText := []
      iface := none
      mtu := none
      bound := true
      disk :=
        { dirExists := fun _ => false
          fileOpen := fun _ =>
            .ok { content := [1, 2, 3], fault := none, metadata := .ok ⟨3, 0, 0, 4, 0⟩ }
          euid := 0 }
      now := 0 }
    [0, 1, 97, 0, 111, 99, 116, 101, 116, 0]

/-- The transfer it starts: the one block is sent. -/
def startedTransfer : TftpTransfer :=
  { TftpTransfer.new ⟨.v4 .unspecified, 69⟩ 0 0 with
    retransmit := 2000000000, lastack := 1, prefetch := some (0, [1, 2, 3]) }

def startedFile : TftpFile := ⟨⟨[1, 2, 3], 3, none⟩, 3, 0, 0, "/a".toList, 3⟩

/-- The system after the request. -/
def sampleSystem : System := System.initial.step {} (sampleRequest, 0)

theorem log_sampleSystem : sampleSystem.log = [.out (.started 1 startedTransfer startedFile),
    .out (.sent 1 (.block 1 [0, 3, 0, 1, 1, 2, 3]))] := by
  decide +kernel

/-- The acknowledgement that ends the transfer. -/
def sampleAck : LoopEvent := .transfer 1 ⟨.v4 .unspecified, 69⟩ [] [0, 4, 0, 1] 1

theorem delivered_of_reaches_sample :
    .out (.ended 1 .finished false true) ∈ (sampleSystem.step {} (sampleAck, 1)).log
      ∧ Delivered 1 startedTransfer startedFile (sampleSystem.step {} (sampleAck, 1)).log := by
  refine ⟨by decide +kernel, @delivered_of_reaches {} 1 _ _ _ (.tail (.tail .refl ?_ rfl) ?_ rfl)
    (by decide +kernel) ⟨⟨rfl, by decide, ⟨rfl, rfl⟩, by decide⟩, by decide, by decide⟩⟩
  · intro t data new hrecipient
    cases hrecipient
  · intro t data new hrecipient hnew
    simp only [sampleAck, LoopEvent.recipient] at hrecipient
    obtain ⟨t', -, hdata⟩ := bind_eq_some_iff.mp hrecipient
    split at hdata
    · cases hdata
    · cases hdata
      obtain rfl : 1 = new := some.inj hnew
      refine ⟨rfl, ⟨1, [0, 3, 0, 1, 1, 2, 3], by decide +kernel, rfl⟩, ?_⟩
      rintro m ⟨got, hmem⟩
      replace hmem : .acked 1 m got ∈ sampleSystem.log := hmem
      simp [log_sampleSystem] at hmem

end DnsmasqRs.Tftp
