import DnsmasqRs.Tftp.Runtime
import DnsmasqRs.Tftp.Equiv.Track

/-!
# The log of the TFTP loop

The loop runs with any number of transfers, which may share files, and any events: requests,
packets, sweeps.  A log notes down what it does, and with each acknowledgement the number of the
block that the client meant (`System.step`); the packet itself has only the low 16 bits of it.

`Follows` says of one transfer that it has delivered what it should so far (`Delivered`), and is on
track if it is still in the table.  It looks at the lines about this transfer alone (`history`), and
at nothing of the table but the transfer and its file (`TftpRuntime.session`), up to the file's
position: what other transfers do to that does not matter (`SameSession`).
-/

open Utf8 Wire List Option

namespace DnsmasqRs.Tftp

/-! ### The log -/

/-- A line of the log. -/
inductive Entry where
  | out (o : Output)
  /-- The client of a transfer acknowledged a block, and this is what the number was taken for. -/
  | acked (id n : ℕ) (got : UInt32)
  deriving DecidableEq

/-- The transfer that something is about. -/
def Output.about : Output → Option ℕ
  | .started id _ _ => some id
  | .sent id _ => some id
  | .reply _ _ => none
  | .ended id _ _ _ => some id
  | .replaced id => some id

def Entry.about : Entry → Option ℕ
  | .out o => o.about
  | .acked id _ _ => some id

/-- What the log has about a transfer. -/
def history (id : ℕ) (log : List Entry) : List Entry := log.filter fun e => e.about = some id

theorem mem_history {id : ℕ} : e ∈ history id log ↔ e ∈ log ∧ e.about = some id := by
  unfold history
  rw [mem_filter, decide_eq_true_iff]

theorem history_append (id : ℕ) (log entries : List Entry) :
    history id (log ++ entries) = history id log ++ history id entries :=
  filter_append _ _

theorem history_of_forall_about {id : ℕ} {entries : List Entry}
    (h : ∀ e ∈ entries, e.about = some id) :
    history id entries = entries :=
  filter_eq_self.mpr fun e he => decide_eq_true (h e he)

theorem history_of_forall_not_about {id : ℕ} {entries : List Entry}
    (h : ∀ e ∈ entries, e.about ≠ some id) :
    history id entries = [] :=
  filter_eq_nil_iff.mpr fun e he => by
    rw [decide_eq_true_iff]
    exact h e he

/-- A block was sent to the client. -/
def SentTo (id : ℕ) (log : List Entry) (n : ℕ) : Prop :=
  ∃ (m : UInt32) (pkt : Bytes), .out (.sent id (.block m pkt)) ∈ log ∧ m.toNat = n

/-- The client acknowledged a block. -/
def AckedBy (id : ℕ) (log : List Entry) (n : ℕ) : Prop := ∃ got, .acked id n got ∈ log

/-- **The transfer delivers the file**: bytes `(n - 1) * b` to `n * b` for block `n`. -/
structure Delivered (id : ℕ) (t₀ : TftpTransfer) (f₀ : TftpFile) (log : List Entry) : Prop where
  data : ∀ (n : UInt32) (pkt : Bytes), .out (.sent id (.block n pkt)) ∈ log → n ≠ 0 →
    pkt = buildData (UInt16.ofNat n.toNat) (f₀.file.content.extract ((n.toNat - 1) * t₀.blocksize)
        (min (n.toNat * t₀.blocksize) f₀.size))
  numbers : ∀ (n : ℕ) (got : UInt32), .acked id n got ∈ log → got.toNat = n
  ended : ∀ (cause : EndCause) (timeout error : Bool), .out (.ended id cause timeout error) ∈ log →
    cause = .errorPacket ∨ cause = .inactive ∨ AckedBy id log (f₀.size / t₀.blocksize + 1)

/-! ### The system -/

/-- The runtime, and what it did so far. -/
structure System where
  rt : TftpRuntime
  log : List Entry

/-- Which transfer gets a packet of its client with an event. -/
def LoopEvent.recipient (config : TftpConfig) (rt : TftpRuntime) :
    LoopEvent → Option (ℕ × TftpTransfer × Bytes)
  | .listener a data =>
    if config.singlePort ∧ 2 ≤ data.length ∧ opcodeOf data ≠ TftpOpcode.rrq.code then
      (rt.matchPeer a.src).bind fun id => (rt.transfers.lookup id).map fun t => (id, t, data)
    else none
  | .transfer id peer _ data _ =>
    (rt.transfers.lookup id).bind fun t => if peer ≠ t.peer then none else some (id, t, data)
  | .sweep _ _ => none

/-- The line for an acknowledgement in a packet. -/
def ackLine (id n : ℕ) (t : TftpTransfer) (data : Bytes) : List Entry :=
  match ackLow data with
  | some new => [.acked id n (widenAck t new).ackedBlock]
  | none => []

/-- The line for the acknowledgement, if the event has one, of the block `n`. -/
def ackEntries (config : TftpConfig) (rt : TftpRuntime) (e : LoopEvent) (n : ℕ) : List Entry :=
  match e.recipient config rt with
  | some (id, t, data) => ackLine id n t data
  | none => []

/-- One round of the loop, with the number of the block that an acknowledgement is meant for. -/
def System.step (config : TftpConfig) (s : System) (ev : LoopEvent × ℕ) : System where
  rt := (loopStep config s.rt ev.1).1
  log := s.log ++ ackEntries config s.rt ev.1 ev.2 ++ (loopStep config s.rt ev.1).2.map .out

/-- An acknowledgement for this transfer is for a block that was sent to the client, at most 16000
behind the highest one it has acknowledged. -/
def AckAdmissible (config : TftpConfig) (id : ℕ) (s : System) (ev : LoopEvent × ℕ) : Prop :=
  ∀ t data new, ev.1.recipient config s.rt = some (id, t, data) → ackLow data = some new →
    new = UInt16.ofNat ev.2 ∧ SentTo id s.log ev.2 ∧ ∀ m, AckedBy id s.log m → m ≤ ev.2 + 16000

/-- No transfers, and nothing done yet. -/
def System.initial : System := ⟨.new, []⟩

/-! ### The table -/

/-- The files are steady, and ids and references that are not given out yet are not in the table. -/
structure TableOk (rt : TftpRuntime) : Prop where
  steady : ∀ ref, (rt.files ref).Steady
  known : ∀ i t, rt.transfers.lookup i = some t → i < rt.nextId ∧ t.file < rt.nextFile

/-- A transfer with its file. -/
def TftpRuntime.session (rt : TftpRuntime) (id : ℕ) : Option (TftpTransfer × TftpFile) :=
  (rt.transfers.lookup id).map fun t => (t, rt.files t.file)

section Table

variable {rt : TftpRuntime} {id i : ℕ} {t : TftpTransfer} {turn : Turn}

theorem session_of_lookup (h : rt.transfers.lookup id = some t) :
    rt.session id = some (t, rt.files t.file) := by
  unfold TftpRuntime.session
  rw [h]
  rfl

theorem keeps_update {f : TftpFile} (h : Keeps (rt.files ref) f) (ref' : FileRef) :
    Keeps (rt.files ref') (Function.update rt.files ref f ref') := by
  by_cases heq : ref' = ref
  · subst heq
    rw [Function.update_self]
    exact h
  · rw [Function.update_of_ne heq]
    exact Keeps.refl _

theorem TableOk.put (h : TableOk rt) (hlookup : rt.transfers.lookup i = some t)
    (hturn : TurnKeeps t (rt.files t.file) turn) : TableOk (rt.put i turn) where
  steady := by
    intro ref
    have hkeeps : Keeps (rt.files turn.transfer.file) turn.file := by
      rw [hturn.file_eq]
      exact hturn.keeps
    exact (keeps_update hkeeps ref).steady (h.steady ref)
  known := by
    intro j u hj
    by_cases heq : j = i
    · subst heq
      rw [show (rt.put j turn).transfers.lookup j = some turn.transfer from AList.lookup_insert
        _] at hj
      obtain rfl := some.inj hj
      rw [hturn.file_eq]
      exact h.known j t hlookup
    · rw [show (rt.put i turn).transfers.lookup j = rt.transfers.lookup
        j from AList.lookup_insert_ne heq] at hj
      exact h.known j u hj

theorem TableOk.remove (h : TableOk rt) (i : ℕ) : TableOk (rt.remove i) where
  steady := h.steady
  known := by
    intro j u hj
    by_cases heq : j = i
    · subst heq
      rw [show (rt.remove j).transfers.lookup j = none from AList.lookup_erase j _] at hj
      cases hj
    · rw [show (rt.remove i).transfers.lookup j = rt.transfers.lookup j from AList.lookup_erase_ne
        heq] at hj
      exact h.known j u hj

theorem session_put_self : (rt.put i turn).session i = some (turn.transfer, turn.file) := by
  rw [session_of_lookup (t := turn.transfer) (AList.lookup_insert _)]
  exact congrArg (fun f => some (turn.transfer, f)) (Function.update_self _ _ _)

theorem session_remove_self : (rt.remove i).session i = none := by
  unfold TftpRuntime.session
  rw [show (rt.remove i).transfers.lookup i = none from AList.lookup_erase i _]
  rfl

theorem session_remove_of_ne (hne : id ≠ i) : (rt.remove i).session id = rt.session id := by
  unfold TftpRuntime.session
  rw [show (rt.remove i).transfers.lookup id = rt.transfers.lookup
    id from AList.lookup_erase_ne hne]
  rfl

/-- The session is the same, but for the position in its file. -/
def SameSession (s s' : Option (TftpTransfer × TftpFile)) : Prop :=
  ∀ t f', s' = some (t, f') → ∃ f, s = some (t, f) ∧ Keeps f f'

theorem SameSession.of_eq (h : s' = s) : SameSession s s' := by
  intro t f' hs'
  exact ⟨f', h.symm.trans hs', Keeps.refl f'⟩

/-- A turn of another transfer at most reads from the same file. -/
theorem sameSession_put (hne : id ≠ i) (hturn : TurnKeeps t (rt.files t.file) turn) :
    SameSession (rt.session id) ((rt.put i turn).session id) := by
  intro u f' hs'
  unfold TftpRuntime.session at hs'
  rw [show (rt.put i turn).transfers.lookup id = rt.transfers.lookup id from AList.lookup_insert_ne
    hne] at hs'
  obtain ⟨u', hlookup, heq⟩ := map_eq_some_iff.mp hs'
  obtain ⟨rfl, rfl⟩ := Prod.mk.inj heq
  refine ⟨rt.files u'.file, session_of_lookup hlookup, keeps_update ?_ _⟩
  rw [hturn.file_eq]
  exact hturn.keeps

end Table

/-! ### What follows from the history of a transfer -/

/-- If the transfer is an octet transfer, it has delivered so far, and is on track if it is still
there. -/
def Follows (id : ℕ) (h : List Entry) (session : Option (TftpTransfer × TftpFile)) : Prop :=
  ∀ t₀ f₀, .out (.started id t₀ f₀) ∈ h → OctetTransfer t₀ f₀ →
    Delivered id t₀ f₀ h ∧ ∀ t f, session = some (t, f) →
      Track t₀ f₀ (SentTo id h) (AckedBy id h) t f

/-- If the transfer is an octet transfer, it has delivered so far, and this turn goes on like that.
-/
def TurnFollows (id : ℕ) (h : List Entry) (turn : Turn) : Prop :=
  ∀ t₀ f₀, .out (.started id t₀ f₀) ∈ h → OctetTransfer t₀ f₀ →
    Delivered id t₀ f₀ h ∧ TurnSpec t₀ f₀ (SentTo id h) (AckedBy id h) turn

/-- If the transfer is an octet transfer, it may end like this. -/
def EndOk (id : ℕ) (h : List Entry) (cause : EndCause) : Prop :=
  ∀ t₀ f₀, .out (.started id t₀ f₀) ∈ h → OctetTransfer t₀ f₀ →
    cause = .errorPacket ∨ cause = .inactive ∨ AckedBy id h (lastBlock t₀ f₀)

/-- The lines for what was sent in a turn. -/
def sentEntries (id : ℕ) (turn : Turn) : List Entry := (turn.sent.map (Output.sent id)).map .out

section History

variable {id : ℕ} {h entries : List Entry} {session : Option (TftpTransfer × TftpFile)}
  {turn : Turn}
  {t₀ : TftpTransfer} {f₀ : TftpFile}

theorem mem_sentEntries : e ∈ sentEntries id turn ↔ ∃ s ∈ turn.sent, e = .out (.sent id s) := by
  unfold sentEntries
  rw [List.map_map, List.mem_map]
  constructor
  all_goals
    rintro ⟨s, hs, rfl⟩
    exact ⟨s, hs, rfl⟩

theorem mem_of_mem_append_singleton (hmem : e ∈ h ++ [x]) (hne : e ≠ x) : e ∈ h := by
  obtain hmem | hmem := mem_append.mp hmem
  · exact hmem
  · exact absurd (mem_singleton.mp hmem) hne

theorem AckedBy.append (hacked : AckedBy id h n) (entries : List Entry) :
    AckedBy id (h ++ entries) n := by
  obtain ⟨got, hmem⟩ := hacked
  exact ⟨got, mem_append_left _ hmem⟩

theorem Follows.same (hf : Follows id h session) (hsame : SameSession session session') :
    Follows id h session' := by
  intro t₀ f₀ hstarted ho
  obtain ⟨hdelivered, htrack⟩ := hf t₀ f₀ hstarted ho
  refine ⟨hdelivered, fun t f' hsession => ?_⟩
  obtain ⟨f, hsession', hkeeps⟩ := hsame t f' hsession
  exact (htrack t f hsession').moved hkeeps

theorem sameSession_none : SameSession session none :=
  fun _ _ hsome => absurd hsome.symm (some_ne_none _)

theorem Delivered.append (hd : Delivered id t₀ f₀ h)
    (hdata : ∀ (n : UInt32) (pkt : Bytes), .out (.sent id (.block n pkt)) ∈ entries → n ≠ 0 →
      pkt = buildData (UInt16.ofNat n.toNat) (f₀.file.content.extract ((n.toNat - 1) * t₀.blocksize)
          (min (n.toNat * t₀.blocksize) f₀.size)))
    (hnumbers : ∀ (n : ℕ) (got : UInt32), .acked id n got ∈ entries → got.toNat = n)
    (hended : ∀ (cause : EndCause) (timeout error : Bool), .out (.ended id cause timeout error)
      ∈ entries → cause = .errorPacket ∨ cause = .inactive ∨ AckedBy id h (lastBlock t₀ f₀)) :
    Delivered id t₀ f₀ (h ++ entries) where
  data := by
    intro n pkt hmem
    obtain hmem | hmem := mem_append.mp hmem
    · exact hd.data n pkt hmem
    · exact hdata n pkt hmem
  numbers := by
    intro n got hmem
    obtain hmem | hmem := mem_append.mp hmem
    · exact hd.numbers n got hmem
    · exact hnumbers n got hmem
  ended := by
    intro cause timeout error hmem
    have hend : cause = .errorPacket ∨ cause = .inactive ∨ AckedBy id h (lastBlock t₀ f₀) := by
      obtain hmem | hmem := mem_append.mp hmem
      · exact hd.ended cause timeout error hmem
      · exact hended cause timeout error hmem
    exact hend.imp_right (Or.imp_right fun hacked => hacked.append entries)

theorem started_of_append_sentEntries (hmem : .out (.started id t₀ f₀) ∈ h ++ sentEntries id turn) :
    .out (.started id t₀ f₀) ∈ h := by
  obtain hmem | hmem := mem_append.mp hmem
  · exact hmem
  · obtain ⟨s, -, heq⟩ := mem_sentEntries.mp hmem
    cases heq

theorem sentTo_append : SentTo id (h ++ entries) n ↔ SentTo id h n ∨ SentTo id entries n := by
  simp only [SentTo, mem_append, or_and_right, exists_or]

theorem ackedBy_append : AckedBy id (h ++ entries) n ↔ AckedBy id h n ∨ AckedBy id entries n := by
  simp only [AckedBy, mem_append, exists_or]

theorem sentTo_append_sentEntries :
    SentTo id (h ++ sentEntries id turn) = fun n => SentTo id h n ∨ SentIn turn n := by
  ext n
  rw [sentTo_append]
  refine or_congr_right ⟨?_, ?_⟩
  · rintro ⟨m, pkt, hmem, rfl⟩
    obtain ⟨s, hs, heq⟩ := mem_sentEntries.mp hmem
    cases heq
    exact ⟨m, pkt, hs, rfl⟩
  · rintro ⟨m, pkt, hmem, rfl⟩
    exact ⟨m, pkt, mem_sentEntries.mpr ⟨_, hmem, rfl⟩, rfl⟩

theorem ackedBy_append_sentEntries : AckedBy id (h ++ sentEntries id turn) = AckedBy id h := by
  ext n
  rw [ackedBy_append, or_iff_left]
  rintro ⟨got, hmem⟩
  obtain ⟨s, -, heq⟩ := mem_sentEntries.mp hmem
  cases heq

/-- What a turn sends belongs to the delivery. -/
theorem TurnSpec.delivered (hspec : TurnSpec t₀ f₀ (SentTo id h) (AckedBy id h) turn)
    (hd : Delivered id t₀ f₀ h) (ho : OctetTransfer t₀ f₀) :
    Delivered id t₀ f₀ (h ++ sentEntries id turn) := by
  apply hd.append
  · intro n pkt hmem hn
    obtain ⟨s, hs, heq⟩ := mem_sentEntries.mp hmem
    cases heq
    rw [hspec.packets n pkt hs hn, blockBytes_eq_extract ho.readable fun hzero =>
      hn (UInt32.toNat_inj.mp hzero)]
  · intro n got hmem
    obtain ⟨s, -, heq⟩ := mem_sentEntries.mp hmem
    cases heq
  · intro cause timeout error hmem
    obtain ⟨s, -, heq⟩ := mem_sentEntries.mp hmem
    cases heq

/-- A transfer that stays is on track after its turn. -/
theorem TurnFollows.follows (hf : TurnFollows id h turn)
    (hcause : ∀ t₀ f₀, .out (.started id t₀ f₀) ∈ h → OctetTransfer t₀ f₀ →
      turn.endcon ≠ some .errorPacket) :
    Follows id (h ++ sentEntries id turn) (some (turn.transfer, turn.file)) := by
  intro t₀ f₀ hstarted ho
  obtain ⟨hdelivered, hspec⟩ := hf t₀ f₀ (started_of_append_sentEntries hstarted) ho
  refine ⟨hspec.delivered hdelivered ho, ?_⟩
  rintro t f ⟨⟩
  rw [sentTo_append_sentEntries, ackedBy_append_sentEntries]
  exact hspec.track (hcause t₀ f₀ (started_of_append_sentEntries hstarted) ho)

theorem TurnFollows.follows_none (hf : TurnFollows id h turn) :
    Follows id (h ++ sentEntries id turn) none := by
  intro t₀ f₀ hstarted ho
  obtain ⟨hdelivered, hspec⟩ := hf t₀ f₀ (started_of_append_sentEntries hstarted) ho
  exact ⟨hspec.delivered hdelivered ho, fun _ _ hsome => absurd hsome.symm (some_ne_none _)⟩

theorem TurnFollows.endOk (hf : TurnFollows id h turn) (hcause : turn.endcon = some cause) :
    EndOk id (h ++ sentEntries id turn) cause := by
  intro t₀ f₀ hstarted ho
  rw [ackedBy_append_sentEntries]
  exact (hf t₀ f₀ (started_of_append_sentEntries hstarted) ho).2.ended cause hcause

/-- The last line about a transfer: it has ended as it may, or was replaced. -/
def LastLine (id : ℕ) (h : List Entry) : Output → Prop
  | .ended _ cause _ _ => EndOk id h cause
  | .replaced _ => True
  | _ => False

/-- After the last line nothing more is to be shown. -/
theorem Follows.gone (hf : Follows id h session) (hlast : LastLine id h o) :
    Follows id (h ++ [.out o]) none := by
  intro t₀ f₀ hstarted ho
  replace hstarted : .out (.started id t₀ f₀) ∈ h := by
    apply mem_of_mem_append_singleton hstarted
    rintro ⟨⟩
    exact hlast
  refine ⟨?_, fun _ _ hsome => absurd hsome.symm (some_ne_none _)⟩
  apply (hf t₀ f₀ hstarted ho).1.append
  · intro n pkt hmem
    cases mem_singleton.mp hmem
    exact hlast.elim
  · intro n got hmem
    cases mem_singleton.mp hmem
  · intro cause timeout error hmem
    cases mem_singleton.mp hmem
    exact hlast t₀ f₀ hstarted ho

end History

/-! ### Turns -/

section Turns

variable {id : ℕ} {h : List Entry} {t : TftpTransfer} {f : TftpFile}

/-- The turn of a sweep. -/
theorem Follows.sweep (now : Instant) (hf : Follows id h (some (t, f))) (hsteady : f.Steady) :
    TurnFollows id h (sweepTransfer now t f).1 := by
  intro t₀ f₀ hstarted ho
  obtain ⟨hdelivered, htrack⟩ := hf t₀ f₀ hstarted ho
  exact ⟨hdelivered, (htrack t f rfl).sweep ho hsteady now⟩

/-- The turn of a packet that acknowledges nothing. -/
theorem Follows.packet (now : Instant) (hf : Follows id h (some (t, f)))
    (hdata : ackLow data = none) :
    TurnFollows id h (processTransferPacket t f data now) := by
  intro t₀ f₀ hstarted ho
  obtain ⟨hdelivered, htrack⟩ := hf t₀ f₀ hstarted ho
  exact ⟨hdelivered, (htrack t f rfl).packet now hdata⟩

/-- An acknowledgement goes into the log as what it was meant, and is read as that. -/
theorem Follows.ack (now : Instant) (hf : Follows id h (some (t, f))) (hsteady : f.Steady)
    (hdata : ackLow data = some (UInt16.ofNat n)) (hsent : SentTo id h n)
    (hnear : ∀ m, AckedBy id h m → m ≤ n + 16000) :
    TurnFollows id (h ++ [.acked id n (widenAck t (UInt16.ofNat n)).ackedBlock])
      (processTransferPacket t f data now) := by
  intro t₀ f₀ hstarted ho
  have hstarted := mem_of_mem_append_singleton hstarted nofun
  obtain ⟨hdelivered, htrack⟩ := hf t₀ f₀ hstarted ho
  have htrack := htrack t f rfl
  have hsentTo :
      SentTo id (h ++ [.acked id n (widenAck t (UInt16.ofNat n)).ackedBlock]) = SentTo id h := by
    ext k
    simp [SentTo]
  have hackedBy : AckedBy id (h ++ [.acked id n (widenAck t (UInt16.ofNat n)).ackedBlock]) =
      fun m => AckedBy id h m ∨ m = n := by
    ext k
    rw [ackedBy_append]
    simp [AckedBy]
  constructor
  · apply hdelivered.append
    · intro k pkt hmem
      cases mem_singleton.mp hmem
    · intro k got hmem
      cases mem_singleton.mp hmem
      exact htrack.toNat_ackedBlock_eq ho hsent hnear
    · intro cause timeout error hmem
      cases mem_singleton.mp hmem
  · rw [hsentTo, hackedBy]
    exact htrack.ack ho hsent hnear now hsteady hdata

end Turns

end DnsmasqRs.Tftp
