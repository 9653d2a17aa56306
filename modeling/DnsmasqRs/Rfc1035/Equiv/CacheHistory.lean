import DnsmasqRs.Equiv.CacheEntries
import DnsmasqRs.Hosts
import DnsmasqRs.Rfc1035.Equiv.Negative

/-!
# Where the records of a cache come from

A cache is filled from hosts files and upstream replies.  Whatever is in it was written by one of
these events (`sourced_of_runEvents`): it is a record of a line, or one that `extract_addresses`
stages for the reply, with a lifetime.  The caches of such runs are `Valid`.
-/

namespace DnsmasqRs.Rfc1035

open Lru Utf8 Wire Cache Fallible DnsProtocol Text List Option

/-- A hosts file, with what `load_hosts_file` is given besides. -/
structure HostsFile where
  text : Str
  ttl : UInt32
  uid : UInt32
  now : Instant

/-- A reply, with what `extract_addresses` is given besides. -/
structure UpstreamReply where
  packet : DnsPacket
  now : Instant
  config : ExtractConfig

/-- What fills the cache. -/
inductive CacheEvent where
  | hosts (file : HostsFile)
  | reply (r : UpstreamReply)

variable {M : Type} [Lru M CacheKey CacheRecord]

/-- The cache after an event, unless `extract_addresses` panics on a reply. -/
def CacheEvent.apply (c : DnsCache M) : CacheEvent → Option (DnsCache M)
  | .hosts f => some (loadHostsFile f.text f.ttl f.uid f.now c).1
  | .reply r => (extractAddresses r.packet c r.now r.config).toOption.map Prod.fst

/-- The cache after a sequence of events. -/
def runEvents (c : DnsCache M) (events : List CacheEvent) : Option (DnsCache M) :=
  events.foldlM CacheEvent.apply c

/-- The record is one of a line of the file. -/
def HostsFile.Writes (f : HostsFile) (rec : CacheRecord) : Prop :=
  ∃ line ∈ lines f.text, ∃ entry, hostsEntry line = some entry
    ∧ rec ∈ entry.records f.ttl f.uid f.now

/-- The record is staged for the reply, but for its lifetime. -/
def UpstreamReply.Writes (r : UpstreamReply) (rec : CacheRecord) : Prop :=
  ∃ outcome staged, collectRecords r.packet r.now r.config = .ok (outcome, some staged)
    ∧ ∃ rec' ∈ staged, rec = { rec' with ttl := rec.ttl, expires := rec.expires }

def CacheEvent.Writes : CacheEvent → CacheRecord → Prop
  | .hosts f => f.Writes
  | .reply r => r.Writes

/-- A cache without records. -/
structure Fresh (c : DnsCache M) : Prop where
  empty : ∀ k, peek c.records k = none
  capacity : capacity c.records = max c.maxSize 1

theorem Fresh.valid {c : DnsCache M} (h : Fresh c) : c.Valid := by
  refine ⟨fun k r hpeek => ?_, h.capacity⟩
  rw [h.empty] at hpeek
  cases hpeek

/-! ### Address records -/

theorem answerData_of_a (hqtype : env.qtype = 1)
    (h : answerData env rr = .ok (.ok addr)) :
    ∃ a, Ipv4Addr.ofBytes rr.rdata = some a ∧ addr = .addr4 a := by
  cases AnswerData.of_eq h with
  | addr4 _ hip => exact ⟨_, hip, rfl⟩
  | addr6 h6 => exact absurd (hqtype.symm.trans h6) (by decide)
  | other h4 => exact absurd hqtype h4

/-- The record is not a forward IPv4 record, or it holds an IPv4 address. -/
def AddressTyped (rec : CacheRecord) : Prop :=
  typeFlags rec.flags = fIpv4 → ∃ a, rec.addr = some (.addr4 a)

variable {config : ExtractConfig}

variable {now : Instant}

theorem qtype_of_addrFlag (h : (questionEnv header qtype now config).addrFlag = fIpv4) :
    qtype = 1 := by
  change (questionKind qtype config).1 = fIpv4 at h
  unfold questionKind at h
  split_ifs at h with h1
  · exact h1
  all_goals exact absurd h (by decide)

theorem addressTyped_of_collectRecords
    (h : collectRecords packet now config = .ok (outcome, some staged)) :
    ∀ rec ∈ staged, AddressTyped rec := by
  intro rec hrec
  obtain ⟨q, -, -, hsource⟩ := collectRecords_cases h
  have hsec : (questionEnv packet.header q.qtype now config).secflag ∈ _ := secflag_cases
  have hadd : (questionEnv packet.header q.qtype now config).addrFlag ∈ _ := addrFlag_cases
  rcases hsource with ⟨-, ipAddr, -, hptr⟩ | ⟨-, w, hwalk, hfinish⟩
  · obtain ⟨rr, -, t, pos, -, -, -, -, rfl⟩ := mem_ptrRecords hptr hrec
    have hflags : ∀ sec ∈ [fDnssecok, 0], ∀ flag ∈ [fIpv4, fIpv6, 0],
        typeFlags (flag ||| fReverse ||| sec) = fIpv4 → flag = fIpv4 := by
      decide
    intro hkey
    have hfamily : familyFlag ipAddr = fIpv4 := hflags _ hsec _ (familyFlag_cases) hkey
    unfold familyFlag at hfamily
    split at hfamily
    · exact ⟨_, rfl⟩
    all_goals exact absurd hfamily (by decide)
  · have hflags :
      ∀ sec ∈ [fDnssecok, 0], typeFlags (fNxdomain ||| fNeg ||| fForward ||| sec) ≠ fIpv4
        ∧ typeFlags (fForward ||| fRr ||| fKeytag ||| sec) ≠ fIpv4
        ∧ typeFlags (fCname ||| fForward ||| sec) ≠ fIpv4
        ∧ ∀ flag ∈ [fIpv4, fIpv6, fRr, 0], typeFlags (flag ||| fNeg ||| fForward ||| sec) ≠ fIpv4
          ∧ (typeFlags (flag ||| fForward ||| sec) = fIpv4 → flag = fIpv4) := by
      decide
    obtain ⟨hnx, hsoa, hcname, haddr⟩ := hflags _ hsec
    obtain ⟨hneg, hanswer⟩ := haddr _ hadd
    rcases mem_finishWalk hfinish hrec with hrec | ⟨-, ⟨ttl, rfl⟩ | ⟨m, ttl, -, rfl⟩⟩
    · rcases walks_of_followChain hwalk rec hrec with ⟨name, ttl, t, rfl⟩
        | ⟨name, ttl, rr, addr, hdata, rfl⟩
      · exact fun hkey => absurd hkey hcname
      · intro hkey
        obtain ⟨a, -, rfl⟩ := answerData_of_a (qtype_of_addrFlag (hanswer hkey)) hdata
        exact ⟨a, rfl⟩
    · intro hkey
      change typeFlags (_ ||| _) = fIpv4 at hkey
      split_ifs at hkey
      · exact absurd hkey hnx
      · exact absurd hkey hneg
    · exact fun hkey => absurd hkey hsoa

/-! ### Hosts entries -/

/-- The address of an entry, its flag and its reverse name go together. -/
theorem hostsEntry_spec (h : hostsEntry line = some e) :
    (∃ ip, e.addr = .addr4 ip ∧ e.flag = fIpv4 ∧ e.ptrName = ipv4PtrName ip)
      ∨ ∃ ip, e.addr = .addr6 ip ∧ e.flag = fIpv6 ∧ e.ptrName = ipv6PtrName ip := by
  unfold hostsEntry at h
  split at h
  · obtain ⟨⟨addr, flag, ptrName⟩, haddr, rfl⟩ := map_eq_some_iff.mp h
    unfold parseHostsAddr at haddr
    split at haddr
    · next ip _ =>
      cases haddr
      exact .inl ⟨ip, rfl, rfl, rfl⟩
    · obtain ⟨ip, -, heq⟩ := map_eq_some_iff.mp haddr
      cases heq
      exact .inr ⟨ip, rfl, rfl, rfl⟩
  · cases h

variable {rec : CacheRecord}

theorem HostsEntry.mem_records {e : HostsEntry} {ttl uid : UInt32} :
    rec ∈ e.records ttl uid now ↔ (∃ name ∈ e.canonical :: e.aliases, rec =
        { name, flags := e.flag ||| fForward ||| fHosts ||| fImmortal, ttl
          expires := now + fromSecs (ttl.toNat + 3600), addr := some e.addr, uid })
      ∨ rec = { name := e.ptrName, flags := e.flag ||| fReverse ||| fHosts ||| fImmortal, ttl
                expires := now + fromSecs (ttl.toNat + 3600), addr := some e.addr
                rdata := some (bytes e.canonical), uid } := by
  unfold HostsEntry.records
  rw [List.mem_append, List.mem_map, List.mem_singleton]
  refine or_congr_left (exists_congr fun name => and_congr_right fun _ => eq_comm)

theorem HostsFile.Writes.typeFlags_eq {f : HostsFile} {a : Ipv4Addr} (h : f.Writes rec)
    (hforward : rec.flags &&& fForward ≠ 0) (haddr : rec.addr = some (.addr4 a)) :
    typeFlags rec.flags = fIpv4 := by
  obtain ⟨line, -, e, hentry, hrec⟩ := h
  rcases hostsEntry_spec hentry with ⟨ip, heq, hflag, -⟩ | ⟨ip, heq, hflag, -⟩
  · rcases HostsEntry.mem_records.mp hrec with ⟨name, -, rfl⟩ | rfl
    · rw [hflag]
      show typeFlags (fIpv4 ||| fForward ||| fHosts ||| fImmortal) = fIpv4
      decide
    · rw [hflag] at hforward
      exact absurd (show (fIpv4 ||| fReverse ||| fHosts ||| fImmortal) &&& fForward = 0 by decide)
        hforward
  · have heq' : e.addr = .addr4 a := by
      rcases HostsEntry.mem_records.mp hrec with ⟨name, -, rfl⟩ | rfl
      all_goals exact some.inj haddr
    rw [heq] at heq'
    cases heq'

theorem UpstreamReply.Writes.not_hosts {r : UpstreamReply} (h : r.Writes rec) :
    rec.flags &&& fHosts = 0 := by
  obtain ⟨outcome, staged, hcollect, rec', hrec', heq⟩ := h
  rw [heq]
  exact flags_of_collectRecords (by decide) hcollect rec' hrec'

variable {event : CacheEvent}

theorem CacheEvent.Writes.addressTyped (h : event.Writes rec) : AddressTyped rec := by
  cases event with
  | hosts f =>
    obtain ⟨line, -, e, hentry, hrec⟩ := h
    intro hkey
    rcases hostsEntry_spec hentry with ⟨ip, haddr, -, -⟩ | ⟨ip, -, hflag, -⟩
    · rcases HostsEntry.mem_records.mp hrec with ⟨name, -, rfl⟩ | rfl
      all_goals exact ⟨ip, congrArg some haddr⟩
    · rcases HostsEntry.mem_records.mp hrec with ⟨name, -, rfl⟩ | rfl
      · rw [hflag] at hkey
        exact absurd (show typeFlags (fIpv6 ||| fForward ||| fHosts ||| fImmortal)
          = fIpv4 from hkey) (by decide)
      · rw [hflag] at hkey
        exact absurd (show typeFlags (fIpv6 ||| fReverse ||| fHosts ||| fImmortal)
          = fIpv4 from hkey) (by decide)
  | reply r =>
    obtain ⟨outcome, staged, hcollect, rec', hrec', heq⟩ := h
    rw [heq]
    exact addressTyped_of_collectRecords hcollect rec' hrec'

/-! ### One event -/

theorem parseHostsLine_fst (line : Str) (ttl uid : UInt32) (now : Instant) (c : DnsCache M) :
    (parseHostsLine line ttl uid now c).1
      = ((hostsEntry line).toList.flatMap (·.records ttl uid now)).foldl DnsCache.insert c := by
  unfold parseHostsLine
  cases hostsEntry line with
  | none => rfl
  | some e => simp

theorem loadHostsFile_fst (text : Str) (ttl uid : UInt32) (now : Instant) (c : DnsCache M) :
    (loadHostsFile text ttl uid now c).1
      = ((lines text).flatMap fun line =>
        (hostsEntry line).toList.flatMap (·.records ttl uid now)).foldl DnsCache.insert c := by
  unfold loadHostsFile
  generalize (0 : ℕ) = n
  induction lines text generalizing c n with
  | nil => rfl
  | cons line rest ih =>
    rw [foldl_cons, ih, flatMap_cons, foldl_append, parseHostsLine_fst]

variable {c c' : DnsCache M}

theorem CacheEvent.apply_cases (h : event.apply c = some c') :
    ∃ (recs : List CacheRecord) (c₁ : DnsCache M), c' = recs.foldl DnsCache.insert c₁
      ∧ c₁.records = c.records ∧ c₁.maxSize = c.maxSize
      ∧ ∀ rec ∈ recs, event.Writes rec := by
  cases event with
  | hosts f =>
    obtain rfl := some.inj h
    refine ⟨_, c, loadHostsFile_fst _ _ _ _ c, rfl, rfl, fun rec hrec => ?_⟩
    obtain ⟨line, hline, hrec⟩ := mem_flatMap.mp hrec
    obtain ⟨entry, hentry, hrec⟩ := mem_flatMap.mp hrec
    exact ⟨line, hline, entry, mem_toList.mp hentry, hrec⟩
  | reply r =>
    obtain ⟨⟨c₂, outcome⟩, hextract, rfl⟩ := map_eq_some_iff.mp h
    rw [toOption_eq_some] at hextract
    obtain ⟨⟨outcome', staged⟩, hcollect, hcache⟩ := map_eq_ok.mp hextract
    cases staged with
    | none =>
      obtain ⟨rfl, -⟩ := Prod.mk.inj hcache
      exact ⟨[], c, rfl, rfl, rfl, by simp⟩
    | some staged =>
      by_cases hcommits : Commits r.packet.header
      · rw [extractAddresses_eq_insert hcollect hcommits] at hextract
        obtain ⟨rfl, -⟩ := Prod.mk.inj (Except.ok.inj hextract)
        refine ⟨_, c.startInsert, rfl, rfl, rfl, fun rec hrec => ?_⟩
        exact ⟨outcome', staged, hcollect, DnsCache.mem_committed hrec⟩
      · rw [Commits, not_not] at hcommits
        obtain ⟨rfl, -⟩ := Prod.mk.inj hcache
        exact ⟨[], c, if_pos hcommits, rfl, rfl, by simp⟩

/-! ### A run -/

variable [LawfulLru M CacheKey CacheRecord]

theorem CacheEvent.valid (hvalid : c.Valid) (h : event.apply c = some c') : c'.Valid := by
  obtain ⟨recs, c₁, rfl, hrecords, hsize, -⟩ := CacheEvent.apply_cases h
  have hvalid₁ : c₁.Valid := by
    refine ⟨?_, ?_⟩
    · rw [hrecords]
      exact hvalid.keyed
    · rw [hrecords, hsize]
      exact hvalid.capacity
  exact hvalid₁.foldl_insert recs

theorem CacheEvent.peek_apply (h : event.apply c = some c') (hrec : peek c'.records k = some rec) :
    peek c.records k = some rec ∨ event.Writes rec := by
  obtain ⟨recs, c₁, rfl, hrecords, -, hwrites⟩ := CacheEvent.apply_cases h
  rcases DnsCache.mem_of_peek_foldl_insert hrec with hold | hmem
  · rw [hrecords] at hold
    exact .inl hold
  · exact .inr (hwrites rec hmem)

variable {events : List CacheEvent}

omit [LawfulLru M CacheKey CacheRecord] in
theorem runEvents_cons :
    runEvents c (event :: events) = some c'
      ↔ ∃ c₁, event.apply c = some c₁ ∧ runEvents c₁ events = some c' := by
  unfold runEvents
  exact bind_eq_some_iff

theorem valid_of_runEvents (hvalid : c.Valid) (h : runEvents c events = some c') : c'.Valid := by
  induction events generalizing c with
  | nil =>
    obtain rfl := some.inj h
    exact hvalid
  | cons event events ih =>
    obtain ⟨c₁, hevent, hrest⟩ := runEvents_cons.mp h
    exact ih (CacheEvent.valid hvalid hevent) hrest

theorem peek_runEvents (h : runEvents c events = some c') (hrec : peek c'.records k = some rec) :
    peek c.records k = some rec ∨ ∃ event ∈ events, event.Writes rec := by
  induction events generalizing c with
  | nil =>
    obtain rfl := some.inj h
    exact .inl hrec
  | cons event events ih =>
    obtain ⟨c₁, hevent, hrest⟩ := runEvents_cons.mp h
    rcases ih hrest with hold | ⟨event', hmem, hwrites⟩
    · rcases CacheEvent.peek_apply hevent hold with hfirst | hwrites
      · exact .inl hfirst
      · exact .inr ⟨event, mem_cons_self, hwrites⟩
    · exact .inr ⟨event', mem_cons_of_mem _ hmem, hwrites⟩

/-- A record of a cache that was fresh at first was written by one of the events. -/
theorem writes_of_runEvents (hfresh : Fresh c) (h : runEvents c events = some c')
    (hrec : peek c'.records k = some rec) : ∃ event ∈ events, event.Writes rec := by
  rcases peek_runEvents h hrec with hold | hwrites
  · rw [hfresh.empty] at hold
    cases hold
  · exact hwrites

/-- **Every record of a cache has a source**: it is under its own key, was written by one of the
events that filled the cache, and holds an IPv4 address if it is a forward IPv4 record. -/
theorem sourced_of_runEvents (hfresh : Fresh c) (h : runEvents c events = some c')
    (hrec : peek c'.records k = some rec) :
    k = rec.key ∧ AddressTyped rec ∧ ∃ event ∈ events, event.Writes rec := by
  obtain ⟨event, hmem, hwrites⟩ := writes_of_runEvents hfresh h hrec
  exact ⟨(valid_of_runEvents hfresh.valid h).keyed k rec hrec, hwrites.addressTyped, event, hmem,
    hwrites⟩

/-- A record that an upstream reply has left. -/
theorem sourced_of_runEvents_reply :
    ∃ c rec, runEvents (roomFor 1) [.reply ⟨kelvinPacket, 0, {}⟩] = some c
      ∧ peek c.records ⟨['k'], fIpv4⟩ = some rec ∧ AddressTyped rec := by
  have hsome : (runEvents (roomFor 1) [.reply ⟨kelvinPacket, 0, {}⟩]).any fun c =>
      (peek c.records ⟨['k'], fIpv4⟩).isSome := by decide +kernel
  obtain ⟨c, hrun, hpeek⟩ := (any_eq_true _ _).mp hsome
  obtain ⟨rec, hrec⟩ := isSome_iff_exists.mp hpeek
  exact ⟨c, rec, hrun, hrec, (sourced_of_runEvents ⟨fun _ => rfl, rfl⟩ hrun hrec).2.1⟩

end DnsmasqRs.Rfc1035
