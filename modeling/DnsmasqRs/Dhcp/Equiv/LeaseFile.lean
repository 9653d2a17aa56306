import DnsmasqRs.Dhcp.LeaseFile
import DnsmasqRs.Dhcp.Equiv.LeaseTable
import DnsmasqRs.Dhcp.Equiv.Grant

/-!
# What survives a restart

A line of the lease file holds a `SavedLease`.  Not every lease can be written to a line so that it
is read back: one without a hardware address makes a line that is rejected, a hostname may have a
blank or a line feed or be the star that stands for none, an empty client ID and an expiry in the
first second of the epoch are read back as none (`SavedLease.Loadable`).  And the leases are put
into the table under new keys, where one that is under the placeholder may meet another.

`survivesRestart_iff` says that these are all the cases: every lease that is read from a file is
loadable (`loadable_of_deserialize`), and a file of loadable leases is read back
(`deserialize_serialize`).
-/

namespace DnsmasqRs.Dhcp

open Wire Utf8 NetText Text Fallible List Option

variable {db db' : LeaseDb} {l : DhcpLease} {order : LeaseDb.Entries}

/-- What the file says of a lease. -/
structure SavedLease where
  addr : Ipv4Addr
  hwaddr : Bytes
  hostname : Option Str
  clid : Option Bytes
  expires : Option ℕ
  deriving DecidableEq

/-- A lease, with its expiry in whole seconds. -/
def DhcpLease.saved (l : DhcpLease) : SavedLease where
  addr := l.addr
  hwaddr := l.hwaddr
  hostname := l.hostname
  clid := l.clid
  expires := l.expires.map wholeSecs

/-- The lease can be written to a line and read back.  Every `SystemTime` has less than 2^63
seconds. -/
structure SavedLease.Loadable (l : SavedLease) : Prop where
  hwaddr : l.hwaddr ≠ []
  hostname : ∀ name, l.hostname = some name → ' ' ∉ name ∧ '\n' ∉ name ∧ name ≠ ['*']
  clid : l.clid ≠ some []
  expires : ∀ secs, l.expires = some secs → 0 < secs ∧ secs < 2 ^ 63

theorem wholeSecs_fromSecs : wholeSecs (fromSecs n) = n := by
  unfold wholeSecs fromSecs
  omega

/-! ### What is read from a file -/

theorem orParseError_eq_ok : LeaseDb.orParseError lineNo message x = .ok a ↔ x = some a := by
  cases x <;> simp [LeaseDb.orParseError]

theorem ne_nil_of_parseHexColon (h : parseHexColon s = some b) : b ≠ [] := by
  rintro rfl
  unfold parseHexColon at h
  cases hs : s.splitOn ':' with
  | nil => exact splitOn_ne_nil ':' s hs
  | cons x xs =>
    rw [hs] at h
    simp [bind_eq_some_iff] at h

/-- The fields of a line: only the last one can have a blank. -/
theorem blank_not_mem_of_splitn {line a b c d e : Str} (h : splitn 5 ' ' line = [a, b, c, d, e]) :
    ' ' ∉ d := by
  apply not_mem_of_mem_dropLast_splitn (n := 5) (s := line)
  rw [h]
  simp

theorem loadable_of_readLease (hlf : '\n' ∉ line) (h : LeaseDb.readLease lineNo line = .ok l) :
    l.saved.Loadable := by
  unfold LeaseDb.readLease at h
  split at h
  · next expires ip hw hostname clid hparts =>
    obtain ⟨secs, -, h⟩ := bind_eq_ok.mp h
    obtain ⟨ip, -, h⟩ := bind_eq_ok.mp h
    obtain ⟨hwBytes, hhw, h⟩ := bind_eq_ok.mp h
    obtain ⟨clid', hclid, h⟩ := bind_eq_ok.mp h
    obtain ⟨expires', hexpires, h⟩ := bind_eq_ok.mp h
    obtain rfl := Except.ok.inj h
    constructor
    · have hne := ne_nil_of_parseHexColon (orParseError_eq_ok.mp hhw)
      simpa [DhcpLease.saved, dhcpChaddrMax] using hne
    · intro name hname
      split at hname
      · cases hname
      · next hstar =>
        obtain rfl := some.inj hname
        refine ⟨blank_not_mem_of_splitn hparts, ?_, hstar⟩
        intro hmem
        have hfield : hostname ∈ splitn 5 ' ' line := by
          rw [hparts]
          simp
        exact hlf (mem_of_mem_splitn hfield hmem)
    · intro hnil
      unfold LeaseDb.readClid at hclid
      split at hclid
      · cases hclid
        cases hnil
      · obtain ⟨b, hb, rfl⟩ := map_eq_ok.mp hclid
        exact ne_nil_of_parseHexColon (orParseError_eq_ok.mp hb) (some.inj hnil)
    · intro n hn
      unfold LeaseDb.expiryOfSecs at hexpires
      split at hexpires
      · obtain rfl := Except.ok.inj hexpires
        cases hn
      · split at hexpires
        · cases hexpires
        · obtain rfl := Except.ok.inj hexpires
          have hn : some (wholeSecs (fromSecs secs)) = some n := hn
          rw [wholeSecs_fromSecs] at hn
          obtain rfl := some.inj hn
          omega
  · cases h

/-- **Every lease that was read from a file is loadable**. -/
theorem loadable_of_deserialize (h : LeaseDb.deserialize text = .ok db) :
    db.store.All fun l => l.saved.Loadable := by
  have hfold (ls : List (Str × ℕ)) (hls : ∀ l ∈ ls, '\n' ∉ l.1) (db₀ : LeaseDb)
      (h₀ : db₀.store.All fun l => l.saved.Loadable)
      (h : ls.foldlM (fun db line => LeaseDb.loadLine db (line.2 + 1) line.1) db₀ = .ok db) :
      db.store.All fun l => l.saved.Loadable := by
    induction ls generalizing db₀ with
    | nil =>
      obtain rfl := Except.ok.inj h
      exact h₀
    | cons line ls ih =>
      rw [foldlM_cons] at h
      obtain ⟨db₁, hline, h⟩ := bind_eq_ok.mp h
      refine ih (fun l hl => hls l (mem_cons_of_mem _ hl)) db₁ ?_ h
      unfold LeaseDb.loadLine at hline
      split at hline
      · obtain rfl := Except.ok.inj hline
        exact h₀
      · obtain ⟨lease, hread, rfl⟩ := map_eq_ok.mp hline
        apply h₀.insertRaw
        refine loadable_of_readLease (fun hmem => ?_) hread
        exact hls line mem_cons_self (mem_of_mem_trim hmem)
  refine hfold _ ?_ LeaseDb.new Indexed.all_empty h
  intro l hl
  exact newline_not_mem_of_mem_lines (fst_mem_of_mem_zipIdx hl)

/-! ### The characters of a line -/

variable {c : Char}

theorem plain_of_mem_decimal (h : c ∈ decimal n) : isWhitespace c = false := by
  have hdigit := isDigit_of_mem_decimal h
  have hc : '0' ≤ c ∧ c ≤ '9' :=
    Bool.and_eq_true_iff.mp hdigit |>.imp of_decide_eq_true of_decide_eq_true
  have hge : 48 ≤ c.toNat := hc.1
  have hle : c.toNat ≤ 57 := hc.2
  exact isWhitespace_eq_false (by omega) (by omega)

theorem mem_intercalate {c sep : Char} (h : c ∈ [sep].intercalate ls) :
    c = sep ∨ ∃ l ∈ ls, c ∈ l := by
  induction ls with
  | nil => cases h
  | cons l ls ih =>
    cases ls with
    | nil => exact .inr ⟨l, mem_cons_self, by simpa using h⟩
    | cons l' ls =>
      rw [intercalate_cons_cons, mem_append, mem_append, mem_singleton] at h
      rcases h with (h | rfl) | h
      · exact .inr ⟨l, mem_cons_self, h⟩
      · exact .inl rfl
      · exact (ih h).imp_right fun ⟨l, hl, hc⟩ => ⟨l, mem_cons_of_mem _ hl, hc⟩

theorem plain_of_mem_formatIpv4 (h : c ∈ formatIpv4 a) : isWhitespace c = false := by
  rcases mem_intercalate h with rfl | ⟨l, hl, hc⟩
  · rfl
  · obtain ⟨n, -, rfl⟩ := mem_map.mp hl
    exact plain_of_mem_decimal hc

/-- The two digits of a byte are neither whitespace nor one of the separators. -/
theorem plain_of_mem_hexByte (h : c ∈ hexByte b) : isWhitespace c = false ∧ c ≠ ':' ∧ c ≠ '*' := by
  have hall : ∀ n : Fin 16, isWhitespace (Nat.digitChar n) = false ∧ Nat.digitChar n ≠ ':'
      ∧ Nat.digitChar n ≠ '*' := by decide
  have hb := b.toNat_lt
  rcases mem_pair.mp h with rfl | rfl
  · exact hall ⟨b.toNat / 16, by omega⟩
  · exact hall ⟨b.toNat % 16, by omega⟩

theorem plain_of_mem_hexColon (h : c ∈ hexColon b) : isWhitespace c = false ∧ c ≠ '*' := by
  rcases mem_intercalate h with rfl | ⟨l, hl, hc⟩
  · exact ⟨rfl, by decide⟩
  · obtain ⟨n, -, rfl⟩ := mem_map.mp hl
    exact ⟨(plain_of_mem_hexByte hc).1, (plain_of_mem_hexByte hc).2.2⟩

theorem plain_of_mem_formatClid (h : c ∈ LeaseDb.formatClid clid) : isWhitespace c = false := by
  have hstar (hc : c ∈ ['*']) : isWhitespace c = false := by
    obtain rfl := mem_singleton.mp hc
    rfl
  unfold LeaseDb.formatClid at h
  split at h
  · split at h
    · exact hstar h
    · exact (plain_of_mem_hexColon h).1
  · exact hstar h

/-! ### What is written is read back -/

theorem parseIpv4Addr_formatIpv4 : Cache.parseIpv4Addr (formatIpv4 a) = some a := by
  obtain ⟨⟨⟨octets⟩, hsize⟩⟩ := a
  obtain ⟨x, y, z, w, rfl⟩ : ∃ x y z w, octets = [x, y, z, w] := by
    match octets, hsize with
    | [x, y, z, w], _ => exact ⟨x, y, z, w, rfl⟩
  have hread := parseIpv4_dotted x.toNat_lt y.toNat_lt z.toNat_lt w.toNat_lt
  show (parseIpv4 (dotted [x.toNat, y.toNat, z.toNat, w.toNat])).bind _ = _
  rw [hread, bind_some]
  simp only [map_cons, map_nil, UInt8.ofNat_toNat]
  rfl

theorem parseHexColon_hexColon (h : b ≠ []) : parseHexColon (hexColon b) = some b := by
  have hsplit : (hexColon b).splitOn ':' = b.map hexByte := by
    apply splitOn_intercalate
    · intro l hl
      obtain ⟨x, -, rfl⟩ := mem_map.mp hl
      exact fun hmem => (plain_of_mem_hexByte hmem).2.1 rfl
    · simpa using h
  have hbytes (b : Bytes) :
      (b.map hexByte).mapM (fun h => (parseUint 16 256 h).map UInt8.ofNat) = some b := by
    induction b with
    | nil => rfl
    | cons x b ih =>
      rw [map_cons, mapM_cons, ih, parseUint_hexByte]
      rfl
  rw [parseHexColon, hsplit, hbytes]

theorem readClid_formatClid (h : clid ≠ some []) :
    LeaseDb.readClid lineNo (LeaseDb.formatClid clid) = .ok clid := by
  cases clid with
  | none => rfl
  | some c =>
    have hc : c ≠ [] := fun hnil => h (congrArg some hnil)
    have hstar : hexColon c ≠ ['*'] := by
      intro heq
      have hmem : '*' ∈ hexColon c := heq ▸ mem_singleton_self _
      exact (plain_of_mem_hexColon hmem).2 rfl
    rw [LeaseDb.formatClid, if_neg hc, LeaseDb.readClid, if_neg hstar, parseHexColon_hexColon hc]
    rfl

theorem expiryOfSecs_elim {expires : Option SystemTime}
    (h : ∀ secs, expires.map wholeSecs = some secs → 0 < secs ∧ secs < 2 ^ 63) :
    LeaseDb.expiryOfSecs (expires.elim 0 wholeSecs)
      = .ok (expires.map fun t => fromSecs (wholeSecs t)) := by
  cases expires with
  | none => rfl
  | some t =>
    obtain ⟨hpos, hlt⟩ := h (wholeSecs t) rfl
    show LeaseDb.expiryOfSecs (wholeSecs t) = _
    rw [LeaseDb.expiryOfSecs, if_neg hpos.ne', if_neg (Nat.not_le.mpr hlt)]
    rfl

/-- The lease that is read for a lease. -/
def restored (l : DhcpLease) : DhcpLease where
  clid := l.clid
  hostname := l.hostname
  expires := l.expires.map fun t => fromSecs (wholeSecs t)
  hwaddr := l.hwaddr
  hwaddrType := 1
  addr := l.addr

theorem saved_restored : (restored l).saved = l.saved := by
  have hsecs : (fun t => wholeSecs (fromSecs (wholeSecs t))) = wholeSecs := by
    ext t
    exact wholeSecs_fromSecs
  simp only [DhcpLease.saved, restored, Option.map_map, Function.comp_def, hsecs]

theorem secs_lt_of_loadable (h : l.saved.Loadable) : l.expires.elim 0 wholeSecs < 2 ^ 64 := by
  cases hexp : l.expires with
  | none => decide
  | some t =>
    have := (h.expires (wholeSecs t) (by rw [DhcpLease.saved, hexp]; rfl)).2
    show wholeSecs t < 2 ^ 64
    omega

/-- **The line of a loadable lease is read back**. -/
theorem readLease_leaseLine (h : l.saved.Loadable) (hlen : l.hwaddr.length ≤ dhcpChaddrMax) :
    LeaseDb.readLease lineNo (LeaseDb.leaseLine l) = .ok (restored l) := by
  have hblank {s : Str} (hs : ∀ c ∈ s, isWhitespace c = false) : ' ' ∉ s :=
    fun hmem => nomatch hs _ hmem
  have hname : ' ' ∉ l.hostname.getD ['*'] := by
    cases hn : l.hostname with
    | none => decide
    | some name => exact (h.hostname name hn).1
  have hparts :
      splitn 5 ' ' (LeaseDb.leaseLine l) = [decimal (l.expires.elim 0 wholeSecs), formatIpv4 l.addr,
      hexColon l.hwaddr, l.hostname.getD ['*'], LeaseDb.formatClid l.clid] := by
    unfold LeaseDb.leaseLine
    rw [splitn_cons (hblank fun c => plain_of_mem_decimal),
      splitn_cons (hblank fun c => plain_of_mem_formatIpv4),
      splitn_cons (hblank fun c hc => (plain_of_mem_hexColon hc).1), splitn_cons hname]
    rfl
  have hhost :
      (if l.hostname.getD ['*'] = ['*'] then none else some (l.hostname.getD ['*']))
        = l.hostname := by
    cases hn : l.hostname with
    | none => rfl
    | some name => exact if_neg (h.hostname name hn).2.2
  unfold LeaseDb.readLease
  rw [hparts]
  -- each field is read, and then the lease is put together
  refine bind_eq_ok.mpr ⟨_, orParseError_eq_ok.mpr (parseUint_decimal (secs_lt_of_loadable h)), ?_⟩
  refine bind_eq_ok.mpr ⟨_, orParseError_eq_ok.mpr (parseIpv4Addr_formatIpv4), ?_⟩
  refine bind_eq_ok.mpr ⟨_, orParseError_eq_ok.mpr (parseHexColon_hexColon h.hwaddr), ?_⟩
  refine bind_eq_ok.mpr ⟨_, readClid_formatClid h.clid, ?_⟩
  refine bind_eq_ok.mpr ⟨_, expiryOfSecs_elim h.expires, ?_⟩
  rw [hhost, take_of_length_le hlen]
  rfl

/-! ### Lines -/

theorem formatClid_ne_nil : LeaseDb.formatClid clid ≠ [] := by
  unfold LeaseDb.formatClid
  split
  · split
    · exact cons_ne_nil _ _
    · next hc =>
      obtain ⟨x, c, rfl⟩ := exists_cons_of_ne_nil hc
      cases c <;> simp [hexColon, hexByte, intercalate_cons_cons]
  · exact cons_ne_nil _ _

theorem getLast?_leaseLine (h : (LeaseDb.leaseLine l).getLast? = some c) :
    isWhitespace c = false := by
  obtain ⟨front, hfront⟩ : ∃ front, LeaseDb.leaseLine l = front ++ LeaseDb.formatClid l.clid :=
    ⟨decimal (l.expires.elim 0 wholeSecs) ++ ' ' :: (formatIpv4 l.addr ++ ' ' ::
      (hexColon l.hwaddr ++ ' ' :: (l.hostname.getD ['*'] ++ [' ']))), by simp [LeaseDb.leaseLine]⟩
  have hmem : c ∈ LeaseDb.formatClid l.clid := by
    apply mem_of_getLast?
    rw [← h, hfront, getLast?_append_of_ne_nil _ (formatClid_ne_nil)]
  exact plain_of_mem_formatClid hmem

theorem head?_leaseLine (h : (LeaseDb.leaseLine l).head? = some c) : isWhitespace c = false := by
  apply plain_of_mem_decimal (n := l.expires.elim 0 wholeSecs)
  apply mem_of_head?
  rw [← h, LeaseDb.leaseLine, head?_append_of_ne_nil _ (decimal_ne_nil)]

theorem newline_not_mem_leaseLine (h : l.saved.Loadable) : '\n' ∉ LeaseDb.leaseLine l := by
  have hname : '\n' ∉ l.hostname.getD ['*'] := by
    cases hn : l.hostname with
    | none => decide
    | some name => exact (h.hostname name hn).2.1
  unfold LeaseDb.leaseLine
  simp only [mem_append, mem_cons, not_or]
  have hlf {s : Str} (hs : ∀ c ∈ s, isWhitespace c = false) : '\n' ∉ s :=
    fun hmem => nomatch hs _ hmem
  exact ⟨hlf fun c => plain_of_mem_decimal, by decide, hlf fun c =>
    plain_of_mem_formatIpv4, by decide,
    hlf fun c hc => (plain_of_mem_hexColon hc).1, by decide, hname, by decide,
    hlf fun c => plain_of_mem_formatClid⟩

theorem loadLine_leaseLine (h : l.saved.Loadable) (hlen : l.hwaddr.length ≤ dhcpChaddrMax) :
    LeaseDb.loadLine db lineNo (LeaseDb.leaseLine l) = .ok (db.insert (restored l)) := by
  have htrim : trim (LeaseDb.leaseLine l) = LeaseDb.leaseLine l :=
    trim_eq_self (fun c => head?_leaseLine) (fun c => getLast?_leaseLine)
  have hne : LeaseDb.leaseLine l ≠ [] := by
    unfold LeaseDb.leaseLine
    simp
  rw [LeaseDb.loadLine, htrim, if_neg hne, readLease_leaseLine h hlen]
  rfl

/-- The leases can all be written to a file and read back. -/
def AllLoadable (order : LeaseDb.Entries) : Prop :=
  ∀ e ∈ order, e.2.saved.Loadable ∧ e.2.hwaddr.length ≤ dhcpChaddrMax

/-- **A file of loadable leases is read back** into a table where each is under its own key. -/
theorem deserialize_serialize (h : AllLoadable order) :
    ∃ db, LeaseDb.deserialize (LeaseDb.serialize order) = .ok db
      ∧ db.store
        = Indexed.empty.insertAll leaseAddr leaseKey (order.map fun e => restored e.2) := by
  have hfold (es : LeaseDb.Entries) (hes : AllLoadable es) (db : LeaseDb) (n : ℕ) :
      ((es.map fun e => LeaseDb.leaseLine e.2).zipIdx n).foldlM
        (fun db line => LeaseDb.loadLine db (line.2 + 1) line.1) db =
      .ok ((es.map fun e => restored e.2).foldl LeaseDb.insert db) := by
    induction es generalizing db n with
    | nil => rfl
    | cons e es ih =>
      obtain ⟨hload, hlen⟩ := hes e mem_cons_self
      rw [map_cons, zipIdx_cons, foldlM_cons, loadLine_leaseLine hload hlen]
      exact ih (fun e' he' => hes e' (mem_cons_of_mem _ he')) _ _
  have hstore (ls : List DhcpLease) (db : LeaseDb) :
      (ls.foldl LeaseDb.insert db).store = db.store.insertAll leaseAddr leaseKey ls := by
    induction ls generalizing db with
    | nil => rfl
    | cons l ls ih => exact ih (db.insert l)
  have hlines : lines (LeaseDb.serialize order) = order.map fun e => LeaseDb.leaseLine e.2 := by
    rw [LeaseDb.serialize, ← flatMap_map _ (fun l => l ++ ['\n']), lines_flatMap]
    · intro l hl
      obtain ⟨e, he, rfl⟩ := mem_map.mp hl
      exact newline_not_mem_leaseLine (h e he).1
    · intro l hl hcr
      obtain ⟨e, -, rfl⟩ := mem_map.mp hl
      exact nomatch getLast?_leaseLine hcr
  refine ⟨_, ?_, hstore _ LeaseDb.new⟩
  rw [LeaseDb.deserialize, hlines]
  exact hfold order h LeaseDb.new 0

/-! ### Restarts -/

/-- A property of the leases that dispatches keep holds of all of them. -/
theorem Reachable.all (hp : Carried p) (h : Reachable db) : db.store.All p := by
  obtain ⟨n, hrun⟩ := h
  have hboth : Ok db.store ∧ db.store.All p := by
    apply hrun.invariant (I := fun db => Ok db.store ∧ db.store.All p) ⟨ok_empty, Indexed.all_empty⟩
    rintro db ev db' ⟨hok, hall⟩ _ hstep
    obtain ⟨outcome, hout, rfl⟩ := map_eq_some_iff.mp hstep
    have heffect := effect_of_dispatch (toOption_eq_some.mp hout)
    refine ⟨heffect.ok hok, ?_⟩
    cases heffect with
    | idle => exact hall
    | giveUp _ _ _ =>
      intro k l hl
      rw [get_removeByAddr hok] at hl
      split at hl
      · cases hl
      · exact hall k l hl
    | grant secs _ _ _ hrec =>
      rw [hrec]
      split
      · exact hp.recordLease hall _ _ _ _ secs _
      · exact hall
  exact hboth.2

theorem carried_length_hwaddr : Carried fun l => l.hwaddr.length ≤ dhcpChaddrMax where
  fresh _ := Nat.zero_le _
  withHwaddr hwaddr hwType l hlen _ := by
    rw [(withHwaddr_spec hwaddr hwType l).1]
    exact hlen
  withClid _ _ h := h
  dropHostname _ h := h
  withHostname name auth l h := by
    rw [(kept_withHostname name auth l).hwaddr]
    exact h
  withExpires _ _ h := h

/-- **The leases survive a restart**: the file that is written is read back, and the result has the
same leases. -/
def SurvivesRestart (db : LeaseDb) (order : LeaseDb.Entries) : Prop :=
  ∃ db', LeaseDb.deserialize (LeaseDb.serialize order) = .ok db'
    ∧ (db'.store.values.map DhcpLease.saved).Perm (db.store.values.map DhcpLease.saved)

/-- Every lease can be written and read back, and no two of them are read back to the same key. -/
structure Restorable (db : LeaseDb) : Prop where
  loadable : db.store.All fun l => l.saved.Loadable
  keys : ∀ k k' l l', db.store.get k = some l → db.store.get k' = some l' →
    leaseKey l = leaseKey l' → k = k'

theorem loadable_of_survives (h : SurvivesRestart db order) :
    db.store.All fun l => l.saved.Loadable := by
  obtain ⟨db', hload, hperm⟩ := h
  intro k l hl
  -- the lease is in the file, so one like it was read
  have hmem : l.saved ∈ db.store.values.map DhcpLease.saved :=
    mem_map_of_mem (mem_map.mpr ⟨⟨k, l⟩, AList.mem_lookup_iff.mp hl, rfl⟩)
  obtain ⟨l', hl', hsaved⟩ := mem_map.mp (hperm.mem_iff.mpr hmem)
  obtain ⟨e, he, rfl⟩ := mem_map.mp hl'
  rw [← hsaved]
  exact loadable_of_deserialize hload e.1 e.2 (AList.mem_lookup_iff.mpr he)

/-- **Leases survive a restart** exactly if each can be written and read back and no two are read
back to the same key. -/
theorem survivesRestart_iff (hreach : Reachable db) (horder : db.Iterates order) :
    SurvivesRestart db order ↔ Restorable db := by
  have hall (hload : db.store.All fun l => l.saved.Loadable) : AllLoadable order := by
    intro e he
    have hget := horder.mem_iff_get.mp he
    exact ⟨hload e.1 e.2 hget, hreach.all carried_length_hwaddr e.1 e.2 hget⟩
  have hkey : (order.map fun e => restored e.2).map leaseKey = order.map fun e => leaseKey e.2 := by
    rw [List.map_map]
    rfl
  have hsaved :
      ((order.map fun e => restored e.2).map DhcpLease.saved)
        = (order.map (·.2)).map DhcpLease.saved := by
    rw [List.map_map, List.map_map]
    exact map_congr_left fun e _ => saved_restored
  constructor
  · intro hsurv
    have hload := loadable_of_survives hsurv
    refine ⟨hload, ?_⟩
    obtain ⟨db', hdb', hperm⟩ := hsurv
    obtain ⟨db'', hdb'', hstore⟩ := deserialize_serialize (hall hload)
    obtain rfl := Except.ok.inj (hdb'.symm.trans hdb'')
    have hlen : db'.store.entries.entries.length = (order.map fun e => restored e.2).length := by
      have := hperm.length_eq
      simp only [Indexed.values, length_map] at this ⊢
      rw [this, horder.length_eq]
    rw [hstore] at hlen
    have hnodup := Indexed.nodup_of_length_insertAll hlen
    rw [hkey] at hnodup
    intro k k' l l' hl hl' heq
    have he := horder.mem_iff_get (e := ⟨k, l⟩).mpr hl
    have he' := horder.mem_iff_get (e := ⟨k', l'⟩).mpr hl'
    exact congrArg Sigma.fst (inj_on_of_nodup_map hnodup he he' heq)
  · intro hrest
    obtain ⟨db', hdb', hstore⟩ := deserialize_serialize (hall hrest.loadable)
    refine ⟨db', hdb', ?_⟩
    have hnodup : ((order.map fun e => restored e.2).map leaseKey).Nodup := by
      rw [hkey]
      apply List.Nodup.map_on _ (List.Nodup.of_map _ horder.nodup)
      rintro ⟨k, l⟩ he ⟨k', l'⟩ he' heq
      have hl := horder.mem_iff_get.mp he
      have hl' := horder.mem_iff_get.mp he'
      obtain rfl := hrest.keys k k' l l' hl hl' heq
      obtain rfl := some.inj (hl.symm.trans hl')
      rfl
    have hentries : ((Indexed.empty : Leases).insertAll leaseAddr leaseKey
        (order.map fun e => restored e.2)).entries.entries.Perm _ :=
      Indexed.entries_insertAll (fun v _ => AList.notMem_empty (leaseKey v)) hnodup
    have hvalues : db'.store.values.Perm (order.map fun e => restored e.2) := by
      rw [hstore]
      refine (hentries.map Sigma.snd).trans ?_
      rw [Indexed.empty, AList.empty_entries, List.append_nil, List.map_map]
      exact List.Perm.of_eq (map_id _)
    refine (hvalues.map DhcpLease.saved).trans ?_
    rw [hsaved]
    exact (List.Perm.map Sigma.snd horder).map DhcpLease.saved

theorem survivesRestart_iff_sampleRequest : ∃ db order, Reachable db ∧ db.Iterates order
    ∧ (SurvivesRestart db order ↔ Restorable db) := by
  obtain ⟨db, hdb⟩ := isSome_iff_exists.mp (show (afterRequests [(1, 10)]).isSome by decide +kernel)
  have hreach : Reachable db := reachable_of_run hdb
  exact ⟨db, db.store.entries.entries, hreach, List.Perm.refl _,
    survivesRestart_iff hreach (List.Perm.refl _)⟩

/-- A client without a hardware address gets a lease, and the file cannot be read any more. -/
theorem not_survivesRestart_hlen_zero :
    ∃ db order, Reachable db ∧ db.Iterates order ∧ ¬ SurvivesRestart db order := by
  have hrun :
      (([⟨{ sampleRequest 1 10 with hlen := 0 }, sampleConfig, {}⟩] : List Event).foldlM step
      LeaseDb.new).any (fun db => (LeaseDb.deserialize
        (LeaseDb.serialize db.store.entries.entries)).toOption.isNone) := by decide +kernel
  obtain ⟨db, hdb, hnone⟩ := (any_eq_true _ _).mp hrun
  refine ⟨db, db.store.entries.entries, reachable_of_run hdb, List.Perm.refl _, ?_⟩
  rintro ⟨db', hload, -⟩
  rw [hload] at hnone
  cases hnone

end DnsmasqRs.Dhcp
