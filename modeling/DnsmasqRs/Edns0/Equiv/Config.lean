import DnsmasqRs.Edns0.Config

/-!
# Cacheable answers and the options of the query

An answer that may be cached is given to every client, so the query it answers should not tell
clients apart.  `add_client_subnet` sets the flag from the subnet alone and forgets what the earlier
helpers said: with a constant subnet, or none, a query that carries the client's MAC address or its
Umbrella identification counts as cacheable.

`cacheSafe_iff` is exact.  Each helper changes the options of its own code only, so the final list
determines what each of them added, and is determined by it.
-/

namespace DnsmasqRs.Edns0

open Wire Utf8 List

/-- The options of one code. -/
def ofCode (code : UInt16) (options : List Edns0Option) : List Edns0Option :=
  options.filter (·.code = code)

variable {code : UInt16} {options : List Edns0Option} {data : Option Bytes}

theorem ofCode_append : ofCode code (l₁ ++ l₂) = ofCode code l₁ ++ ofCode code l₂ :=
  filter_append ..

theorem any_code_iff : options.any (·.code == code) ↔ ofCode code options ≠ [] := by
  simp [ofCode, filter_eq_nil_iff]

@[simp] theorem ofCode_optionOf : ofCode code (optionOf code data) = optionOf code data := by
  cases data <;> simp [ofCode, optionOf]

variable {other : UInt16}

theorem ofCode_optionOf_ne (h : code ≠ other) : ofCode other (optionOf code data) = [] := by
  cases data <;> simp [ofCode, optionOf, h]

@[simp] theorem ofCode_filter_ne : ofCode code (options.filter (·.code ≠ code)) = [] := by
  simp [ofCode, filter_filter]

theorem ofCode_filter_of_ne (h : code ≠ other) :
    ofCode other (options.filter (·.code ≠ code)) = ofCode other options := by
  unfold ofCode
  rw [filter_filter]
  apply filter_congr
  intro o _
  by_cases ho : o.code = other
  · simp [ho, Ne.symm h]
  · simp [ho]

theorem optionOf_injective : Function.Injective (optionOf code) := by
  intro a b h
  cases a <;> cases b <;> simp_all [optionOf]

theorem ofCode_upsertOption_ne (h : code ≠ other) :
    ofCode other (upsertOption options code data mode) = ofCode other options := by
  cases mode with
  | addIfAbsent =>
    dsimp only [upsertOption]
    split
    · rfl
    · rw [ofCode_append, ofCode_optionOf_ne h, append_nil]
  | replace =>
    show ofCode other (_ ++ _) = _
    rw [ofCode_append, ofCode_filter_of_ne h, ofCode_optionOf_ne h, append_nil]
  | replaceOnly => exact ofCode_filter_of_ne h

theorem ofCode_replace :
    ofCode code (upsertOption options code data .replace) = optionOf code data := by
  show ofCode code (_ ++ _) = _
  rw [ofCode_append, ofCode_filter_ne, ofCode_optionOf, nil_append]

/-! ### What identifies a client -/

/-- The data that goes into the query: without stripping, an option the client sent is kept. -/
def shown (code : UInt16) (stripMac : Bool) (options : List Edns0Option) (found : Option Bytes) :
    Option Bytes :=
  if stripMac ∨ ofCode code options = [] then found else none

variable {stripMac : Bool} {found : Option Bytes}

theorem shown_congr (h : ofCode code l₁ = ofCode code l₂)
    (found : Option Bytes) : shown code stripMac l₁ found = shown code stripMac l₂ found := by
  unfold shown
  rw [h]

theorem addIdentity_fst : (addIdentity code found stripMac options cacheable).1 =
      (if stripMac then options.filter (·.code ≠ code) else options)
        ++ optionOf code (shown code stripMac options found) := by
  unfold addIdentity shown
  cases found with
  | none => cases stripMac <;> simp [upsertOption, optionOf]
  | some d =>
    cases stripMac with
    | true => simp [upsertOption]
    | false =>
      by_cases hnil : ofCode code options = []
      · have hany : options.any (·.code == code) = false := by
          rw [Bool.eq_false_iff, ne_eq, any_code_iff, not_not]
          exact hnil
        simp [upsertOption, hany, hnil]
      · simp [upsertOption, any_code_iff.mpr hnil, hnil, optionOf]

theorem ofCode_addIdentity_ne (h : code ≠ other) :
    ofCode other (addIdentity code found stripMac options cacheable).1 = ofCode other options := by
  rw [addIdentity_fst, ofCode_append, ofCode_optionOf_ne h, append_nil]
  split
  · exact ofCode_filter_of_ne h
  · rfl

theorem addIdentity_fst_eq_iff (c c' : Bool) :
    (addIdentity code found stripMac options c).1 = (addIdentity code found' stripMac options c').1
      ↔ shown code stripMac options found = shown code stripMac options found' := by
  rw [addIdentity_fst, addIdentity_fst, append_cancel_left_eq]
  exact (optionOf_injective).eq_iff

/-- The options of the code say what was shown. -/
theorem shown_eq_of_ofCode_eq
    (hl : ofCode code l = ofCode code l') (h : ofCode code (addIdentity code found stripMac l c).1 =
      ofCode code (addIdentity code found' stripMac l' c').1) :
    shown code stripMac l found = shown code stripMac l' found' := by
  have hbase : ofCode code (if stripMac then l.filter (·.code ≠ code) else l) =
      ofCode code (if stripMac then l'.filter (·.code ≠ code) else l') := by
    cases stripMac
    · exact hl
    · exact ofCode_filter_ne.trans ofCode_filter_ne.symm
  rw [addIdentity_fst, addIdentity_fst, ofCode_append, ofCode_append, hbase, append_cancel_left_eq,
    ofCode_optionOf, ofCode_optionOf] at h
  exact optionOf_injective h

theorem addIdentity_eq : addIdentity code found stripMac options cacheable =
      ((addIdentity code found stripMac options true).1, found.isNone && cacheable) := by
  unfold addIdentity
  cases found <;> cases stripMac <;> simp

/-- Addresses of one family. -/
def SameFamily (a b : IpAddr) : Prop := (familyOctets a).1 = (familyOctets b).1

theorem umbrellaAddress_length {a b : IpAddr} (h : SameFamily a b) :
    (umbrellaAddress a).length = (umbrellaAddress b).length := by
  cases a <;> cases b <;> simp_all [SameFamily, familyOctets, umbrellaAddress, be16]

theorem umbrellaAddress_injective {a b : IpAddr} (h : SameFamily a b)
    (heq : umbrellaAddress a = umbrellaAddress b) : a = b := by
  match a, b, h with
  | .v4 x, .v4 y, _ =>
    have hxy : x.octets.toList = y.octets.toList := append_cancel_left heq
    rw [IpAddr.v4.injEq, Ipv4Addr.mk.injEq]
    exact Vector.toList_inj.mp hxy
  | .v6 x, .v6 y, _ =>
    have hxy : x.octets.toList = y.octets.toList := append_cancel_left heq
    rw [IpAddr.v6.injEq, Ipv6Addr.mk.injEq]
    exact Vector.toList_inj.mp hxy

theorem umbrellaPayload_eq_iff {a b : IpAddr} (h : SameFamily a b) :
    umbrellaPayload a cfg = umbrellaPayload b cfg ↔ a = b := by
  constructor
  · intro heq
    unfold umbrellaPayload at heq
    simp only [append_assoc, append_cancel_left_eq] at heq
    exact umbrellaAddress_injective h (append_inj_left heq (umbrellaAddress_length h))
  · rintro rfl
    rfl

/-- A client as `add_edns0_config` sees it. -/
structure Client where
  source : IpAddr
  mac : Option Bytes
  deriving DecidableEq

/-- The queries of two clients carry the same MAC address, device ID and address, as far as they
carry any. -/
structure Alike (existing : List Edns0Option) (cfg : Edns0QueryConfig) (a b : Client) : Prop where
  mac : shown edns0OptionMac cfg.stripMac existing (macData a.mac cfg.addMac) =
    shown edns0OptionMac cfg.stripMac existing (macData b.mac cfg.addMac)
  device :
    shown edns0OptionNomdeviceid cfg.stripMac existing (deviceId a.mac cfg.macB64 cfg.macHex) =
    shown edns0OptionNomdeviceid cfg.stripMac existing (deviceId b.mac cfg.macB64 cfg.macHex)
  umbrella : cfg.umbrella → a.source = b.source

/-! ### The whole list -/

variable (existing : List Edns0Option) (cfg : Edns0QueryConfig) (client : Client)

/-- The options after `add_mac`. -/
def withMac : List Edns0Option :=
  (addMac existing client.mac cfg.addMac cfg.stripMac true).1

/-- The options after `add_dns_client`. -/
def withDevice : List Edns0Option :=
  (addDnsClient (withMac existing cfg client) client.mac cfg.macB64 cfg.macHex cfg.stripMac true).1

/-- The options after the fixed client ID. -/
def withClientId (options : List Edns0Option) : List Edns0Option :=
  match cfg.dnsClientId with
  | some id => upsertOption options edns0OptionNomcpeid (some (bytes id)) .replace
  | none => options

/-- The options after `add_umbrella_opt`. -/
def withUmbrella : List Edns0Option :=
  let options := withClientId cfg (withDevice existing cfg client)
  if cfg.umbrella then
    upsertOption options edns0OptionUmbrella (some (umbrellaPayload client.source cfg)) .replace
  else options

/-- Nothing of the client is sent before the subnet. -/
def anonymous : Bool :=
  (macData client.mac cfg.addMac).isNone && (deviceId client.mac cfg.macB64 cfg.macHex).isNone
    && !cfg.umbrella

/-- `add_edns0_config` in two parts: the identifying options, and the subnet with the flag as the
first part left it. -/
theorem addEdns0Config_eq : addEdns0Config existing client.source client.mac cfg =
      addClientSubnet (withUmbrella existing cfg client) client.source cfg.clientSubnet cfg.stripEcs
        cfg.addSubnet4 cfg.addSubnet6 (anonymous cfg client) := by
  have hmac : addMac existing client.mac cfg.addMac cfg.stripMac true =
      (withMac existing cfg client, (macData client.mac cfg.addMac).isNone) := by
    unfold withMac addMac
    rw [addIdentity_eq, Bool.and_true]
  have hdevice (c : Bool) :
      addDnsClient (withMac existing cfg client) client.mac cfg.macB64 cfg.macHex cfg.stripMac c =
        (withDevice existing cfg client, (deviceId client.mac cfg.macB64 cfg.macHex).isNone
          && c) := by
    unfold withDevice addDnsClient
    rw [addIdentity_eq]
  unfold addEdns0Config
  rw [hmac]
  dsimp only
  rw [hdevice]
  unfold withUmbrella anonymous addUmbrellaOpt withClientId
  cases cfg.umbrella
  · rw [Bool.and_comm (deviceId client.mac cfg.macB64 cfg.macHex).isNone, Bool.not_false,
      Bool.and_true]
    rfl
  · rw [Bool.not_true, Bool.and_false]
    rfl

variable {existing cfg} {a b : Client}

theorem ofCode_withClientId (h : edns0OptionNomcpeid ≠ other) :
    ofCode other (withClientId cfg options) = ofCode other options := by
  unfold withClientId
  split
  · exact ofCode_upsertOption_ne h
  · rfl

theorem ofCode_withUmbrella (hid : edns0OptionNomcpeid ≠ other)
    (humbrella : edns0OptionUmbrella ≠ other) (client : Client) :
    ofCode other (withUmbrella existing cfg client)
      = ofCode other (withDevice existing cfg client) := by
  unfold withUmbrella
  split
  · rw [ofCode_upsertOption_ne humbrella, ofCode_withClientId hid]
  · exact ofCode_withClientId hid

/-- The options of the device ID are those of the query when `add_dns_client` runs. -/
theorem ofCode_withMac (client : Client) :
    ofCode edns0OptionNomdeviceid (withMac existing cfg client)
      = ofCode edns0OptionNomdeviceid existing :=
  ofCode_addIdentity_ne (by decide)

theorem alike_of_ofCode_eq (hfam : SameFamily a.source b.source)
    (h : ∀ code, edns0OptionClientSubnet ≠ code →
      ofCode code (withUmbrella existing cfg a) = ofCode code (withUmbrella existing cfg b)) :
    Alike existing cfg a b := by
  have hcode (code : UInt16) (hsubnet : edns0OptionClientSubnet ≠ code)
      (hid : edns0OptionNomcpeid ≠ code) (humbrella : edns0OptionUmbrella ≠ code) :
      ofCode code (withDevice existing cfg a) = ofCode code (withDevice existing cfg b) := by
    rw [← ofCode_withUmbrella hid humbrella, h code hsubnet, ofCode_withUmbrella hid humbrella]
  refine ⟨?_, ?_, ?_⟩
  · have hmac := hcode edns0OptionMac (by decide) (by decide) (by decide)
    unfold withDevice addDnsClient at hmac
    rw [ofCode_addIdentity_ne (by decide), ofCode_addIdentity_ne (by decide)] at hmac
    exact shown_eq_of_ofCode_eq rfl hmac
  · have hdevice := shown_eq_of_ofCode_eq ((ofCode_withMac a).trans (ofCode_withMac b).symm)
      (hcode edns0OptionNomdeviceid (by decide) (by decide) (by decide))
    rwa [shown_congr (ofCode_withMac a), shown_congr (ofCode_withMac b)] at hdevice
  · intro hon
    have humbrella := h edns0OptionUmbrella (by decide)
    unfold withUmbrella at humbrella
    simp only [hon, if_true, ofCode_replace] at humbrella
    exact (umbrellaPayload_eq_iff hfam).mp (Option.some.inj (optionOf_injective humbrella))

theorem Alike.withUmbrella_eq (h : Alike existing cfg a b) :
    withUmbrella existing cfg a = withUmbrella existing cfg b := by
  have hmacs : withMac existing cfg a = withMac existing cfg b :=
    (addIdentity_fst_eq_iff _ _).mpr h.mac
  have hdevices : withDevice existing cfg a = withDevice existing cfg b := by
    unfold withDevice
    rw [hmacs]
    apply (addIdentity_fst_eq_iff _ _).mpr
    rw [shown_congr (ofCode_withMac b), shown_congr (ofCode_withMac b)]
    exact h.device
  unfold withUmbrella
  rw [hdevices]
  cases hon : cfg.umbrella
  · rfl
  · rw [h.umbrella hon]

theorem alike_of_anonymous (ha : anonymous cfg a) (hb : anonymous cfg b) :
    Alike existing cfg a b := by
  unfold anonymous at ha hb
  simp only [Bool.and_eq_true, Option.isNone_iff_eq_none, Bool.not_eq_true'] at ha hb
  obtain ⟨⟨hmac, hdevice⟩, hoff⟩ := ha
  obtain ⟨⟨hmac', hdevice'⟩, -⟩ := hb
  refine ⟨?_, ?_, ?_⟩
  · rw [hmac, hmac']
  · rw [hdevice, hdevice']
  · intro hon
    rw [hoff] at hon
    cases hon

/-! ### The flag -/

/-- The flag of `calc_subnet_opt` depends on the family only, and so does the option when it is set.
-/
theorem calcSubnetOpt_congr (hfam : SameFamily s t) :
    (calcSubnetOpt s sub4 sub6).2 = (calcSubnetOpt t sub4 sub6).2
      ∧ ((calcSubnetOpt s sub4 sub6).2 →
        calcSubnetOpt s sub4 sub6 = calcSubnetOpt t sub4 sub6) := by
  match s, t, hfam with
  | .v4 x, .v4 y, _ =>
    rcases sub4 with _ | ⟨mask, _ | const⟩
    · exact ⟨rfl, fun _ => rfl⟩
    · by_cases hmask : mask = 0 <;> simp [calcSubnetOpt, familyOctets, hmask]
    · exact ⟨rfl, fun _ => rfl⟩
  | .v6 x, .v6 y, _ =>
    rcases sub6 with _ | ⟨mask, _ | const⟩
    · exact ⟨rfl, fun _ => rfl⟩
    · by_cases hmask : mask = 0 <;> simp [calcSubnetOpt, familyOctets, hmask]
    · exact ⟨rfl, fun _ => rfl⟩

/-- What is asked of two clients: if both answers may be cached, the queries are the same. -/
def CacheSafe (existing : List Edns0Option) (cfg : Edns0QueryConfig) (a b : Client) : Prop :=
  (addEdns0Config existing a.source a.mac cfg).2 → (addEdns0Config existing b.source b.mac cfg).2 →
    (addEdns0Config existing a.source a.mac cfg).1 = (addEdns0Config existing b.source b.mac cfg).1

theorem anonymous_of_cacheable (hoff : cfg.clientSubnet = false)
    (h : (addEdns0Config existing a.source a.mac cfg).2) : anonymous cfg a := by
  rw [addEdns0Config_eq] at h
  unfold addClientSubnet at h
  rw [hoff, if_neg Bool.false_ne_true] at h
  split at h
  · exact h
  · exact (Bool.and_eq_true _ _ ▸ h).1

/-- **Cacheable answers**: two clients of one family are told apart only by queries whose answers
are not cached, iff they are alike or the subnet forbids caching. -/
theorem cacheSafe_iff (existing : List Edns0Option) (cfg : Edns0QueryConfig) (a b : Client)
    (hfam : SameFamily a.source b.source) : CacheSafe existing cfg a b ↔
      (cfg.clientSubnet = true → (calcSubnetOpt a.source cfg.addSubnet4 cfg.addSubnet6).2 = true →
        Alike existing cfg a b) := by
  unfold CacheSafe
  cases hon : cfg.clientSubnet with
  | false =>
    -- the flag of the identifying options survives
    refine iff_of_true ?_ (fun h => nomatch h)
    intro ha hb
    have halike : Alike existing cfg a b :=
      alike_of_anonymous (anonymous_of_cacheable hon ha) (anonymous_of_cacheable hon hb)
    rw [addEdns0Config_eq, addEdns0Config_eq, halike.withUmbrella_eq]
    unfold addClientSubnet
    rw [hon, if_neg Bool.false_ne_true]
    split <;> rfl
  | true =>
    -- it is overwritten, for both clients alike
    have heq (c : Client) : addEdns0Config existing c.source c.mac cfg =
        (upsertOption (withUmbrella existing cfg c) edns0OptionClientSubnet
          (some (calcSubnetOpt c.source cfg.addSubnet4 cfg.addSubnet6).1.toWire)
          (if cfg.stripEcs then .replace else .addIfAbsent),
          (calcSubnetOpt c.source cfg.addSubnet4 cfg.addSubnet6).2) := by
      rw [addEdns0Config_eq]
      unfold addClientSubnet
      rw [hon, if_pos rfl]
    obtain ⟨hflag, hopt⟩ := calcSubnetOpt_congr hfam
    rw [heq a, heq b, ← hflag]
    constructor
    · intro hsafe _ hcacheable
      apply alike_of_ofCode_eq hfam
      intro code hcode
      have hcodes := congrArg (ofCode code) (hsafe hcacheable hcacheable)
      rwa [ofCode_upsertOption_ne hcode, ofCode_upsertOption_ne hcode] at hcodes
    · intro halike hcacheable _
      rw [(halike rfl hcacheable).withUmbrella_eq, hopt hcacheable]

/-- The client at 10.0.0.n. -/
def sampleClient (n : UInt8) (mac : Option Bytes) : Client := ⟨.v4 ⟨#v[10, 0, 0, n]⟩, mac⟩

/-- The MAC address and a subnet of no bits. -/
def sampleEdns0Config : Edns0QueryConfig := { addMac := true, clientSubnet := true }

/-- Two clients of which no MAC address is known send the same query, which may be cached. -/
theorem cacheSafe_sampleClient :
    SameFamily (sampleClient 1 none).source (sampleClient 2 none).source
      ∧ CacheSafe [] sampleEdns0Config (sampleClient 1 none) (sampleClient 2 none)
      ∧ (addEdns0Config [] (sampleClient 1 none).source none sampleEdns0Config).2 = true := by
  refine ⟨rfl, ?_, by decide⟩
  apply (cacheSafe_iff [] sampleEdns0Config (sampleClient 1 none) (sampleClient 2 none) rfl).mpr
  intro _ _
  exact ⟨rfl, rfl, fun h => nomatch h⟩

/-- Two clients with MAC addresses: both answers may be cached, and the queries differ. -/
theorem not_cacheSafe_mac : SameFamily (sampleClient 1 (some [2, 0, 0, 0, 0, 1])).source
        (sampleClient 2 (some [2, 0, 0, 0, 0, 2])).source
      ∧ ¬ CacheSafe [] sampleEdns0Config (sampleClient 1 (some [2, 0, 0, 0, 0, 1]))
        (sampleClient 2 (some [2, 0, 0, 0, 0, 2])) := by
  refine ⟨rfl, ?_⟩
  unfold CacheSafe
  decide

end DnsmasqRs.Edns0
