import DnsmasqRs.Rfc1035.Answer

/-!
# The local data of the daemon (`dnsmasq.rs`)

`daemon_local_data` collects what `answer_request` reads: the records of the configuration and of
the zone files, and the servers with a literal address, which are the `--address` and `--local`
domains.
-/

namespace DnsmasqRs.Dnsmasq

open Utf8 Domain DomainMatch Rfc1035

/-- `ZonesDRecords`. -/
structure ZonesDRecords where
  hostRecords : List HostRecord := []
  cnames : List Cname := []
  txtRecords : List TxtRecord := []
  mxRecords : List MxSrvRecord := []
  naptrRecords : List Naptr := []
  ptrRecords : List PtrRecord := []
  addressServerList : List Server := []

/-- `Daemon`, with the fields `daemon_local_data` reads.  Of the options they are `OPT_NO_IDENT` and
`OPT_NODOTS_LOCAL`; the defaults are those of `Daemon::default`. -/
structure Daemon where
  localTtl : UInt32 := 0
  ednsPktsz : UInt16 := 4096
  txt : List TxtRecord := []
  rr : List TxtRecord := []
  mxnames : List MxSrvRecord := []
  ptr : List PtrRecord := []
  hostRecords : List HostRecord := []
  cnames : List Cname := []
  naptr : List Naptr := []
  intNames : List Str := []
  synthDomains : List CondDomain := []
  servers : List Server := []
  cachesize : ℤ := 150
  optNoIdent : Bool := false
  optNodotsLocal : Bool := false
  zonesD : ZonesDRecords := {}

/-- `literal_servers`. -/
def literalServers (daemon : Daemon) : List Server :=
  daemon.servers.filter (ServFlags.contains ·.flags .literalAddress)

/-- `literal_server_domains`. -/
def literalServerDomains (daemon : Daemon) : List Str :=
  (daemon.servers.filter fun s => ServFlags.contains s.flags .literalAddress && s.domain != []).map
    (·.domain)

/-- `builtin_stat_txt_records`. -/
def builtinStatTxtRecords : List TxtRecord :=
  [("cachesize.bind", 1), ("insertions.bind", 2), ("evictions.bind", 3), ("misses.bind", 4),
    ("hits.bind", 5)].map fun (name, stat) => { name := name.toList, txt := [], rclass := 3, stat }

/-- `daemon_local_data`, as the view of it that `answer_request` takes. -/
def daemonLocalData (daemon : Daemon) : LocalConfig :=
  let addressServerList := literalServers daemon ++ daemon.zonesD.addressServerList
  let builtin := if daemon.optNoIdent then [] else builtinStatTxtRecords
  { localTtl := daemon.localTtl
    ednsPktsz := daemon.ednsPktsz
    txtRecords := daemon.txt ++ builtin ++ daemon.zonesD.txtRecords
    rrRecords := daemon.rr
    mxRecords := daemon.mxnames ++ daemon.zonesD.mxRecords
    ptrRecords := daemon.ptr ++ daemon.zonesD.ptrRecords
    hostRecords := daemon.hostRecords ++ daemon.zonesD.hostRecords
    cnames := daemon.cnames ++ daemon.zonesD.cnames
    naptrRecords := daemon.naptr ++ daemon.zonesD.naptrRecords
    intNames := daemon.intNames
    nodotsLocal := daemon.optNodotsLocal
    synthDomains := daemon.synthDomains
    addressServers := .build [] addressServerList
    addressServerList
    literalDomains := literalServerDomains daemon
    cachesize := daemon.cachesize }

end DnsmasqRs.Dnsmasq
