import DnsmasqRs.Forward.Engine
import DnsmasqRs.Rrfilter.Equiv.Spans

/-!
# The two locators of the OPT record

`forward.rs` and `edns0.rs` both look for the OPT record of a packet.  On a packet that parses both
get past every record, but `forward.rs` takes the last OPT record, whatever is in it, and `edns0.rs`
the first one, if its options can be read.
-/

namespace DnsmasqRs.Forward

open Wire ByteCursor DnsProtocol Rfc1035 DnsPacket Fallible List Option

/-- **The two locators agree** on a packet: both find nothing, or the fields of the one are the
class and the bytes of the TTL of the other. -/
def LocatorsAgree (pkt : Bytes) : Prop :=
  (findPseudoheader pkt).map (fun opt => (opt.1, be32 opt.2)) =
    (Edns0.findPseudoheader pkt).map fun info =>
      (info.udpSize, info.extRcode :: info.version :: be16 info.flags)

/-- The OPT records of a section. -/
def optRecords (rrs : List DnsRr) : List DnsRr := rrs.filter (·.rtype = 41)

/-- The options of an OPT record can be read. -/
def hasOptions (rr : DnsRr) : Bool := (Edns0.parseOptOptions rr.rdata 0).toOption.isSome

variable {pkt : Bytes} {pos e count : ℕ} {rr : DnsRr} {rrs : List DnsRr} {p : DnsPacket}

/-- A record that parses, as the two locators read it. -/
theorem reads_of_parseRr (h : parseRr pkt pos = .ok (rr, e)) :
    skipRr pkt pos = some ((rr.rtype, rr.rclass, rr.ttl), e)
    ∧ ∃ nameEnd f data, skipName pkt pos = .ok nameEnd ∧ Edns0.rrFixed pkt nameEnd = some f
      ∧ readSlice pkt (nameEnd + 10) f.rdlen = some data ∧ nameEnd + 10 + f.rdlen = e
      ∧ f.rtype = rr.rtype
      ∧ f.rclass = rr.rclass ∧ be32 rr.ttl = f.extRcode :: f.version :: be16 f.flags
      ∧ rr.rdata = decompressRdata pkt (nameEnd + 10) rr.rtype data := by
  obtain ⟨nameEnd, rdlen, data, hname, htype, hclass, httl, hrdlen, hdata, hrdata, rfl⟩ :=
    parseRr_eq_ok.mp h
  have hskip := skipName_of_extractName hname
  have hlen := (readSlice_eq_some hdata).1
  obtain ⟨f, rdlen', hfixed, htype', hclass', hrdlen', heq, ttl, httl', hbytes⟩ :=
    Rrfilter.exists_rrFixed (show nameEnd + 10 ≤ pkt.length by omega)
  obtain rfl := some.inj (hrdlen.symm.trans hrdlen')
  refine ⟨?_, nameEnd, f, data, hskip, hfixed, heq ▸ hdata, by rw [heq],
    some.inj (htype'.symm.trans htype), some.inj (hclass'.symm.trans hclass), ?_, hrdata⟩
  · rw [skipRr, hskip]
    simp [htype, hclass, httl, hrdlen, hlen]
  · rw [some.inj (httl.symm.trans httl'), hbytes]

theorem skips_of_parseQuestions (h : parseMany (parseQuestion pkt) count pos = .ok (qs, e)) :
    skipQuestions pkt count pos = some e ∧ Edns0.skipQuestions pkt count pos = .ok e := by
  induction count generalizing pos qs with
  | zero =>
    obtain ⟨-, rfl⟩ := Prod.mk.inj (Except.ok.inj h)
    exact ⟨rfl, rfl⟩
  | succ count ih =>
    obtain ⟨q, mid, qs, hq, hqs, rfl⟩ := parseMany_succ_eq_ok.mp h
    obtain ⟨nameEnd, hname, -, hclass, rfl⟩ := parseQuestion_eq_ok.mp hq
    have hlen : nameEnd + 4 ≤ pkt.length := by
      by_contra hshort
      rw [readU16Be, readSlice, if_neg (by omega)] at hclass
      cases hclass
    rw [skipQuestions, Edns0.skipQuestions, skipName_of_extractName hname]
    simpa only [bind, Except.bind, if_neg hlen.not_gt] using ih hqs

/-- Both get over a section of records to where `parse` goes. -/
theorem skips_of_parseRrs (h : parseMany (parseRr pkt) count pos = .ok (rrs, e)) :
    (∀ more, skipRrs pkt (count + more) pos = skipRrs pkt more e)
      ∧ Edns0.skipRrs pkt count pos = .ok e := by
  induction count generalizing pos rrs with
  | zero =>
    obtain ⟨-, rfl⟩ := Prod.mk.inj (Except.ok.inj h)
    exact ⟨fun more => by rw [Nat.zero_add], rfl⟩
  | succ count ih =>
    obtain ⟨rr, mid, rrs, hrr, hrrs, rfl⟩ := parseMany_succ_eq_ok.mp h
    obtain ⟨hskip, nameEnd, f, data, hname, hfixed, hdata, rfl, -⟩ := reads_of_parseRr hrr
    have hlen := (readSlice_eq_some hdata).1
    refine ⟨fun more => ?_, ?_⟩
    · rw [Nat.succ_add, skipRrs, hskip]
      exact (ih hrrs).1 more
    · rw [Edns0.skipRrs, hname]
      simpa only [bind, Except.bind, hfixed, if_neg hlen.not_gt] using (ih hrrs).2

/-- `forward.rs` takes the last OPT record. -/
theorem findOpt_of_parseRrs (h : parseMany (parseRr pkt) count pos = .ok (rrs, e)) :
    findOpt pkt count pos found
      = some (((optRecords rrs).getLast?.map fun rr => (rr.rclass, rr.ttl)).or found) := by
  induction count generalizing pos rrs found with
  | zero =>
    obtain ⟨rfl, -⟩ := Prod.mk.inj (Except.ok.inj h)
    rfl
  | succ count ih =>
    obtain ⟨rr, mid, rrs, hrr, hrrs, rfl⟩ := parseMany_succ_eq_ok.mp h
    rw [findOpt, (reads_of_parseRr hrr).1]
    show findOpt pkt count mid _ = _
    rw [ih hrrs]
    by_cases hopt : rr.rtype = 41
    · simp only [optRecords, hopt, decide_true, filter_cons_of_pos, getLast?_cons, if_pos]
      cases (rrs.filter (·.rtype = 41)).getLast? <;> rfl
    · simp [optRecords, hopt]

/-- `edns0.rs` takes the first OPT record, if its options can be read. -/
theorem edns0FindOpt_of_parseRrs (h : parseMany (parseRr pkt) count pos = .ok (rrs, e)) :
    (Edns0.findOpt pkt count pos).map (fun info =>
      (info.udpSize, info.extRcode :: info.version :: be16 info.flags)) =
      ((optRecords rrs).head?.filter hasOptions).map fun rr => (rr.rclass, be32 rr.ttl) := by
  induction count generalizing pos rrs with
  | zero =>
    obtain ⟨rfl, -⟩ := Prod.mk.inj (Except.ok.inj h)
    rfl
  | succ count ih =>
    obtain ⟨rr, mid, rrs, hrr, hrrs, rfl⟩ := parseMany_succ_eq_ok.mp h
    obtain ⟨-, nameEnd, f, data, hname, hfixed, hdata, rfl, htype, hclass, httl, hrdata⟩ :=
      reads_of_parseRr hrr
    simp only [Edns0.findOpt, hname, Except.toOption, hfixed, hdata, htype, bind_eq_bind, bind_some]
    by_cases hopt : rr.rtype = 41
    · rw [hopt] at hrdata
      have hraw : rr.rdata = data := hrdata
      have hhead : (optRecords (rr :: rrs)).head? = some rr := by simp [optRecords, hopt]
      rw [if_pos hopt, hhead, Option.filter, hasOptions, hraw]
      cases Edns0.parseOptOptions data 0 with
      | error _ => rfl
      | ok options => exact congrArg some (Prod.ext hclass httl.symm)
    · rw [if_neg hopt, ih hrrs, optRecords, optRecords, filter_cons_of_neg (by simpa using hopt)]

theorem findPseudoheader_of_parse (h : parse pkt = .ok p) :
    findPseudoheader pkt = (optRecords p.additional).getLast?.map fun rr =>
      (rr.rclass, rr.ttl) := by
  obtain ⟨hheader, e₁, e₂, e₃, e₄, hqs, han, hns, har⟩ := parse_eq_ok.mp h
  have hskip : skipRrs pkt (p.header.ancount.toNat + p.header.nscount.toNat) e₁ = some e₃ := by
    rw [(skips_of_parseRrs han).1]
    exact (skips_of_parseRrs hns).1 0
  simp only [findPseudoheader, hheader, (skips_of_parseQuestions hqs).1, hskip,
    findOpt_of_parseRrs har, or_none, bind_eq_bind, bind_some]
  split
  · next hzero =>
    rw [hzero] at har
    rw [← (Prod.mk.inj (Except.ok.inj har)).1]
    rfl
  · rfl

theorem edns0FindPseudoheader_of_parse (h : parse pkt = .ok p) :
    (Edns0.findPseudoheader pkt).map (fun info =>
      (info.udpSize, info.extRcode :: info.version :: be16 info.flags)) =
      ((optRecords p.additional).head?.filter hasOptions).map fun rr =>
      (rr.rclass, be32 rr.ttl) := by
  obtain ⟨hheader, e₁, e₂, e₃, e₄, hqs, han, hns, har⟩ := parse_eq_ok.mp h
  simp only [← edns0FindOpt_of_parseRrs har, Edns0.findPseudoheader, hheader,
    (skips_of_parseQuestions hqs).2,
    (skips_of_parseRrs han).2, (skips_of_parseRrs hns).2, Except.toOption, bind_eq_bind, bind_some]

/-- **The two locators agree** on a packet that parses iff it has no OPT record, or the options of
the first can be read and the first and the last have the same class and TTL. -/
theorem locatorsAgree_iff (h : parse pkt = .ok p) : LocatorsAgree pkt ↔
    ∀ first ∈ (optRecords p.additional).head?, ∀ last ∈ (optRecords p.additional).getLast?,
      hasOptions first ∧ first.rclass = last.rclass ∧ first.ttl = last.ttl := by
  rw [LocatorsAgree, findPseudoheader_of_parse h, edns0FindPseudoheader_of_parse h]
  rcases optRecords p.additional with _ | ⟨first, rest⟩
  · simp
  rw [getLast?_cons]
  generalize rest.getLast?.getD first = last
  by_cases hread : hasOptions first
  · simp [Option.filter, hread, be32_injective.eq_iff, @eq_comm _ last.rclass, @eq_comm _ last.ttl]
  · simp [Option.filter, hread]

/-- A query with an OPT record for each of the UDP sizes. -/
def optQuery (udpSizes : List UInt16) : Bytes :=
  be16 7 ++ [1, 0] ++ be16 0 ++ be16 0 ++ be16 0 ++ be16 (UInt16.ofNat udpSizes.length)
    ++ udpSizes.flatMap fun udpSize => Edns0.optRecord udpSize 0x8000 []

theorem locatorsAgree_iff_optQuery : LocatorsAgree (optQuery [1232]) :=
  (locatorsAgree_iff (p := ⟨⟨7, 1, 0, 0, 0, 0, 1⟩, [], [], [], [⟨[], 41, 1232, 0x8000, []⟩]⟩)
    (by decide +kernel)).mpr (by decide +kernel)

/-- With two OPT records each locator takes its own. -/
theorem not_locatorsAgree_optQuery :
    (DnsPacket.parse (optQuery [1232, 512])).toOption.isSome
      ∧ ¬ LocatorsAgree (optQuery [1232, 512]) := by
  rw [LocatorsAgree]
  decide +kernel

end DnsmasqRs.Forward
