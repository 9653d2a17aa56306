import DnsmasqRs.Forward.Equiv.Reload
import DnsmasqRs.Equiv.DomainMatch
import DnsmasqRs.Forward.Equiv.QuerySafe
import DnsmasqRs.Rfc1035.Equiv.Isolation
import DnsmasqRs.Equiv.CacheRuns
import DnsmasqRs.Rfc1035.Equiv.NxdomainAnswers
import DnsmasqRs.Rfc1035.Equiv.NewestAnswer
import DnsmasqRs.Rfc1035.Equiv.ReverseData
import DnsmasqRs.Forward.Equiv.Lifetime
import DnsmasqRs.Forward.Equiv.Admission
import DnsmasqRs.Forward.Equiv.Folding
import DnsmasqRs.Forward.Equiv.Locators
import DnsmasqRs.Forward.Equiv.Loops
import DnsmasqRs.Edns0.Equiv.Config
import DnsmasqRs.Edns0.Equiv.Options
import DnsmasqRs.Rrfilter.Equiv.Filters
import DnsmasqRs.Dhcp.Equiv.LeaseFile
import DnsmasqRs.Dhcp.Equiv.Exhaustion
import DnsmasqRs.Tftp.Equiv.Path
import DnsmasqRs.Tftp.Equiv.Delivery
import DnsmasqRs.Tftp.Equiv.Limit
import DnsmasqRs.Dhcp6.Equiv.Binding
import DnsmasqRs.Dnssec.Equiv.Downgrade
import DnsmasqRs.Dhcp.Equiv.Ping
import DnsmasqRs.Equiv.Pattern
import DnsmasqRs.Dhcp.Equiv.Options
import DnsmasqRs.Dnssec.Equiv.Canonical
import DnsmasqRs.Dhcp.Equiv.Link
import DnsmasqRs.Tftp.Equiv.Acks
import DnsmasqRs.Equiv.Auth
