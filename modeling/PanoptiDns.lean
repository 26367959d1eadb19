import PanoptiDns.Lib.Digits
import PanoptiDns.Lib.ByteString
import PanoptiDns.Lib.Lines
import PanoptiDns.Lib.Utf8
import PanoptiDns.Lib.PrefixMask
import PanoptiDns.Lib.FirstMatch
import PanoptiDns.Lib.Registry
import PanoptiDns.Lib.Run
import PanoptiDns.Lib.Mealy
import PanoptiDns.Lib.CellRate
import PanoptiDns.Lib.Tally
import PanoptiDns.Lib.Sections
import PanoptiDns.Lib.Columns
import PanoptiDns.Hickory
import PanoptiDns.Nibble
import PanoptiDns.NibbleCodec
import PanoptiDns.HostCodec
import PanoptiDns.StdNet
import PanoptiDns.StdNetCodec
import PanoptiDns.Config.Basic
import PanoptiDns.Config.Parse
import PanoptiDns.Config.Outline
import PanoptiDns.Config.Grammar
import PanoptiDns.Config.Words
import PanoptiDns.Config.Keywords
import PanoptiDns.Config.Compile
import PanoptiDns.Config.Template
import PanoptiDns.Config.Accept
import PanoptiDns.Config.Values
import PanoptiDns.Config.Settings
import PanoptiDns.Config.Contents
import PanoptiDns.Config.Print
import PanoptiDns.Config.Canonical
import PanoptiDns.Config.Provenance
import PanoptiDns.Config.Diagnostics
import PanoptiDns.Config.Report
import PanoptiDns.Config.Unreachable
import PanoptiDns.Config.Duplicates
import PanoptiDns.Config.Layout
import PanoptiDns.Zone.Basic
import PanoptiDns.Zone.Forward
import PanoptiDns.Zone.Lookup
import PanoptiDns.Zone.Order
import PanoptiDns.Zone.RoundTrip
import PanoptiDns.Zone.Namespace
import PanoptiDns.Rrl
import PanoptiDns.Rrl.Budgets
import PanoptiDns.Rrl.Rate
import PanoptiDns.Rrl.Memory
import PanoptiDns.Rrl.Slip
import PanoptiDns.Upstream
import PanoptiDns.Upstream.Breaker
import PanoptiDns.Upstream.Lookups
import PanoptiDns.Upstream.Permits
import PanoptiDns.Upstream.Load
import PanoptiDns.Server.Handler
import PanoptiDns.Server.Accepted
import PanoptiDns.Server.Existence
import PanoptiDns.Server.Relay
import PanoptiDns.Server.CaseFold
import PanoptiDns.Server.System
import PanoptiDns.Server.Amplification
import PanoptiDns.Server.Negative
import PanoptiDns.Server.Containment
import PanoptiDns.Server.Database
import PanoptiDns.Server.Snapshot
import PanoptiDns.Server.Delivery
import PanoptiDns.Server.Fairness
import PanoptiDns.Server.Reload
import PanoptiDns.Server.Warnings
