import ChainedSet.Session.Store
import ChainedSet.Table.Lemmas
import ChainedSet.Proofs.Binary64.Value
import ChainedSet.Proofs.Capacity.Load
import ChainedSet.Proofs.Table.Operations
import ChainedSet.Proofs.Table.WellFormed
import ChainedSet.Proofs.Layout.Acceptance
import ChainedSet.Proofs.Table.Reachable
import ChainedSet.Proofs.Session.Reachable
import ChainedSet.Proofs.Table.Action
import ChainedSet.Proofs.Table.Membership
import ChainedSet.Proofs.Wire.Form
import ChainedSet.Proofs.Image.RoundTrip
import ChainedSet.Proofs.Table.Order
import ChainedSet.Proofs.Table.HighWater
import ChainedSet.Proofs.Layout.Realization
import ChainedSet.Proofs.Checked.Basic
import ChainedSet.Proofs.Checked.Operations
import ChainedSet.Proofs.Checked.Decoding
import ChainedSet.Proofs.Image.Bytes
import ChainedSet.Proofs.Image.Prolong
import ChainedSet.Proofs.Image.Truncation
import ChainedSet.Proofs.Table.Alike
import ChainedSet.Proofs.Session.Seeds
import ChainedSet.Proofs.Words.RoundTrip
import ChainedSet.Proofs.Murmur.Mixing
import ChainedSet.Proofs.Murmur.Twins
import ChainedSet.Proofs.Murmur.Injective
import ChainedSet.Proofs.Murmur.Published
import ChainedSet.Proofs.Json.Numeral
import ChainedSet.Proofs.Json.Token
import ChainedSet.Proofs.Json.Value
import ChainedSet.Proofs.Json.Text
import ChainedSet.Proofs.Json.RoundTrip
import ChainedSet.Proofs.Table.Growth
import ChainedSet.Proofs.Table.Bulk
import ChainedSet.Proofs.Table.Merge
import ChainedSet.Proofs.Table.Undo
import ChainedSet.Proofs.Binary64.Rounding
import ChainedSet.Proofs.Capacity.LoadTest
import ChainedSet.Proofs.Image.Lengths
import ChainedSet.Proofs.Wire.Script
import ChainedSet.Proofs.Wire.RoundTrip
import ChainedSet.Proofs.Checked.Script
import ChainedSet.Proofs.Table.Memory
