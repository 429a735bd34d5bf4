import Ldap.Ber.Writer
import Ldap.Connection.Run
import Ldap.Control.Any
import Ldap.Dn.Tree
import Ldap.Filter.Parser
import Ldap.Pending.Script
import Ldap.Proofs.Pending.Reuse
import Ldap.Proofs.Pending.Expiry
import Ldap.Proofs.Pending.Interleaving
import Ldap.Proofs.Pending.Progress
import Ldap.Proofs.Connection.Closure
import Ldap.Proofs.Connection.Collected
import Ldap.Proofs.Connection.Identifiers
import Ldap.Proofs.Connection.Isolation
import Ldap.Proofs.Connection.Results
import Ldap.Proofs.Connection.Silence
import Ldap.Proofs.Connection.Submission
import Ldap.Proofs.Connection.Written
import Ldap.Proofs.Message.RoundTrip
import Ldap.Proofs.Ber.IntegerCodec
import Ldap.Proofs.Ber.LengthCodec
import Ldap.Proofs.Ber.Lookahead
import Ldap.Proofs.Ber.Prefix
import Ldap.Proofs.Ber.Refusal
import Ldap.Proofs.Ber.Walk
import Ldap.Proofs.Ber.Writer
import Ldap.Proofs.Operation.Refusal
import Ldap.Proofs.Message.Refusal
import Ldap.Proofs.Message.Members
import Ldap.Proofs.Message.Optionals
import Ldap.Proofs.Message.Overrun
import Ldap.Proofs.Message.Stream
import Ldap.Proofs.Filter.Grammar
import Ldap.Proofs.Filter.Text
import Ldap.Proofs.Filter.Position
import Ldap.Proofs.Filter.RoundTrip
import Ldap.Proofs.Dn.Grammar
import Ldap.Proofs.Dn.Position
import Ldap.Proofs.Dn.Schema
import Ldap.Proofs.Dn.Subtree
import Ldap.Proofs.Dn.Faithful
import Ldap.Proofs.Dn.Reread
import Ldap.Proofs.Dn.Relative
import Ldap.Proofs.Dn.Scope
import Ldap.Proofs.Text.Decimal
import Ldap.Proofs.Control.Values
import Ldap.Proofs.Control.Stable
